/-
# Values under other tags

A tag says which function or expander a value is, and nothing else depends on it. When all
tags are replaced by others, one for one, texts and messages stay as they are, equal values
stay equal and different ones different, and what the builtins compute is the same under the
new tags.

Replacing tags is a function on values, and likewise on errors and on bindings, so that two
runs that differ in tags only can be compared by equations.
-/

import ContextLisp.Builtin
import ContextLisp.Evaluation.State
import Mathlib.Logic.Function.Basic

namespace ContextLisp

namespace Value

/-- Induction over items of lists and bodies of functions and expanders. -/
@[elab_as_elim]
theorem partInduction {motive : Value → Prop} (int : ∀ n, motive (.int n))
    (bool : ∀ b, motive (.bool b)) (nil : motive .nil) (symbol : ∀ name, motive (.symbol name))
    (keyword : ∀ name, motive (.keyword name)) (text : ∀ content, motive (.text content))
    (list : ∀ items, (∀ v ∈ items, motive v) → motive (.list items))
    (function : ∀ tag params body scope, motive body →
      motive (.function tag params body scope))
    (expander : ∀ tag params body, motive body → motive (.expander tag params body))
    (primitive : ∀ p, motive (.primitive p)) (v : Value) : motive v :=
  @Value.rec motive (fun vs => ∀ v ∈ vs, motive v) int bool nil symbol keyword text list
    function expander primitive (by simp) (fun _ _ head tail => by simpa [head] using tail) v

mutual

/-- The value with every tag replaced. -/
def retag (ρ : Nat → Nat) : Value → Value
  | .list items => .list (retagItems ρ items)
  | .function tag params body scope => .function (ρ tag) params (body.retag ρ) scope
  | .expander tag params body => .expander (ρ tag) params (body.retag ρ)
  | v => v

/-- Several values with every tag replaced. -/
def retagItems (ρ : Nat → Nat) : List Value → List Value
  | [] => []
  | v :: vs => v.retag ρ :: retagItems ρ vs

end

mutual

/-- The tags in a value. -/
def tags : Value → List Nat
  | .list items => tagsOfItems items
  | .function tag _ body _ => tag :: body.tags
  | .expander tag _ body => tag :: body.tags
  | _ => []

/-- The tags in several values. -/
def tagsOfItems : List Value → List Nat
  | [] => []
  | v :: vs => v.tags ++ tagsOfItems vs

end

variable {ρ : Nat → Nat}

theorem retagItems_eq_map (vs : List Value) : retagItems ρ vs = vs.map (retag ρ) := by
  induction vs with
  | nil => rfl
  | cons v vs ih => rw [retagItems, ih, List.map_cons]

@[simp] theorem retag_int (n : Int) : (Value.int n).retag ρ = .int n := rfl

@[simp] theorem retag_bool (b : Bool) : (Value.bool b).retag ρ = .bool b := rfl

@[simp] theorem retag_nil : Value.nil.retag ρ = .nil := rfl

@[simp] theorem retag_symbol (name : String) : (Value.symbol name).retag ρ = .symbol name := rfl

@[simp] theorem retag_keyword (name : String) : (Value.keyword name).retag ρ = .keyword name := rfl

@[simp] theorem retag_text (content : String) : (Value.text content).retag ρ = .text content := rfl

@[simp] theorem retag_primitive (p : Primitive) : (Value.primitive p).retag ρ = .primitive p := rfl

@[simp] theorem retag_list (items : List Value) :
    (Value.list items).retag ρ = .list (items.map (retag ρ)) := by
  rw [retag, retagItems_eq_map]

@[simp] theorem retag_function (tag : Nat) (params : List String) (body : Value)
    (scope : ContextId) : (Value.function tag params body scope).retag ρ =
      .function (ρ tag) params (body.retag ρ) scope := rfl

@[simp] theorem retag_expander (tag : Nat) (params : List String) (body : Value) :
    (Value.expander tag params body).retag ρ = .expander (ρ tag) params (body.retag ρ) := rfl

theorem tagsOfItems_eq_flatMap (vs : List Value) : tagsOfItems vs = vs.flatMap tags := by
  induction vs with
  | nil => rfl
  | cons v vs ih => rw [tagsOfItems, ih, List.flatMap_cons]

/-- A value stays as it is exactly if its tags do. -/
theorem retag_eq_self_iff {v : Value} : v.retag ρ = v ↔ ∀ t ∈ v.tags, ρ t = t := by
  induction v using partInduction with
  | list items each =>
    have itemwise : items.map (retag ρ) = items ↔ ∀ v ∈ items, v.retag ρ = v := by
      conv => lhs; rhs; rw [← List.map_id' items]
      exact List.map_inj_left
    rw [retag_list, list.injEq, itemwise, tags, tagsOfItems_eq_flatMap]
    simp only [List.mem_flatMap]
    constructor
    · rintro same t ⟨v, member, within⟩
      exact (each v member).mp (same v member) t within
    · intro fixed v member
      exact (each v member).mpr fun t within => fixed t ⟨v, member, within⟩
  | function tag params body scope ih => simp [tags, ih]
  | expander tag params body ih => simp [tags, ih]
  | _ => simp [tags]

/-! ### What a value looks like -/

@[simp] theorem isTruthy_retag (v : Value) : (v.retag ρ).isTruthy = v.isTruthy := by
  cases v <;> rfl

@[simp] theorem number?_retag (v : Value) : (v.retag ρ).number? = v.number? := by
  cases v <;> rfl

theorem source?_retag (v : Value) : (v.retag ρ).source? = v.source? := by
  induction v using partInduction with
  | list items each =>
    have items : sourceItems? (items.map (retag ρ)) = sourceItems? items := by
      induction items with
      | nil => rfl
      | cons v items ih =>
        rw [List.map_cons, sourceItems?, sourceItems?, each v List.mem_cons_self,
          ih fun w member => each w (List.mem_cons_of_mem v member)]
    rw [retag_list, source?, source?, items]
  | function tag params body scope ih => rw [retag_function, source?, source?, ih]
  | expander tag params body ih => rw [retag_expander, source?, source?, ih]
  | _ => rfl

@[simp] theorem inspect?_retag (v : Value) : (v.retag ρ).inspect? = v.inspect? := by
  induction v using partInduction with
  | list items each =>
    have items : inspectItems? (items.map (retag ρ)) = inspectItems? items := by
      induction items with
      | nil => rfl
      | cons v items ih =>
        rw [List.map_cons, inspectItems?, inspectItems?, each v List.mem_cons_self,
          ih fun w member => each w (List.mem_cons_of_mem v member)]
    rw [retag_list, inspect?, inspect?, items]
  | function tag params body scope ih =>
    simpa [inspect?] using source?_retag (ρ := ρ) (.function tag params body scope)
  | expander tag params body ih =>
    simpa [inspect?] using source?_retag (ρ := ρ) (.expander tag params body)
  | _ => rfl

@[simp] theorem display?_retag (v : Value) : (v.retag ρ).display? = v.display? := by
  cases v with
  | list items => simpa [display?] using inspect?_retag (ρ := ρ) (.list items)
  | function tag params body scope =>
    simpa [display?] using inspect?_retag (ρ := ρ) (.function tag params body scope)
  | expander tag params body =>
    simpa [display?] using inspect?_retag (ρ := ρ) (.expander tag params body)
  | _ => rfl

@[simp] theorem displayItems?_retag (vs : List Value) :
    displayItems? (vs.map (retag ρ)) = displayItems? vs := by
  simp [displayItems?, Function.comp_def]

/-! ### Equality and order -/

/-- Tags that are replaced one for one keep values apart. -/
theorem same_retag (injective : Function.Injective ρ) (v w : Value) :
    (v.retag ρ).same (w.retag ρ) = v.same w := by
  induction v using partInduction generalizing w with
  | list items each =>
    cases w with
    | list others =>
      have items : sameItems (items.map (retag ρ)) (others.map (retag ρ)) =
          sameItems items others := by
        induction items generalizing others with
        | nil => cases others <;> rfl
        | cons v items ih =>
          cases others with
          | nil => rfl
          | cons w others =>
            rw [List.map_cons, List.map_cons, sameItems, sameItems, each v List.mem_cons_self,
              ih fun u member => each u (List.mem_cons_of_mem v member)]
      rw [retag_list, retag_list, same, same, items]
    | _ => rfl
  | function tag params body scope ih =>
    -- Tags are compared here only, and two of them never become one.
    cases w with
    | function => simp [same, injective.eq_iff]
    | _ => rfl
  | expander tag params body ih =>
    cases w with
    | expander => simp [same, injective.eq_iff]
    | _ => rfl
  | _ => cases w <;> rfl

theorem order?_retag (injective : Function.Injective ρ) (v w : Value) :
    (v.retag ρ).order? (w.retag ρ) = v.order? w := by
  induction v using partInduction generalizing w with
  | list items each =>
    cases w with
    | list others =>
      have items : orderItems? (items.map (retag ρ)) (others.map (retag ρ)) =
          orderItems? items others := by
        induction items generalizing others with
        | nil => cases others <;> rfl
        | cons v items ih =>
          cases others with
          | nil => rfl
          | cons w others =>
            -- The first unequal items decide, so equality has a part in order.
            rw [List.map_cons, List.map_cons, orderItems?, orderItems?, same_retag injective,
              each v List.mem_cons_self,
              ih fun u member => each u (List.mem_cons_of_mem v member)]
      rw [retag_list, retag_list, order?, order?, items]
    | _ => rfl
  | _ => cases w <;> rfl

theorem chain?_retag (injective : Function.Injective ρ) (c : Comparison) (vs : List Value) :
    c.chain? (vs.map (retag ρ)) = c.chain? vs := by
  have pair (v w : Value) : c.holds? (v.retag ρ) (w.retag ρ) = c.holds? v w := by
    cases c <;> simp [Comparison.holds?, same_retag injective, order?_retag injective]
  fun_induction c.chain? vs with
  | case1 v w rest holds ih =>
    rw [List.map_cons, List.map_cons, Comparison.chain?, pair, holds]
    exact ih
  | case2 v w rest fails =>
    rw [List.map_cons, List.map_cons, Comparison.chain?, pair]
    split
    · exact absurd ‹_› fails
    · rfl
  | case3 vs short =>
    match vs, short with
    | [], _ => rfl
    | [_], _ => rfl
    | _ :: _ :: _, short => exact absurd rfl (short _ _ _)

end Value

/-! ### Errors -/

def NameFault.retag (ρ : Nat → Nat) : NameFault → NameFault
  | .binding v => .binding (v.retag ρ)
  | .definition v => .definition (v.retag ρ)
  | .macroName v => .macroName (v.retag ρ)
  | .parameter form v => .parameter form (v.retag ρ)
  | .letBinding v => .letBinding (v.retag ρ)

def ArityFault.retag (ρ : Nat → Nat) : ArityFault → ArityFault
  | .arguments names given => .arguments (names.map (Value.retag ρ)) given
  | fault => fault

def KindFault.retag (ρ : Nat → Nat) : KindFault → KindFault
  | .incomparable name args => .incomparable name (args.map (Value.retag ρ))
  | .parameterList form v => .parameterList form (v.retag ρ)
  | .letBindings v => .letBindings (v.retag ρ)
  | fault => fault

/-- The error with every tag replaced in the values that it shows. -/
def Error.retag (ρ : Nat → Nat) : Error → Error
  | .notCallable callee form => .notCallable (callee.retag ρ) (form.map (Value.retag ρ))
  | .invalidName fault => .invalidName (fault.retag ρ)
  | .arity fault => .arity (fault.retag ρ)
  | .wrongKind fault => .wrongKind (fault.retag ρ)
  | e => e

section

variable {ρ : Nat → Nat}

/-- No message tells a tag. -/
@[simp] theorem Error.message?_retag (e : Error) : (e.retag ρ).message? = e.message? := by
  cases e with
  | notCallable callee form => cases form <;> simp [Error.retag, Error.message?]
  | invalidName fault =>
    cases fault <;> simp [Error.retag, NameFault.retag, Error.message?, NameFault.message?]
  | arity fault =>
    cases fault <;> simp [Error.retag, ArityFault.retag, Error.message?, ArityFault.message?]
  | wrongKind fault =>
    cases fault with
    | incomparable name args =>
      have shown := Value.inspect?_retag (ρ := ρ) (.list args)
      rw [Value.retag_list] at shown
      simp only [Error.retag, KindFault.retag, Error.message?, KindFault.message?, shown]
    | _ => simp [Error.retag, KindFault.retag, Error.message?, KindFault.message?]
  | _ => rfl

theorem Error.settle_retag (e : Error) : (e.retag ρ).settle = e.settle.retag ρ := by
  rw [Error.settle, Error.settle, Error.message?_retag]
  split <;> rfl

/-- A result of any kind or an error, with every tag replaced. -/
def retagOutcome {α : Type} (f : α → α) (ρ : Nat → Nat) : Except Error α → Except Error α
  | .ok a => .ok (f a)
  | .error e => .error (e.retag ρ)

/-! ### Builtins -/

namespace Builtin

theorem combine_retag {op : Value → Value → Except Error Value}
    (each : ∀ v w, op (v.retag ρ) (w.retag ρ) = retagOutcome (Value.retag ρ) ρ (op v w))
    (v : Value) (vs : List Value) :
    combine op (v.retag ρ) (vs.map (Value.retag ρ)) =
      retagOutcome (Value.retag ρ) ρ (combine op v vs) := by
  induction vs generalizing v with
  | nil => rfl
  | cons w vs ih =>
    rw [List.map_cons, combine, combine, each]
    cases op v w with
    | ok next => exact ih next
    | error e => rfl

theorem plus_retag (v w : Value) :
    plus (v.retag ρ) (w.retag ρ) = retagOutcome (Value.retag ρ) ρ (plus v w) := by
  simp only [plus, Value.number?_retag]
  cases v.number? <;> cases w.number? <;> rfl

theorem repeated_retag (n : Int) (v : Value) :
    repeated n (v.retag ρ) = retagOutcome (Value.retag ρ) ρ (repeated n v) := by
  cases v with
  | list items =>
    simp only [Value.retag_list, repeated, repeatList, List.length_map]
    split
    · rfl
    · split
      · rfl
      · simp only [retagOutcome, Value.retag_list, replicated, List.isEmpty_map]
        split <;> simp
  | text content =>
    simp only [Value.retag_text, repeated, repeatText]
    split
    · rfl
    · split <;> rfl
  | _ => rfl

theorem times_retag (v w : Value) :
    times (v.retag ρ) (w.retag ρ) = retagOutcome (Value.retag ρ) ρ (times v w) := by
  simp only [times, Value.number?_retag]
  cases v.number? with
  | some m =>
    cases w.number? with
    | some n => rfl
    | none => exact repeated_retag m w
  | none =>
    cases w.number? with
    | some n => exact repeated_retag n v
    | none => rfl

/-- Builtins compute the same under other tags. -/
theorem run_retag (injective : Function.Injective ρ) (b : Builtin) (args : List Value) :
    b.run (args.map (Value.retag ρ)) = retagOutcome (Value.retag ρ) ρ (b.run args) := by
  cases b with
  | add => exact combine_retag plus_retag (.int 0) args
  | mul => exact combine_retag times_retag (.int 1) args
  | compare c =>
    simp only [run, compareAll, List.isEmpty_map, Value.chain?_retag injective]
    split
    · exact congrArg Except.error (Error.settle_retag (ρ := ρ) (.arity (.comparison c.name)))
    · cases c.chain? args with
      | some answer => rfl
      | none =>
        exact congrArg Except.error
          (Error.settle_retag (ρ := ρ) (.wrongKind (.incomparable c.name args)))

end Builtin

/-! ### Bindings and calls -/

namespace Bindings

/-- The bindings with every tag replaced. -/
def retag (ρ : Nat → Nat) (bindings : Bindings) : Bindings :=
  bindings.map fun (name, value) => (name, value.retag ρ)

theorem get?_retag (name : String) (bindings : Bindings) :
    (bindings.retag ρ).get? name = (bindings.get? name).map (Value.retag ρ) := by
  induction bindings with
  | nil => rfl
  | cons head rest ih =>
    obtain ⟨key, value⟩ := head
    by_cases same : key = name
    · simp [retag, get?, same]
    · simpa [retag, get?, same] using ih

theorem assign_retag (name : String) (value : Value) (bindings : Bindings) :
    (bindings.retag ρ).assign name (value.retag ρ) = (bindings.assign name value).retag ρ := by
  induction bindings with
  | nil => rfl
  | cons head rest ih =>
    obtain ⟨key, old⟩ := head
    by_cases same : key = name
    · simp [retag, assign, same]
    · simpa [retag, assign, same] using ih

end Bindings

end

/-- The call with every tag replaced in its arguments. -/
def Call.retag (ρ : Nat → Nat) (call : Call) : Call :=
  ⟨call.primitive, call.args.map (Value.retag ρ)⟩

end ContextLisp
