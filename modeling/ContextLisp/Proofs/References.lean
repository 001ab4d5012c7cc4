/-
# What values and errors refer to

Code and data can hold what arises at run time only: functions, expanders and primitives, at
any depth, in lists and in the bodies of functions and expanders. A value refers to a context
only through a function somewhere in it, which was made there. An error refers to the values
that it shows and, if a name had no value, to the context where the search began.

The builtins make up nothing of this: what their results and their errors hold was in their
arguments.
-/

import ContextLisp.Proofs.Evaluation.Errors
import ContextLisp.Proofs.Retagging

namespace ContextLisp

namespace Value

mutual

/-- The functions, expanders and primitives in a value. -/
def callables : Value → List Value
  | .list items => callablesOfItems items
  | .function tag params body scope => .function tag params body scope :: body.callables
  | .expander tag params body => .expander tag params body :: body.callables
  | .primitive p => [.primitive p]
  | _ => []

/-- The functions, expanders and primitives in several values. -/
def callablesOfItems : List Value → List Value
  | [] => []
  | v :: vs => v.callables ++ callablesOfItems vs

end

/-- The context that a function was made in. -/
def scope? : Value → Option ContextId
  | .function _ _ _ scope => some scope
  | _ => none

/-- The contexts that a value refers to. -/
def scopes (v : Value) : List ContextId :=
  v.callables.filterMap scope?

/-- The value is a primitive that a host supplied. -/
def isHostPrimitive : Value → Bool
  | .primitive (.host _) => true
  | _ => false

theorem callablesOfItems_eq_flatMap (vs : List Value) :
    callablesOfItems vs = vs.flatMap callables := by
  induction vs with
  | nil => rfl
  | cons v vs ih => rw [callablesOfItems, ih, List.flatMap_cons]

@[simp] theorem callables_list (items : List Value) :
    (Value.list items).callables = items.flatMap callables := by
  rw [callables, callablesOfItems_eq_flatMap]

@[simp] theorem callables_function (tag : Nat) (params : List String) (body : Value)
    (scope : ContextId) : (Value.function tag params body scope).callables =
      .function tag params body scope :: body.callables := rfl

@[simp] theorem callables_expander (tag : Nat) (params : List String) (body : Value) :
    (Value.expander tag params body).callables = .expander tag params body :: body.callables :=
  rfl

theorem mem_scopes_iff {v : Value} {c : ContextId} :
    c ∈ v.scopes ↔ ∃ w ∈ v.callables, w.scope? = some c :=
  List.mem_filterMap

/-- Everything in the value that can be called has the property. -/
def EachCallable (P : Value → Prop) (v : Value) : Prop :=
  ∀ w ∈ v.callables, P w

variable {P : Value → Prop}

theorem eachCallable_of_plain {v : Value} (plain : v.callables = []) : v.EachCallable P := by
  rw [EachCallable, plain]
  exact nofun

theorem eachCallable_list {items : List Value} :
    (Value.list items).EachCallable P ↔ ∀ v ∈ items, v.EachCallable P := by
  simp only [EachCallable, callables_list, List.mem_flatMap]
  grind

theorem eachCallable_function {tag : Nat} {params : List String} {body : Value}
    {scope : ContextId} : (Value.function tag params body scope).EachCallable P ↔
      P (.function tag params body scope) ∧ body.EachCallable P := by
  rw [EachCallable, callables_function, List.forall_mem_cons, EachCallable]

theorem eachCallable_expander {tag : Nat} {params : List String} {body : Value} :
    (Value.expander tag params body).EachCallable P ↔
      P (.expander tag params body) ∧ body.EachCallable P := by
  rw [EachCallable, callables_expander, List.forall_mem_cons, EachCallable]

theorem EachCallable.imp {Q : Value → Prop} {v : Value} (each : v.EachCallable P)
    (implies : ∀ w, P w → Q w) : v.EachCallable Q :=
  fun w inside => implies w (each w inside)

/-- A property of the contexts that a value refers to is one of its functions. -/
theorem forall_mem_scopes_iff {p : ContextId → Prop} {v : Value} :
    (∀ c ∈ v.scopes, p c) ↔ v.EachCallable fun w => ∀ c ∈ w.scope?, p c := by
  simp only [mem_scopes_iff, EachCallable, Option.mem_def]
  grind

/-- A tag in a value belongs to a function or an expander in it. -/
theorem tags_of_callables_eq_nil {v : Value} (plain : v.callables = []) : v.tags = [] := by
  induction v using partInduction with
  | list items each =>
    rw [callables_list, List.flatMap_eq_nil_iff] at plain
    rw [tags, tagsOfItems_eq_flatMap, List.flatMap_eq_nil_iff]
    exact fun v member => each v member (plain v member)
  | function => cases plain
  | expander => cases plain
  | _ => rfl

end Value

/-! ### Errors -/

/-- The value that stands in the place of a name. -/
def NameFault.given : NameFault → Value
  | .binding v | .definition v | .macroName v | .parameter _ v | .letBinding v => v

def ArityFault.values : ArityFault → List Value
  | .arguments names _ => names
  | _ => []

def KindFault.values : KindFault → List Value
  | .incomparable _ args => args
  | .parameterList _ v | .letBindings v => [v]
  | .notNumbers _ => []
  | .noCode p => [.primitive p]

namespace Error

/-- The values that an error shows. -/
def values : Error → List Value
  | .notCallable callee form => callee :: form.toList
  | .invalidName fault => [fault.given]
  | .arity fault => fault.values
  | .wrongKind fault => fault.values
  | _ => []

/-- The context in which the search for a name began that has no value. -/
def searchedFrom? : Error → Option ContextId
  | .unbound _ start => some start
  | _ => none

/-- The contexts that an error refers to. -/
def contexts (e : Error) : List ContextId :=
  e.searchedFrom?.toList ++ e.values.flatMap Value.scopes

/-- The error shows no value and tells of no search. -/
def IsBare (e : Error) : Prop := e.values = [] ∧ e.searchedFrom? = none

theorem mem_contexts_iff {e : Error} {c : ContextId} :
    c ∈ e.contexts ↔ e.searchedFrom? = some c ∨ ∃ v ∈ e.values, c ∈ v.scopes := by
  simp [contexts]

/-- The error that takes another's place shows no other values. -/
theorem mem_values_settle {e : Error} {v : Value} (shown : v ∈ e.settle.values) :
    v ∈ e.values := by
  unfold settle at shown
  split at shown
  · exact shown
  · cases shown

theorem searchedFrom?_settle {e : Error} (silent : e.searchedFrom? = none) :
    e.settle.searchedFrom? = none := by
  unfold settle
  split
  · exact silent
  · rfl

theorem IsBare.settle {e : Error} (bare : e.IsBare) : e.settle.IsBare := by
  unfold Error.settle
  split
  · exact bare
  · exact ⟨rfl, rfl⟩

end Error

/-- A rule that refuses a form tells of no search. -/
theorem Rejection.searchedFrom?_eq_none {e : Error} (rejection : Rejection e) :
    e.settle.searchedFrom? = none :=
  Error.searchedFrom?_settle (by cases rejection <;> rfl)

/-! ### Builtins -/

namespace Builtin

theorem mem_callables_combine {op : Value → Value → Except Error Value}
    (each : ∀ a b v, op a b = .ok v → ∀ w ∈ v.callables, w ∈ a.callables ∨ w ∈ b.callables)
    {acc v : Value} {args : List Value} (combined : combine op acc args = .ok v) {w : Value}
    (inside : w ∈ v.callables) : w ∈ acc.callables ∨ ∃ a ∈ args, w ∈ a.callables := by
  induction args generalizing acc with
  | nil =>
    cases combined
    exact .inl inside
  | cons b args ih =>
    rw [combine] at combined
    split at combined
    · rename_i next stepped
      rcases ih combined with before | ⟨a, member, within⟩
      · rcases each acc b next stepped w before with left | right
        · exact .inl left
        · exact .inr ⟨b, List.mem_cons_self, right⟩
      · exact .inr ⟨a, List.mem_cons_of_mem b member, within⟩
    · cases combined

theorem mem_callables_plus {a b v : Value} (ran : plus a b = .ok v) {w : Value}
    (inside : w ∈ v.callables) : w ∈ a.callables ∨ w ∈ b.callables := by
  unfold plus at ran
  split at ran
  · cases ran
    cases inside
  · cases ran

theorem mem_replicated {α : Type} {n : Nat} {items : List α} {a : α}
    (member : a ∈ replicated n items) : a ∈ items := by
  unfold replicated at member
  split at member
  · cases member
  · obtain ⟨copy, among, inside⟩ := List.mem_flatten.mp member
    rwa [List.eq_of_mem_replicate among] at inside

/-- A sequence repeated holds what it held. -/
theorem mem_callables_repeated {n : Int} {a v : Value} (ran : repeated n a = .ok v) {w : Value}
    (inside : w ∈ v.callables) : w ∈ a.callables := by
  cases a with
  | list items =>
    simp only [repeated, repeatList] at ran
    split at ran
    · cases ran
    · split at ran
      · cases ran
      · cases ran
        rw [Value.callables_list, List.mem_flatMap] at inside ⊢
        obtain ⟨item, member, within⟩ := inside
        exact ⟨item, mem_replicated member, within⟩
  | text content =>
    simp only [repeated, repeatText] at ran
    split at ran
    · cases ran
    · split at ran
      · cases ran
      · cases ran
        cases inside
  | _ => cases ran

theorem mem_callables_times {a b v : Value} (ran : times a b = .ok v) {w : Value}
    (inside : w ∈ v.callables) : w ∈ a.callables ∨ w ∈ b.callables := by
  unfold times at ran
  split at ran
  · cases ran
    cases inside
  · exact .inr (mem_callables_repeated ran inside)
  · exact .inl (mem_callables_repeated ran inside)
  · cases ran

/-- What can be called in the result of a builtin was in one of its arguments. -/
theorem mem_callables_run {b : Builtin} {args : List Value} {v : Value} (ran : b.run args = .ok v)
    {w : Value} (inside : w ∈ v.callables) : ∃ a ∈ args, w ∈ a.callables := by
  cases b with
  | add =>
    exact (mem_callables_combine (fun _ _ _ => mem_callables_plus) ran inside).resolve_left nofun
  | mul =>
    exact (mem_callables_combine (fun _ _ _ => mem_callables_times) ran inside).resolve_left nofun
  | compare c =>
    simp only [run, compareAll] at ran
    split at ran
    · cases ran
    · split at ran
      · cases ran
        cases inside
      · cases ran

/-- A result holds nothing that can be called but what the arguments hold. -/
theorem eachCallable_run {b : Builtin} {args : List Value} {v : Value} (ran : b.run args = .ok v)
    {P : Value → Prop} (each : ∀ a ∈ args, a.EachCallable P) : v.EachCallable P := by
  intro w inside
  obtain ⟨a, member, within⟩ := mem_callables_run ran inside
  exact each a member w within

theorem Refuses.isBare {e : Error} (refuses : Refuses e) : e.IsBare := by
  cases refuses <;> exact ⟨rfl, rfl⟩

/-- A builtin that fails shows nothing but its arguments. -/
theorem values_of_run_error {b : Builtin} {args : List Value} {e : Error}
    (failed : b.run args = .error e) : (∀ v ∈ e.values, v ∈ args) ∧ e.searchedFrom? = none := by
  have ofBare (bare : e.IsBare) : (∀ v ∈ e.values, v ∈ args) ∧ e.searchedFrom? = none :=
    ⟨by simp [bare.1], bare.2⟩
  cases b with
  | add => exact ofBare (combine_error (fun _ _ _ => refuses_of_plus) failed).isBare
  | mul => exact ofBare (combine_error (fun _ _ _ => refuses_of_times) failed).isBare
  | compare c =>
    simp only [run, compareAll] at failed
    split at failed
    · cases failed
      exact ofBare (Error.IsBare.settle ⟨rfl, rfl⟩)
    · split at failed
      · cases failed
      · cases failed
        exact ⟨fun v shown => Error.mem_values_settle shown, Error.searchedFrom?_settle rfl⟩

end Builtin

end ContextLisp
