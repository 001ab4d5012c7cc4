/-
# Code of values

The code of a value keeps the bodies of its functions and expanders as they are. So what can be
called in the code is what can be called in these bodies, and only a primitive outside of them
is refused. Where the bodies hold nothing that can be called, the code is plain data, which is
its own code.

Whatever the bodies hold, a value and its code have the same source text: a function or an
expander is written as the form that stands for it.
-/

import ContextLisp.Proofs.Rendering
import ContextLisp.Session
import Mathlib.Data.List.Perm.Basic

namespace ContextLisp

namespace Value

/-! ### What can be called outside of bodies -/

mutual

/-- The functions, expanders and primitives in a value that stand in no body of another. -/
def outerCallables : Value → List Value
  | .list items => outerCallablesOfItems items
  | .function tag params body scope => [.function tag params body scope]
  | .expander tag params body => [.expander tag params body]
  | .primitive p => [.primitive p]
  | _ => []

/-- The functions, expanders and primitives in several values that stand in no body of another. -/
def outerCallablesOfItems : List Value → List Value
  | [] => []
  | v :: vs => v.outerCallables ++ outerCallablesOfItems vs

end

/-- The body of a function or an expander. -/
def body? : Value → Option Value
  | .function _ _ body _ => some body
  | .expander _ _ body => some body
  | _ => none

def primitive? : Value → Option Primitive
  | .primitive p => some p
  | _ => none

/-- The bodies of the functions and expanders in a value, but not those inside of bodies. -/
def bodies (v : Value) : List Value :=
  v.outerCallables.filterMap body?

/-- The primitives in a value that stand in no body. -/
def outerPrimitives (v : Value) : List Primitive :=
  v.outerCallables.filterMap primitive?

theorem outerCallablesOfItems_eq_flatMap (vs : List Value) :
    outerCallablesOfItems vs = vs.flatMap outerCallables := by
  induction vs with
  | nil => rfl
  | cons v vs ih => rw [outerCallablesOfItems, ih, List.flatMap_cons]

@[simp] theorem outerCallables_list (items : List Value) :
    (Value.list items).outerCallables = items.flatMap outerCallables := by
  rw [outerCallables, outerCallablesOfItems_eq_flatMap]

@[simp] theorem bodies_list (items : List Value) :
    (Value.list items).bodies = items.flatMap bodies := by
  rw [bodies, outerCallables_list, List.filterMap_flatMap]
  rfl

@[simp] theorem outerPrimitives_list (items : List Value) :
    (Value.list items).outerPrimitives = items.flatMap outerPrimitives := by
  rw [outerPrimitives, outerCallables_list, List.filterMap_flatMap]
  rfl

/-- What can be called in a value stands outside of the bodies or in one of them. -/
theorem callables_perm (v : Value) :
    v.callables.Perm (v.outerCallables ++ v.bodies.flatMap callables) := by
  induction v using partInduction with
  | list items each =>
    rw [callables_list, outerCallables_list, bodies_list, List.flatMap_assoc]
    exact (List.Perm.flatMap_left items each).trans (List.flatMap_append_perm items _ _).symm
  | function tag params body scope =>
    simp [outerCallables, bodies, body?]
  | expander tag params body =>
    simp [outerCallables, bodies, body?]
  | _ => exact .refl _

theorem mem_outerPrimitives_iff {v : Value} {p : Primitive} :
    p ∈ v.outerPrimitives ↔ .primitive p ∈ v.outerCallables := by
  rw [outerPrimitives, List.mem_filterMap]
  constructor
  · rintro ⟨w, outer, same⟩
    cases w with
    | primitive q =>
      cases same
      exact outer
    | _ => cases same
  · exact fun outer => ⟨_, outer, rfl⟩

/-- If nothing can be called in the bodies, a primitive can only stand outside of them. -/
theorem mem_outerPrimitives_iff_of_bodies {v : Value}
    (plain : ∀ body ∈ v.bodies, body.callables = []) {p : Primitive} :
    p ∈ v.outerPrimitives ↔ .primitive p ∈ v.callables := by
  rw [mem_outerPrimitives_iff, v.callables_perm.mem_iff, List.flatMap_eq_nil_iff.mpr plain,
    List.append_nil]

/-! ### The code -/

theorem callables_paramList (params : List String) : (paramList params).callables = [] := by
  rw [paramList, callables_list, List.flatMap_eq_nil_iff]
  intro v member
  obtain ⟨name, -, rfl⟩ := List.mem_map.mp member
  rfl

/-- A form of a head, parameters and a body holds what the body holds. -/
theorem callables_signatureForm (head : String) (params : List String) (body : Value) :
    (Value.list [.symbol head, paramList params, body]).callables = body.callables := by
  have headless : (Value.symbol head).callables = [] := rfl
  simp [headless, callables_paramList]

/-- A value has no code because of the first primitive outside of bodies. -/
theorem toCodeItems_eq_error_iff {items : List Value} {p : Primitive}
    (each : ∀ v ∈ items, ∀ p, v.toCode = .error p ↔ v.outerPrimitives.head? = some p) :
    toCodeItems items = .error p ↔ (items.flatMap outerPrimitives).head? = some p := by
  induction items with
  | nil => simp [toCodeItems]
  | cons v vs ih =>
    obtain ⟨first, others⟩ := List.forall_mem_cons.mp each
    rw [toCodeItems, List.flatMap_cons, List.head?_append]
    cases embedded : v.toCode with
    | error q =>
      rw [(first q).mp embedded]
      simp [bind, Except.bind]
    | ok code =>
      have none : v.outerPrimitives.head? = none := by
        refine Option.eq_none_iff_forall_ne_some.mpr fun q here => ?_
        rw [(first q).mpr here] at embedded
        cases embedded
      rw [none, Option.none_or, ← ih others]
      cases toCodeItems vs <;> simp [bind, Except.bind, pure, Except.pure]

theorem toCode_eq_error_iff {v : Value} {p : Primitive} :
    v.toCode = .error p ↔ v.outerPrimitives.head? = some p := by
  induction v using partInduction generalizing p with
  | list items each =>
    rw [outerPrimitives_list, ← toCodeItems_eq_error_iff fun v member p => each v member, toCode]
    cases toCodeItems items <;> simp [Except.map]
  | primitive q => simp [toCode, outerPrimitives, outerCallables, primitive?]
  | _ => simp [toCode, outerPrimitives, outerCallables, primitive?]

theorem toCodeItems_cons_eq_ok {v : Value} {vs codes : List Value}
    (embedded : toCodeItems (v :: vs) = .ok codes) :
    ∃ code rest, v.toCode = .ok code ∧ toCodeItems vs = .ok rest ∧ codes = code :: rest := by
  rw [toCodeItems] at embedded
  cases here : v.toCode with
  | error p =>
    rw [here] at embedded
    cases embedded
  | ok code =>
    cases later : toCodeItems vs with
    | error p =>
      rw [here, later] at embedded
      cases embedded
    | ok rest =>
      rw [here, later] at embedded
      cases embedded
      exact ⟨code, rest, rfl, rfl, rfl⟩

theorem toCode_list_eq_ok {items : List Value} {code : Value}
    (embedded : (Value.list items).toCode = .ok code) :
    ∃ codes, toCodeItems items = .ok codes ∧ code = .list codes := by
  rw [toCode] at embedded
  cases inner : toCodeItems items with
  | error p =>
    rw [inner] at embedded
    cases embedded
  | ok codes =>
    rw [inner] at embedded
    cases embedded
    exact ⟨codes, rfl, rfl⟩

theorem callables_of_toCodeItems {items codes : List Value}
    (each : ∀ v ∈ items, ∀ code, v.toCode = .ok code →
      code.callables = v.bodies.flatMap callables)
    (embedded : toCodeItems items = .ok codes) :
    codes.flatMap callables = (items.flatMap bodies).flatMap callables := by
  induction items generalizing codes with
  | nil =>
    cases embedded
    rfl
  | cons v vs ih =>
    obtain ⟨first, others⟩ := List.forall_mem_cons.mp each
    obtain ⟨code, rest, here, later, rfl⟩ := toCodeItems_cons_eq_ok embedded
    rw [List.flatMap_cons, List.flatMap_cons, List.flatMap_append, first code here,
      ih others later]

/-- What can be called in the code of a value is what can be called in the bodies. -/
theorem callables_of_toCode {v code : Value} (embedded : v.toCode = .ok code) :
    code.callables = v.bodies.flatMap callables := by
  induction v using partInduction generalizing code with
  | list items each =>
    obtain ⟨codes, inner, rfl⟩ := toCode_list_eq_ok embedded
    rw [callables_list, bodies_list]
    exact callables_of_toCodeItems (fun v member code => each v member) inner
  | function | expander =>
    cases embedded
    rw [callables_signatureForm]
    exact (List.append_nil _).symm
  | primitive => cases embedded
  | _ =>
    cases embedded
    rfl

theorem toCodeItems_eq_self {items : List Value} (each : ∀ v ∈ items, v.toCode = .ok v) :
    toCodeItems items = .ok items := by
  induction items with
  | nil => rfl
  | cons v vs ih =>
    obtain ⟨first, others⟩ := List.forall_mem_cons.mp each
    rw [toCodeItems, first, ih others]
    rfl

/-- Exactly the values in which nothing can be called are their own code. -/
theorem toCode_eq_self_iff {v : Value} : v.toCode = .ok v ↔ v.callables = [] := by
  constructor
  · intro embedded
    -- The bodies hold as many as the whole value, so there are none outside of them.
    have counted := v.callables_perm.length_eq
    rw [List.length_append, ← callables_of_toCode embedded] at counted
    have none : v.outerCallables = [] := List.eq_nil_of_length_eq_zero (by omega)
    rw [callables_of_toCode embedded, bodies, none]
    rfl
  · intro plain
    induction v using partInduction with
    | list items each =>
      rw [callables_list, List.flatMap_eq_nil_iff] at plain
      rw [toCode, toCodeItems_eq_self fun v member => each v member (plain v member)]
      rfl
    | function | expander | primitive => cases plain
    | _ => rfl

theorem quotation_eq_ok_iff {v code : Value} : v.quotation = .ok code ↔ v.toCode = .ok code := by
  rw [quotation]
  cases v.toCode <;> simp [Except.mapError]

theorem quotation_eq_error_iff {v : Value} {e : Error} :
    v.quotation = .error e ↔ ∃ p, v.toCode = .error p ∧ e = .wrongKind (.noCode p) := by
  rw [quotation]
  cases v.toCode <;> simp [Except.mapError, eq_comm]

/-! ### Source text -/

theorem sourceItems?_symbols (names : List String) :
    sourceItems? (names.map symbol) = some names := by
  induction names with
  | nil => rfl
  | cons name names ih =>
    rw [List.map_cons, sourceItems?, ih]
    rfl

theorem source?_paramList (params : List String) :
    (paramList params).source? = some ("(" ++ " ".intercalate params ++ ")") := by
  rw [paramList, source?, sourceItems?_symbols, Option.map_some]

/-- A form of a head, parameters and a body is written as what it stands for. -/
theorem source?_signatureForm (head : String) (params : List String) (body : Value) :
    (Value.list [.symbol head, paramList params, body]).source? =
      body.source?.map (signature head params) := by
  rw [source?, sourceItems?, sourceItems?, sourceItems?, sourceItems?, source?_paramList]
  cases body.source? with
  | none => rfl
  | some text =>
    apply congrArg some
    apply String.toList_inj.mp
    simp [signature, String.intercalate_cons_of_ne_nil]

theorem sourceItems?_of_toCodeItems {items codes : List Value}
    (each : ∀ v ∈ items, ∀ code, v.toCode = .ok code → code.source? = v.source?)
    (embedded : toCodeItems items = .ok codes) : sourceItems? codes = sourceItems? items := by
  induction items generalizing codes with
  | nil =>
    cases embedded
    rfl
  | cons v vs ih =>
    obtain ⟨first, others⟩ := List.forall_mem_cons.mp each
    obtain ⟨code, rest, here, later, rfl⟩ := toCodeItems_cons_eq_ok embedded
    rw [sourceItems?, sourceItems?, first code here, ih others later]

/-- A value and its code have the same source text. -/
theorem source?_of_toCode {v code : Value} (embedded : v.toCode = .ok code) :
    code.source? = v.source? := by
  induction v using partInduction generalizing code with
  | list items each =>
    obtain ⟨codes, inner, rfl⟩ := toCode_list_eq_ok embedded
    rw [source?, source?, sourceItems?_of_toCodeItems (fun v member code => each v member) inner]
  | function | expander =>
    cases embedded
    exact source?_signatureForm _ _ _
  | primitive => cases embedded
  | _ =>
    cases embedded
    rfl

theorem source?_eq_none_iff (v : Value) :
    v.source? = none ↔ ∃ n ∈ v.integers, 10 ^ Numeral.digitLimit ≤ n.natAbs := by
  rw [← Option.not_isSome_iff_eq_none, source?_isSome_iff, IsWritable]
  simp only [not_forall, not_lt, exists_prop]

end Value

/-! ### What hosts are given -/

/-- A value has no code exactly if a primitive stands in it outside of bodies, and the first such
primitive is blamed. Otherwise what can be called in the code is what can be called in the bodies
of the functions and expanders in the value, and the code is its own code exactly if that is
nothing. So if nothing can be called in the bodies, then a primitive anywhere in the value is
refused, and the code of any other value is plain data. -/
theorem code_holds_what_bodies_hold (v : Value) :
    (∀ e, v.quotation = .error e ↔
      ∃ p, v.outerPrimitives.head? = some p ∧ e = .wrongKind (.noCode p)) ∧
    (∀ code, v.quotation = .ok code →
      code.callables = v.bodies.flatMap Value.callables ∧
      (code.quotation = .ok code ↔ code.callables = [])) ∧
    ((∀ body ∈ v.bodies, body.callables = []) →
      ((∃ e, v.quotation = .error e) ↔ ∃ p, .primitive p ∈ v.callables) ∧
      ∀ code, v.quotation = .ok code → code.callables = [] ∧ code.quotation = .ok code) := by
  have refused (e : Error) : v.quotation = .error e ↔
      ∃ p, v.outerPrimitives.head? = some p ∧ e = .wrongKind (.noCode p) := by
    simp only [Value.quotation_eq_error_iff, Value.toCode_eq_error_iff]
  have held (code : Value) (embedded : v.quotation = .ok code) :
      code.callables = v.bodies.flatMap Value.callables :=
    Value.callables_of_toCode (Value.quotation_eq_ok_iff.mp embedded)
  have own (code : Value) : code.quotation = .ok code ↔ code.callables = [] :=
    Value.quotation_eq_ok_iff.trans Value.toCode_eq_self_iff
  refine ⟨refused, fun code embedded => ⟨held code embedded, own code⟩, fun plain => ⟨?_, ?_⟩⟩
  · simp only [refused, ← Value.mem_outerPrimitives_iff_of_bodies plain]
    constructor
    · rintro ⟨-, p, first, -⟩
      exact ⟨p, List.mem_of_head? first⟩
    · rintro ⟨p, member⟩
      obtain ⟨first, rest, shape⟩ := List.exists_cons_of_ne_nil (List.ne_nil_of_mem member)
      exact ⟨_, first, by rw [shape, List.head?_cons], rfl⟩
  · intro code embedded
    have empty : code.callables = [] := by
      rw [held code embedded, List.flatMap_eq_nil_iff.mpr plain]
    exact ⟨empty, (own code).mpr empty⟩

/-- A list of `(fn (x) (+ x 1))`, `(macro () nil)` and a builtin. -/
def callableItems : List Value :=
  [.function 0 ["x"] (.list [.symbol "+", .symbol "x", .int 1]) 0, .expander 1 [] .nil,
    .primitive (.builtin .add)]

/-- A function and an expander with plain bodies become plain data. With a builtin behind them, the
list is refused. -/
theorem plain_bodies_become_plain_code :
    (∃ code, (Value.list (callableItems.take 2)).quotation = .ok code ∧ code.callables = [] ∧
      code.quotation = .ok code) ∧
    ∃ e, (Value.list callableItems).quotation = .error e := by
  obtain ⟨-, -, plain⟩ := code_holds_what_bodies_hold (.list (callableItems.take 2))
  obtain ⟨-, -, plain'⟩ := code_holds_what_bodies_hold (.list callableItems)
  have builtin : .primitive (.builtin .add) ∈ (Value.list callableItems).callables :=
    List.mem_cons_of_mem _ (List.mem_cons_of_mem _ List.mem_cons_self)
  exact ⟨⟨_, rfl, (plain (by decide)).2 _ rfl⟩, (plain' (by decide)).1.mpr ⟨_, builtin⟩⟩

/-- A builtin as the body of a function is put into the code, which is refused itself. -/
theorem builtin_in_a_body_becomes_code :
    (Value.function 0 ["x"] (.primitive (.builtin .add)) 0).quotation =
      .ok (.list [.symbol "fn", .list [.symbol "x"], .primitive (.builtin .add)]) ∧
    .primitive (.builtin .add) ∈
      (Value.function 0 ["x"] (.primitive (.builtin .add)) 0).callables ∧
    (Value.list [.symbol "fn", .list [.symbol "x"], .primitive (.builtin .add)]).callables =
      [.primitive (.builtin .add)] ∧
    (Value.list [.symbol "fn", .list [.symbol "x"], .primitive (.builtin .add)]).quotation =
      .error (.wrongKind (.noCode (.builtin .add))) :=
  ⟨rfl, List.mem_cons_of_mem _ List.mem_cons_self, rfl, rfl⟩

/-- A value that has code is written like its code. Neither can be written exactly if an integer in
the value is too long, however deep it stands in lists and bodies. -/
theorem code_is_written_like_its_value {v code : Value} (embedded : v.quotation = .ok code) :
    code.source? = v.source? ∧
    (v.source? = none ↔ ∃ n ∈ v.integers, 10 ^ Numeral.digitLimit ≤ n.natAbs) :=
  ⟨Value.source?_of_toCode (Value.quotation_eq_ok_iff.mp embedded), Value.source?_eq_none_iff v⟩

/-- A function whose body holds an expander and a text, and one whose body is too long to be
written. -/
theorem bodies_are_written_in_code :
    (∃ code, (Value.function 0 ["x", "x"]
        (.list [.expander 1 [] (.primitive (.builtin .add)), .text "a"]) 0).quotation = .ok code ∧
      code.source? = some "(fn (x x) ((macro () #<builtin add>) 'a'))") ∧
    ∃ code, (Value.function 0 [] (.int (10 ^ Numeral.digitLimit : Nat)) 0).quotation = .ok code ∧
      code.source? = none := by
  have nested := code_is_written_like_its_value (v := .function 0 ["x", "x"]
    (.list [.expander 1 [] (.primitive (.builtin .add)), .text "a"]) 0) rfl
  have long := code_is_written_like_its_value
    (v := .function 0 [] (.int (10 ^ Numeral.digitLimit : Nat)) 0) rfl
  refine ⟨⟨_, rfl, nested.1.trans rfl⟩, _, rfl, long.1.trans (long.2.mpr ?_)⟩
  exact ⟨_, List.mem_cons_self, (Int.natAbs_natCast _).ge⟩

end ContextLisp
