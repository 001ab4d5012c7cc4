/-
# One order behind the comparisons

Two values may stand in order or not, and all comparisons but equality ask the same question
of them. The order is partial: numbers compare with numbers, texts with texts and lists with
lists, and whether two lists compare depends on their first unequal items only. Equal items are
passed over even if they could not be ordered themselves.

`Stands` gives the order by rules. Each law is proved along these rules. That the order is
transitive takes three facts about equality: it is an equivalence, equal values stand alike to
any third one, and values that stand in order are equal exactly if neither comes first.

That equality is an equivalence is also why a chain of it, which is tested between neighbours,
holds between any two arguments, in whatever order they come.
-/

import ContextLisp.Builtin
import ContextLisp.Proofs.Retagging
import Mathlib.Data.List.Chain
import Mathlib.Data.List.Pairwise

namespace ContextLisp

namespace Value

/-! ### Equality -/

mutual

/-- What equality looks at: booleans count as numbers, and of functions and expanders only
the tag matters. -/
def core : Value → Value
  | .bool b => .int (if b then 1 else 0)
  | .list items => .list (coreItems items)
  | .function tag _ _ _ => .function tag [] .nil 0
  | .expander tag _ _ => .expander tag [] .nil
  | v => v

/-- What equality looks at in several values. -/
def coreItems : List Value → List Value
  | [] => []
  | v :: vs => v.core :: coreItems vs

end

variable {a b c : Value} {m n : Int} {o : Ordering}

theorem same_iff_core : a.same b = true ↔ a.core = b.core := by
  induction a using partInduction generalizing b with
  | list items each =>
    have itemwise (others : List Value) :
        sameItems items others = true ↔ coreItems items = coreItems others := by
      induction items generalizing others with
      | nil => cases others <;> simp [sameItems, coreItems]
      | cons v vs ih =>
        cases others with
        | nil => simp [sameItems, coreItems]
        | cons w ws =>
          simp [sameItems, coreItems, each v List.mem_cons_self,
            ih fun u member => each u (List.mem_cons_of_mem v member)]
    cases b <;> simp [same, core, number?, itemwise]
  | _ => cases b <;> simp [same, core, number?]

theorem same_refl (a : Value) : a.same a = true :=
  same_iff_core.mpr rfl

theorem same_comm (a b : Value) : a.same b = b.same a := by
  rw [Bool.eq_iff_iff, same_iff_core, same_iff_core, eq_comm]

/-- Equal values are equal to the same values. -/
theorem same_congr (equal : a.same b = true) (c : Value) : a.same c = b.same c := by
  rw [Bool.eq_iff_iff, same_iff_core, same_iff_core, same_iff_core.mp equal]

theorem same_of_numbers (left : a.number? = some m) (right : b.number? = some n) :
    a.same b = (m == n) := by
  cases a <;> cases left <;> cases b <;> cases right <;> rfl

theorem number?_of_same (equal : a.same b = true) (number : a.number? = some n) :
    b.number? = some n := by
  cases a <;> cases number <;> cases b <;> simp_all [same, number?]

theorem eq_text_of_same {s : String} (equal : (text s).same b = true) : b = .text s := by
  cases b <;> simp_all [same, number?]

theorem eq_empty_of_same (equal : (list []).same b = true) : b = .list [] := by
  cases b with
  | list items => cases items <;> simp_all [same, sameItems]
  | _ => simp [same, number?] at equal

theorem eq_cons_of_same {as : List Value} (equal : (list (a :: as)).same b = true) :
    ∃ v vs, b = .list (v :: vs) ∧ a.same v = true ∧ (list as).same (list vs) = true := by
  cases b with
  | list items =>
    cases items with
    | nil => cases equal
    | cons v vs => exact ⟨v, vs, rfl, Bool.and_eq_true_iff.mp equal⟩
  | _ => simp [same, number?] at equal

/-! ### How two values stand -/

/-- How two values stand in order. -/
inductive Stands : Value → Value → Ordering → Prop
  | numbers {a b : Value} {m n : Int} {o : Ordering} (left : a.number? = some m)
      (right : b.number? = some n) (order : compare m n = o) : Stands a b o
  | texts {s t : String} {o : Ordering} (order : compare s t = o) : Stands (.text s) (.text t) o
  | ends : Stands (.list []) (.list []) .eq
  | shorter {b : Value} {bs : List Value} : Stands (.list []) (.list (b :: bs)) .lt
  | longer {a : Value} {as : List Value} : Stands (.list (a :: as)) (.list []) .gt
  | alike {a b : Value} {as bs : List Value} {o : Ordering} (heads : a.same b = true)
      (tails : Stands (.list as) (.list bs) o) : Stands (.list (a :: as)) (.list (b :: bs)) o
  | unlike {a b : Value} {as bs : List Value} {o : Ordering} (heads : a.same b = false)
      (stands : Stands a b o) : Stands (.list (a :: as)) (.list (b :: bs)) o

mutual

theorem stands_of_order? (a b : Value) {o : Ordering} (ordered : a.order? b = some o) :
    Stands a b o := by
  rw [order?.eq_def] at ordered
  split at ordered
  · exact .texts (Option.some.inj ordered)
  · exact stands_of_orderItems? _ _ ordered
  · split at ordered
    · exact .numbers ‹_› ‹_› (Option.some.inj ordered)
    · cases ordered
termination_by sizeOf a

theorem stands_of_orderItems? (as bs : List Value) {o : Ordering}
    (ordered : orderItems? as bs = some o) : Stands (.list as) (.list bs) o := by
  rw [orderItems?.eq_def] at ordered
  split at ordered
  · cases ordered
    exact .ends
  · cases ordered
    exact .shorter
  · cases ordered
    exact .longer
  · split at ordered
    · exact .alike ‹_› (stands_of_orderItems? _ _ ordered)
    · exact .unlike (Bool.eq_false_iff.mpr ‹_›) (stands_of_order? _ _ ordered)
termination_by sizeOf as

end

theorem order?_of_numbers (left : a.number? = some m) (right : b.number? = some n) :
    a.order? b = some (compare m n) := by
  cases a <;> cases left <;> cases b <;> cases right <;> rfl

theorem order?_eq_some_iff : a.order? b = some o ↔ Stands a b o := by
  refine ⟨stands_of_order? a b, fun stands => ?_⟩
  induction stands with
  | numbers left right order => rw [order?_of_numbers left right, order]
  | texts order => rw [order?, order]
  | ends | shorter | longer => rfl
  | alike heads _ ih => simpa only [order?, orderItems?, heads, if_true] using ih
  | unlike heads _ ih => simpa [order?, orderItems?, heads] using ih

namespace Stands

/-- The order of two values does not depend on which is asked about first. -/
theorem swap (stands : Stands a b o) : Stands b a o.swap := by
  induction stands with
  | numbers left right order =>
    exact .numbers right left (by rw [← order]; exact Std.OrientedCmp.eq_swap)
  | texts order => exact .texts (by rw [← order]; exact Std.OrientedCmp.eq_swap)
  | ends => exact .ends
  | shorter => exact .longer
  | longer => exact .shorter
  | alike heads _ ih => exact .alike (by rwa [same_comm]) ih
  | unlike heads _ ih => exact .unlike (by rwa [same_comm]) ih

/-- Values that stand in order are equal exactly if neither comes first. -/
theorem eq_iff_same (stands : Stands a b o) : o = .eq ↔ a.same b = true := by
  induction stands with
  | numbers left right order => simp [same_of_numbers left right, ← order]
  | texts order => simp [same, ← order]
  | ends | shorter | longer => simp [same, sameItems]
  | alike heads _ ih => simpa [same, sameItems, heads] using ih
  | unlike heads _ ih => simpa [same, sameItems, heads] using ih

/-- Equal values stand alike to a third one. -/
theorem congr (stands : Stands a c o) (equal : a.same b = true) : Stands b c o := by
  -- A value that equals the left one is of its kind, so the same rule applies to it.
  induction stands generalizing b with
  | numbers left right order => exact .numbers (number?_of_same equal left) right order
  | texts order =>
    obtain rfl := eq_text_of_same equal
    exact .texts order
  | ends =>
    obtain rfl := eq_empty_of_same equal
    exact .ends
  | shorter =>
    obtain rfl := eq_empty_of_same equal
    exact .shorter
  | longer =>
    obtain ⟨v, vs, rfl, -, -⟩ := eq_cons_of_same equal
    exact .longer
  | alike heads _ ih =>
    obtain ⟨v, vs, rfl, first, rest⟩ := eq_cons_of_same equal
    exact .alike (by rw [← same_congr first, heads]) (ih rest)
  | unlike heads _ ih =>
    obtain ⟨v, vs, rfl, first, -⟩ := eq_cons_of_same equal
    exact .unlike (by rw [← same_congr first, heads]) (ih first)

theorem congr_right (stands : Stands a b o) (equal : b.same c = true) : Stands a c o := by
  simpa using (stands.swap.congr equal).swap

/-- What comes first comes before all that comes later. -/
theorem trans (first : Stands a b o) (second : Stands b c o) (less : o = .lt) :
    Stands a c o := by
  -- By the rules for the first pair. Those for the second that do not fit expect another kind of
  -- value in the middle.
  induction first generalizing c with
  | numbers left right order =>
    cases second with
    | numbers left' right' order' =>
      obtain rfl := Option.some.inj (right.symm.trans left')
      subst less
      exact .numbers left right' (Std.TransCmp.lt_trans order order')
    | _ => cases right
  | texts order =>
    cases second with
    | numbers left' => cases left'
    | texts order' =>
      subst less
      exact .texts (Std.TransCmp.lt_trans order order')
  | ends | longer => cases less
  | shorter =>
    cases second with
    | numbers left' => cases left'
    | alike | unlike => exact .shorter
  | alike heads tails ih =>
    cases second with
    | numbers left' => cases left'
    | longer => cases less
    | alike heads' tails' =>
      exact .alike (by rw [same_congr heads, heads']) (ih tails' less)
    | unlike heads' stands' =>
      exact .unlike (by rw [same_congr heads, heads']) (stands'.congr (by rwa [same_comm]))
  | @unlike a b as bs o heads stands ih =>
    cases second with
    | numbers left' => cases left'
    | longer => cases less
    | @alike _ c _ cs _ heads' tails' =>
      have apart : a.same c = false := by
        rw [same_comm, ← same_congr heads', same_comm, heads]
      exact .unlike apart (stands.congr_right heads')
    | @unlike _ c _ cs _ heads' stands' =>
      have less' := ih stands' less
      have apart : a.same c = false :=
        Bool.eq_false_iff.mpr (less'.eq_iff_same.not.mp (by simp [less]))
      exact .unlike apart less'

end Stands

end Value

/-! ### Comparisons of two values -/

namespace Comparison

variable {r : Comparison} {a b c : Value} {o : Ordering}

/-- A comparison of two values is true. -/
def Holds (r : Comparison) (a b : Value) : Prop :=
  Builtin.run (.compare r) [a, b] = .ok (.bool true)

/-- A comparison of two values gives an error. -/
def Raises (r : Comparison) (a b : Value) : Prop :=
  ∃ e, Builtin.run (.compare r) [a, b] = .error e

theorem chain?_pair (r : Comparison) (a b : Value) : r.chain? [a, b] = r.holds? a b := by
  rw [chain?]
  split
  · simp [chain?, *]
  · rfl

theorem run_pair (r : Comparison) (a b : Value) :
    Builtin.run (.compare r) [a, b] = match r.holds? a b with
      | some answer => .ok (.bool answer)
      | none => Error.fail (.wrongKind (.incomparable r.name [a, b])) := by
  simp only [Builtin.run, Builtin.compareAll, chain?_pair]
  rfl

theorem holds_iff : r.Holds a b ↔ r.holds? a b = some true := by
  rw [Holds, run_pair]
  cases r.holds? a b <;> simp [Error.fail]

theorem raises_iff : r.Raises a b ↔ r.holds? a b = none := by
  rw [Raises, run_pair]
  cases r.holds? a b <;> simp [Error.fail]

/-- Between values that stand in order, any comparison looks at nothing but how they stand. -/
theorem holds_iff_accepts (stands : a.Stands b o) : r.Holds a b ↔ r.accepts o = true := by
  rw [holds_iff]
  cases r with
  | eq => simp [holds?, accepts, ← stands.eq_iff_same]
  | _ => simp [holds?, Value.order?_eq_some_iff.mpr stands]

/-- Any comparison but equality asks for an order. -/
theorem raises_iff_forall_not_stands (ordering : r ≠ .eq) :
    r.Raises a b ↔ ∀ o, ¬ a.Stands b o := by
  have asks : r.holds? a b = (a.order? b).map r.accepts := by
    cases r with
    | eq => exact absurd rfl ordering
    | _ => rfl
  rw [raises_iff, asks, Option.map_eq_none_iff, Option.eq_none_iff_forall_ne_some]
  exact forall_congr' fun o => Value.order?_eq_some_iff.not

theorem not_raises_eq (a b : Value) : ¬ eq.Raises a b := by
  simp [raises_iff, holds?]

theorem raises_comm (ordering : r ≠ .eq) : r.Raises a b ↔ r.Raises b a := by
  rw [raises_iff_forall_not_stands ordering, raises_iff_forall_not_stands ordering]
  exact ⟨fun unordered o stands => unordered o.swap stands.swap,
    fun unordered o stands => unordered o.swap stands.swap⟩

/-- A comparison that is neither an error nor true is false. -/
theorem raises_or_answers (r : Comparison) (a b : Value) :
    r.Raises a b ∨ ∃ answer, Builtin.run (.compare r) [a, b] = .ok (.bool answer) := by
  rw [raises_iff, run_pair]
  cases r.holds? a b <;> simp

/-- Less, equal and greater tell the ways in which two values can stand apart. -/
theorem existsUnique_accepts (o : Ordering) :
    ∃! r, r ∈ [lt, eq, gt] ∧ r.accepts o = true := by
  cases o with
  | lt => exact ⟨lt, by decide, fun r both => by cases r <;> simp_all [accepts]⟩
  | eq => exact ⟨eq, by decide, fun r both => by cases r <;> simp_all [accepts]⟩
  | gt => exact ⟨gt, by decide, fun r both => by cases r <;> simp_all [accepts]⟩

theorem lt_holds_iff : lt.Holds a b ↔ a.Stands b .lt := by
  rw [holds_iff, ← Value.order?_eq_some_iff]
  show (a.order? b).map lt.accepts = some true ↔ _
  rcases a.order? b with _ | _ | _ | _ <;> simp [accepts]

instance : Trans lt.Holds lt.Holds lt.Holds where
  trans first second :=
    lt_holds_iff.mpr ((lt_holds_iff.mp first).trans (lt_holds_iff.mp second) rfl)

/-! ### Comparisons of many values -/

theorem chain?_eq_true_iff (r : Comparison) (args : List Value) :
    r.chain? args = some true ↔ args.IsChain r.Holds := by
  fun_induction r.chain? args with
  | case1 a b rest pass ih => rw [ih, List.isChain_cons_cons, holds_iff, and_iff_right pass]
  | case2 a b rest fails =>
    rw [List.isChain_cons_cons, holds_iff]
    exact ⟨fun pass => absurd pass fails, fun chain => chain.1⟩
  | case3 args short =>
    rcases args with _ | ⟨a, _ | ⟨b, rest⟩⟩
    · simp
    · simp
    · exact absurd rfl (short a b rest)

theorem run_eq_true_iff {args : List Value} (nonempty : args ≠ []) :
    Builtin.run (.compare r) args = .ok (.bool true) ↔ args.IsChain r.Holds := by
  rw [← chain?_eq_true_iff, Builtin.run, Builtin.compareAll, if_neg (by simpa using nonempty)]
  cases r.chain? args <;> simp [Error.fail]

/-- A comparison called by its name does what the builtin of that name does. -/
theorem compareByName_name (r : Comparison) (args : List Value) :
    Builtin.compareByName r.name args = Builtin.run (.compare r) args := by
  have known : ofName? r.name = some r := by cases r <;> decide
  simp only [Builtin.compareByName, known, Builtin.run]
  split
  · rw [Builtin.compareAll, if_pos ‹_›]
  · rfl

/-- A comparison of two values answers or gives an error. Equality always answers; the others
give errors for the same values, in either order. Where they answer, exactly one of less, equal
and greater is true, and all comparisons follow from less and equal. Less is transitive, so
that a chain of it that is true is true between any two of its arguments and not only between
neighbours. -/
theorem comparisons_share_one_order (a b c : Value) :
    (∀ r : Comparison, r.Raises a b ∨
      ∃ answer, Builtin.run (.compare r) [a, b] = .ok (.bool answer)) ∧
    ¬ eq.Raises a b ∧
    (∀ r : Comparison, r ≠ .eq →
      (r.Raises a b ↔ lt.Raises a b) ∧ (r.Raises a b ↔ r.Raises b a)) ∧
    (¬ lt.Raises a b →
      (∃! r, r ∈ [lt, eq, gt] ∧ r.Holds a b) ∧
      (le.Holds a b ↔ lt.Holds a b ∨ eq.Holds a b) ∧
      (gt.Holds a b ↔ lt.Holds b a) ∧
      (ge.Holds a b ↔ le.Holds b a)) ∧
    (lt.Holds a b → lt.Holds b c → ¬ lt.Raises a c ∧ lt.Holds a c) ∧
    ∀ args ≠ [],
      (Builtin.compareByName "<" args = .ok (.bool true) ↔ args.Pairwise lt.Holds) := by
  refine ⟨fun r => raises_or_answers r a b, not_raises_eq a b,
    fun r ordering => ⟨?_, raises_comm ordering⟩, fun answers => ?_, fun first second => ?_,
    fun args nonempty => ?_⟩
  · rw [raises_iff_forall_not_stands ordering, raises_iff_forall_not_stands (by decide)]
  · rw [raises_iff_forall_not_stands (by decide)] at answers
    obtain ⟨o, stands⟩ := not_forall_not.mp answers
    simp only [holds_iff_accepts stands, holds_iff_accepts stands.swap]
    exact ⟨existsUnique_accepts o, by cases o <;> decide, by cases o <;> decide,
      by cases o <;> decide⟩
  · have less : lt.Holds a c := Trans.trans first second
    refine ⟨?_, less⟩
    rintro ⟨e, raised⟩
    rw [less] at raised
    cases raised
  · rw [show "<" = lt.name from rfl, compareByName_name, run_eq_true_iff nonempty,
      List.isChain_iff_pairwise]

/-- Three lists in order. The first begins the second, up to `true` in place of one and with
an item that has no order itself; the third differs from both in its first item. -/
theorem mixed_lists_stand_in_order :
    lt.Holds (.list [.bool true, .nil]) (.list [.int 1, .nil, .symbol "x"]) ∧
    lt.Holds (.list [.int 1, .nil, .symbol "x"]) (.list [.int 2, .keyword "k"]) ∧
    lt.Holds (.list [.bool true, .nil]) (.list [.int 2, .keyword "k"]) ∧
    gt.Holds (.list [.int 1, .nil, .symbol "x"]) (.list [.bool true, .nil]) := by
  have first : lt.Holds (.list [.bool true, .nil]) (.list [.int 1, .nil, .symbol "x"]) := rfl
  have second : lt.Holds (.list [.int 1, .nil, .symbol "x"]) (.list [.int 2, .keyword "k"]) := rfl
  have laws := comparisons_share_one_order (.list [.bool true, .nil])
    (.list [.int 1, .nil, .symbol "x"]) (.list [.int 2, .keyword "k"])
  have back := comparisons_share_one_order (.list [.int 1, .nil, .symbol "x"])
    (.list [.bool true, .nil]) .nil
  have answers : ¬ lt.Raises (.list [.int 1, .nil, .symbol "x"]) (.list [.bool true, .nil]) := by
    rintro ⟨e, raised⟩
    cases raised
  exact ⟨first, second, (laws.2.2.2.2.1 first second).2,
    (back.2.2.2.1 answers).2.2.1.mpr first⟩

/-! ### Chains of equality -/

variable {args : List Value}

theorem eq_holds_iff : eq.Holds a b ↔ a.same b = true := by
  rw [holds_iff, holds?, Option.some.injEq]

instance : Trans eq.Holds eq.Holds eq.Holds where
  trans first second := by
    rw [eq_holds_iff] at first second ⊢
    rw [Value.same_congr first, second]

instance : Std.Symm eq.Holds where
  symm a b equal := by
    rw [eq_holds_iff] at equal ⊢
    rw [Value.same_comm, equal]

/-- Where all neighbours are equal, any two values are. -/
theorem isChain_eq_iff : args.IsChain eq.Holds ↔ ∀ a ∈ args, ∀ b ∈ args, a.same b = true := by
  simp only [← eq_holds_iff]
  rw [List.isChain_iff_pairwise]
  constructor
  · exact fun pairs => pairs.forall_of_forall fun a _ => eq_holds_iff.mpr a.same_refl
  · exact List.pairwise_of_forall_mem_list

theorem exists_run_eq (nonempty : args ≠ []) :
    ∃ answer, Builtin.run (.compare eq) args = .ok (.bool answer) := by
  have answers : ∃ answer, eq.chain? args = some answer := by
    fun_induction eq.chain? args with
    | case1 a b rest _ ih => exact ih (List.cons_ne_nil b rest)
    | case2 a b rest => exact ⟨a.same b, rfl⟩
    | case3 => exact ⟨true, rfl⟩
  obtain ⟨answer, chain⟩ := answers
  exact ⟨answer, by rw [Builtin.run, Builtin.compareAll, if_neg (by simpa using nonempty), chain]⟩

theorem forall_same_iff_core :
    (∀ a ∈ args, ∀ b ∈ args, a.same b = true) ↔ ∃ core, ∀ a ∈ args, a.core = core := by
  simp only [Value.same_iff_core]
  constructor
  · intro equal
    cases args with
    | nil => exact ⟨.nil, nofun⟩
    | cons first rest => exact ⟨first.core, fun a member => equal a member first (by simp)⟩
  · rintro ⟨core, shared⟩ a memberA b memberB
    rw [shared a memberA, shared b memberB]

/-- Equality of any number of arguments, at least one, always answers. The answer is yes exactly
if any two of them are equal, neighbours or not, which is to say that equality sees the same in
all of them. So their order does not matter. -/
theorem equality_is_of_any_two (nonempty : args ≠ []) :
    ∃ answer, Builtin.compareByName "=" args = .ok (.bool answer) ∧
      (answer = true ↔ ∀ a ∈ args, ∀ b ∈ args, a.same b = true) ∧
      (answer = true ↔ ∃ core, ∀ a ∈ args, a.core = core) ∧
      ∀ others, args.Perm others → Builtin.compareByName "=" others = .ok (.bool answer) := by
  have answers {vs : List Value} (nonempty : vs ≠ []) :
      ∃ answer, Builtin.compareByName "=" vs = .ok (.bool answer) ∧
        (answer = true ↔ ∀ a ∈ vs, ∀ b ∈ vs, a.same b = true) := by
    rw [show "=" = eq.name from rfl, compareByName_name]
    obtain ⟨answer, ran⟩ := exists_run_eq nonempty
    refine ⟨answer, ran, ?_⟩
    rw [← isChain_eq_iff, ← run_eq_true_iff nonempty, ran]
    simp
  obtain ⟨answer, ran, iff⟩ := answers nonempty
  refine ⟨answer, ran, iff, iff.trans forall_same_iff_core, fun others perm => ?_⟩
  have nonempty' : others ≠ [] := by
    rintro rfl
    exact nonempty perm.eq_nil
  obtain ⟨answer', ran', iff'⟩ := answers nonempty'
  have same : answer' = answer := by
    rw [Bool.eq_iff_iff, iff, iff']
    simp only [perm.mem_iff]
  rw [ran', same]

/-- Two lists that are equal although one has `true` where the other has a one, and a third that
holds another function than these, made by the same form. -/
theorem equal_lists_hold_one_function :
    ∃ f g : Value, f.core ≠ g.core ∧
      Builtin.compareByName "=" [.list [.bool true, f], .list [.int 1, f]] = .ok (.bool true) ∧
      Builtin.compareByName "=" [.list [.int 1, f], .list [.bool true, f]] = .ok (.bool true) ∧
      Builtin.compareByName "=" [.list [.int 1, f], .list [.int 1, g], .list [.bool true, f]] =
        .ok (.bool false) := by
  have pair := equality_is_of_any_two
    (List.cons_ne_nil (Value.list [.bool true, .function 0 ["x"] .nil 0])
      [.list [.int 1, .function 0 ["x"] .nil 0]])
  have triple := equality_is_of_any_two
    (List.cons_ne_nil (Value.list [.bool true, .function 0 ["x"] .nil 0])
      [.list [.int 1, .function 0 ["x"] .nil 0], .list [.int 1, .function 1 ["x"] .nil 0]])
  obtain ⟨yes, answered, -, -, swapped⟩ := pair
  obtain ⟨no, refused, -, -, turned⟩ := triple
  obtain rfl : yes = true := by
    cases answered
    rfl
  obtain rfl : no = false := by
    cases refused
    rfl
  exact ⟨.function 0 ["x"] .nil 0, .function 1 ["x"] .nil 0, by simp [Value.core], answered,
    swapped _ (.swap _ _ _), turned _ ((List.Perm.swap _ _ _).trans ((List.Perm.swap _ _ _).cons _))⟩

end Comparison

end ContextLisp
