/-
# What one definition changes

Binding a name in a context leaves all parents as they are, so every search still looks
at the same contexts in the same order. What changes is where searches for that one name
stop, and only for those that come to the context at all and are not stopped before.

Being stopped before is a matter of the order and not of depth: with several parents, a
context far away can come before one that is near.
-/

import ContextLisp.Proofs.Search
import ContextLisp.Proofs.StoreFrame

namespace ContextLisp

namespace Store

variable {store : Store} {c : ContextId} {n m : String} {d k : ContextId}

/-- A search from `d` for a name comes to `c`: no context before it in search order binds
the name. -/
def ComesTo (store : Store) (d c : ContextId) (name : String) : Prop :=
  ∃ front back, store.searchOrder d = front ++ c :: back ∧
    ∀ k ∈ front, store.binds k name = false

/-! ### The search order stays -/

/-- What a search looks at depends on the parents only. -/
theorem walk_congr {before after : Store}
    (parents : ∀ k, after.parentsOf k = before.parentsOf k) (seen pending : List ContextId) :
    after.walk seen pending = before.walk seen pending := by
  fun_induction before.walk seen pending with
  | case1 => rw [walk]
  | case2 seen id rest again ih => rw [walk, if_pos again, ih]
  | case3 seen id rest fresh ih => rw [walk, if_neg fresh, parents, ih]

@[simp] theorem searchOrder_define (store : Store) (c d : ContextId) (n : String) (v : Value) :
    (store.define c n v).searchOrder d = store.searchOrder d :=
  walk_congr (fun k => store.parentsOf_define c k n v) [] [d]

theorem nodup_searchOrder (store : Store) (d : ContextId) : (store.searchOrder d).Nodup :=
  store.nodup_walk [] [d]

/-! ### What searches find -/

/-- A search finds a context that binds the name and that it comes to. -/
theorem find?_eq_some_iff (store : Store) (d c : ContextId) (name : String) :
    store.find? d name = some c ↔ store.binds c name = true ∧ store.ComesTo d c name := by
  simp [find?_eq_find?_searchOrder, List.find?_eq_some_iff_append, ComesTo]

/-- Where a search looks, it looks once, so a new binding in `c` has no part in whether the
search comes there. -/
theorem comesTo_define_iff (within : c < store.size) (d : ContextId) (n : String) (v : Value) :
    (store.define c n v).ComesTo d c n ↔ store.ComesTo d c n := by
  simp only [ComesTo, searchOrder_define]
  refine exists_congr fun front => exists_congr fun back => and_congr_right fun shape => ?_
  refine forall₂_congr fun k member => ?_
  have apart : k ≠ c := by
    rintro rfl
    have once := store.nodup_searchOrder d
    rw [shape] at once
    exact (List.nodup_append.mp once).2.2 k member k List.mem_cons_self rfl
  rw [binds_define_of_not within v fun both => apart both.1]

/-- Searches for other names find what they found. -/
theorem find?_define_of_ne (within : c < store.size) (d : ContextId) (v : Value)
    (other : m ≠ n) : (store.define c n v).find? d m = store.find? d m := by
  have same : ((store.define c n v).binds · m) = (store.binds · m) :=
    funext fun k => binds_define_of_not within v fun both => other both.2
  rw [find?_eq_find?_searchOrder, find?_eq_find?_searchOrder, searchOrder_define, same]

/-- A search that comes to the context finds it. -/
theorem find?_define_of_comesTo (within : c < store.size) (v : Value)
    (comes : store.ComesTo d c n) : (store.define c n v).find? d n = some c :=
  (find?_eq_some_iff ..).mpr
    ⟨binds_define_self within n v, (comesTo_define_iff within d n v).mpr comes⟩

/-- A search that does not come to `c` finds the same in two stores whose bindings differ in
`c` only. -/
theorem find?_eq_some_of_not_comesTo {before after : Store}
    (order : after.searchOrder d = before.searchOrder d)
    (others : ∀ k ≠ c, after.binds k n = before.binds k n)
    (misses : ¬ before.ComesTo d c n) (found : before.find? d n = some k) :
    after.find? d n = some k := by
  obtain ⟨bound, front, back, shape, unbound⟩ := (find?_eq_some_iff ..).mp found
  -- The search would come to `c` wherever `c` stood at or before the place where it stops.
  have apart : k ≠ c := by
    rintro rfl
    exact misses ⟨front, back, shape, unbound⟩
  have absent : ∀ j ∈ front, j ≠ c := by
    rintro j member rfl
    obtain ⟨first, second, rfl⟩ := List.append_of_mem member
    exact misses ⟨first, second ++ k :: back, by simpa using shape,
      fun i earlier => unbound i (List.mem_append_left _ earlier)⟩
  refine (find?_eq_some_iff ..).mpr
    ⟨by rw [others k apart, bound], front, back, by rw [order, shape], fun j member => ?_⟩
  rw [others j (absent j member), unbound j member]

/-- A search that does not come to the context finds what it found. -/
theorem find?_define_of_not_comesTo (within : c < store.size) (v : Value)
    (misses : ¬ store.ComesTo d c n) :
    (store.define c n v).find? d n = store.find? d n := by
  have order := searchOrder_define store c d n v
  have others : ∀ k ≠ c, (store.define c n v).binds k n = store.binds k n :=
    fun k apart => binds_define_of_not within v fun both => apart both.1
  -- The two stores take turns: what one search finds, the other finds.
  refine Option.ext fun k => ⟨fun found => ?_, fun found => ?_⟩
  · exact find?_eq_some_of_not_comesTo order.symm (fun k apart => (others k apart).symm)
      (fun comes => misses ((comesTo_define_iff within d n v).mp comes)) found
  · exact find?_eq_some_of_not_comesTo order others misses found

/-! ### What names stand for -/

theorem resolve?_define_of_ne (within : c < store.size) (d : ContextId) (v : Value)
    (other : m ≠ n) : (store.define c n v).resolve? d m = store.resolve? d m := by
  have same (k : ContextId) :
      ((store.define c n v).bindingsOf k).get? m = (store.bindingsOf k).get? m := by
    rw [get?_bindingsOf_define within, if_neg fun both => other both.2]
  simp only [resolve?, find?_define_of_ne within d v other, same]

theorem resolve?_define_of_comesTo (within : c < store.size) (v : Value)
    (comes : store.ComesTo d c n) : (store.define c n v).resolve? d n = some v := by
  have here : ((store.define c n v).bindingsOf c).get? n = some v := by
    rw [get?_bindingsOf_define within, if_pos ⟨rfl, rfl⟩]
  simp only [resolve?, find?_define_of_comesTo within v comes, Option.bind_eq_bind,
    Option.bind_some, here]

theorem resolve?_define_of_not_comesTo (within : c < store.size) (v : Value)
    (misses : ¬ store.ComesTo d c n) :
    (store.define c n v).resolve? d n = store.resolve? d n := by
  simp only [resolve?, find?_define_of_not_comesTo within v misses]
  cases found : store.find? d n with
  | none => rfl
  | some home =>
    have apart : home ≠ c := by
      rintro rfl
      exact misses ((find?_eq_some_iff ..).mp found).2
    simp only [Option.bind_eq_bind, Option.bind_some]
    rw [get?_bindingsOf_define within, if_neg fun both => apart both.1]

end Store

/-! ### Definitions -/

/-- What a computation answers, whatever state it leaves behind. -/
def Eval.answer {α : Type} (computation : Eval α) (s : State) : Except Error α :=
  match computation s with
  | .ok a _ => .ok a
  | .error e _ => .error e

theorem answer_findNamed {given : Value} {name : String}
    (named : given.bindingName? = some name) (d : ContextId) (s : State) :
    (Eval.findNamed d given).answer s = .ok (s.store.find? d name) := by
  rw [Eval.answer, findNamed_of_name named]

theorem answer_resolveNamed {given : Value} {name : String}
    (named : given.bindingName? = some name) (d : ContextId) (s : State) :
    (Eval.resolveNamed d given).answer s =
      (s.store.resolve? d name).elim (.error (.unbound name d)) .ok := by
  have search : Eval.resolveNamed d given s = Eval.resolve d name s := by
    simp only [Eval.resolveNamed, Eval.nameOf, named]
    rfl
  rw [Eval.answer, search, resolve_apply]
  cases s.store.resolve? d name <;> rfl

theorem defineNamed_of_name {given : Value} {name : String}
    (named : given.bindingName? = some name) (c : ContextId) (v : Value) (s : State) :
    Eval.defineNamed c given v s = .ok () { s with store := s.store.define c name v } := by
  simp only [Eval.defineNamed, Eval.nameOf, named]
  rfl

/-- Binding a name in a context that exists always succeeds. Searches look at the contexts they
looked at, in the order in which the loop behind them lists these. For other names they answer
what they answered. For the name itself, a search that comes to the context finds it there with
its new value, and any other search answers what it answered. -/
theorem definition_changes_searches_that_come_to_it (s : State) {c : ContextId}
    (within : c < s.store.size) {given : Value} {n : String}
    (named : given.bindingName? = some n) (v : Value) :
    ∃ after : State, Eval.defineNamed c given v s = .ok () after ∧
      ∀ d : ContextId,
        (∃ rounds, (Store.Loop.round s.store)^[rounds] ⟨[], [d]⟩ =
          ⟨s.store.searchOrder d, []⟩) ∧
        after.store.searchOrder d = s.store.searchOrder d ∧
        (∀ (asked : Value) (m : String), asked.bindingName? = some m → m ≠ n →
          (Eval.findNamed d asked).answer after = (Eval.findNamed d asked).answer s ∧
          (Eval.resolveNamed d asked).answer after = (Eval.resolveNamed d asked).answer s) ∧
        ∀ asked : Value, asked.bindingName? = some n →
          (s.store.ComesTo d c n →
            (Eval.findNamed d asked).answer after = .ok (some c) ∧
            (Eval.resolveNamed d asked).answer after = .ok v) ∧
          (¬ s.store.ComesTo d c n →
            (Eval.findNamed d asked).answer after = (Eval.findNamed d asked).answer s ∧
            (Eval.resolveNamed d asked).answer after =
              (Eval.resolveNamed d asked).answer s) := by
  refine ⟨_, defineNamed_of_name named c v s, fun d => ⟨?_, ?_, ?_, ?_⟩⟩
  · obtain ⟨rounds, -, ends⟩ := Store.Loop.iterate_round s.store [] [d]
    exact ⟨rounds, ends⟩
  · exact s.store.searchOrder_define c d n v
  · intro asked m name other
    simp only [answer_findNamed name, answer_resolveNamed name,
      Store.find?_define_of_ne within d v other, Store.resolve?_define_of_ne within d v other,
      and_self]
  · intro asked name
    simp only [answer_findNamed name, answer_resolveNamed name]
    refine ⟨fun comes => ?_, fun misses => ?_⟩
    · simp only [Store.find?_define_of_comesTo within v comes,
        Store.resolve?_define_of_comesTo within v comes, Option.elim_some, and_self]
    · simp only [Store.find?_define_of_not_comesTo within v misses,
        Store.resolve?_define_of_not_comesTo within v misses, and_self]

/-- Four contexts: the last has the second and the third as parents, in this order, and these
share the first, which binds `x`, as a parent. -/
def twoPaths : State :=
  ⟨⟨#[⟨[("x", .int 1)], []⟩, ⟨[], [0]⟩, ⟨[], [0]⟩, ⟨[], [1, 2]⟩]⟩, 0, #[]⟩

theorem twoPaths_searchOrder : twoPaths.store.searchOrder 3 = [3, 1, 0, 2] := by cbv

/-- From the last context, a search for `x` comes to the second context but not to the third,
which is as near: the first context is looked at before it. -/
theorem shared_parent_comes_before_second_parent :
    (∃ after, Eval.defineNamed 1 (.symbol "x") (.int 5) twoPaths = .ok () after ∧
      (Eval.findNamed 3 (.text "x")).answer after = .ok (some 1) ∧
      (Eval.resolveNamed 3 (.text "x")).answer after = .ok (.int 5)) ∧
    ∃ after, Eval.defineNamed 2 (.symbol "x") (.int 5) twoPaths = .ok () after ∧
      (Eval.findNamed 3 (.text "x")).answer after = .ok (some 0) ∧
      (Eval.resolveNamed 3 (.text "x")).answer after = .ok (.int 1) := by
  obtain ⟨first, bound, changes⟩ := definition_changes_searches_that_come_to_it twoPaths
    (show 1 < twoPaths.store.size by decide)
    (show (Value.symbol "x").bindingName? = some "x" from rfl) (.int 5)
  obtain ⟨second, late, keeps⟩ := definition_changes_searches_that_come_to_it twoPaths
    (show 2 < twoPaths.store.size by decide)
    (show (Value.symbol "x").bindingName? = some "x" from rfl) (.int 5)
  have comes : twoPaths.store.ComesTo 3 1 "x" :=
    ⟨[3], [0, 2], twoPaths_searchOrder, by decide⟩
  have misses : ¬ twoPaths.store.ComesTo 3 2 "x" := by
    rintro ⟨front, back, shape, unbound⟩
    have before : 0 ∈ front := by
      rw [twoPaths_searchOrder] at shape
      rcases front with _ | ⟨i, _ | ⟨j, _ | ⟨k, front⟩⟩⟩ <;> simp_all
    exact absurd (unbound 0 before) (by decide)
  have answers := (keeps 3).2.2.2 (.text "x") rfl
  refine ⟨⟨first, bound, ((changes 3).2.2.2 (.text "x") rfl).1 comes⟩, second, late, ?_, ?_⟩
  · rw [(answers.2 misses).1]
    cbv
  · rw [(answers.2 misses).2]
    cbv

end ContextLisp
