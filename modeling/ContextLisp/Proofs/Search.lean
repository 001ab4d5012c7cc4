/-
# Search without a record of visits

A search keeps a record of the contexts it has seen and looks at none of them twice. In
a store where every parent was made before its children the record is for economy only:
the search finds what plain recursion finds, which looks into a context itself and, if
the name is not bound there, into its parents one after the other, as often as paths lead
to them.

The invariant behind this is about what is left to be done for a context that was seen:
of what is pending, a front that consists of older contexts stands for the rest of the
search below it. A context that comes up again is older than itself if this front is not
empty, so nothing is left to be done for it, and skipping it loses nothing.

The search order itself needs no order of creation: it lists every context that can be
reached, and none twice.
-/

import ContextLisp.Proofs.Evaluation.Relational

namespace ContextLisp

namespace Store

/-- Every parent was made before its children. -/
def Ordered (store : Store) : Prop :=
  ∀ id, ∀ parent ∈ store.parentsOf id, parent < id

/-! ### Plain recursion -/

/-- The context itself if it binds the name, else the first that is found from one of its
parents, from left to right. -/
def plainFind? (store : Store) (ordered : store.Ordered) (name : String) (id : ContextId) :
    Option ContextId :=
  if store.binds id name then some id
  else (store.parentsOf id).attach.findSome? fun parent =>
    store.plainFind? ordered name parent.1
termination_by id
decreasing_by exact ordered id parent.1 parent.2

variable {store : Store} {name : String}

theorem plainFind?_of_binds (ordered : store.Ordered) {id : ContextId}
    (bound : store.binds id name = true) : store.plainFind? ordered name id = some id := by
  rw [plainFind?, if_pos bound]

theorem plainFind?_of_not_binds (ordered : store.Ordered) {id : ContextId}
    (unbound : ¬ store.binds id name = true) :
    store.plainFind? ordered name id =
      (store.parentsOf id).findSome? (store.plainFind? ordered name) := by
  rw [plainFind?, if_neg unbound]
  simp

/-- What plain recursion finds binds the name. -/
theorem binds_of_plainFind? {ordered : store.Ordered} {id home : ContextId}
    (found : store.plainFind? ordered name id = some home) : store.binds home name = true := by
  induction id using Nat.strongRecOn with
  | _ id ih =>
    by_cases bound : store.binds id name = true
    · rw [plainFind?_of_binds ordered bound] at found
      cases found
      exact bound
    · rw [plainFind?_of_not_binds ordered bound] at found
      obtain ⟨parent, member, hit⟩ := List.exists_of_findSome?_eq_some found
      exact ih parent (ordered id parent member) hit

/-! ### Contexts that were seen -/

/-- What is left of the search below a context that was seen: a front of the pending
contexts, all of them older. -/
def Remains (store : Store) (ordered : store.Ordered) (name : String)
    (pending : List ContextId) (id : ContextId) : Prop :=
  ∃ front back, pending = front ++ back ∧ (∀ k ∈ front, k < id) ∧
    store.plainFind? ordered name id = front.findSome? (store.plainFind? ordered name)

/-- When a context that was seen comes up again, there is nothing to be found from it. -/
theorem plainFind?_of_remains {ordered : store.Ordered} {id : ContextId}
    {rest : List ContextId} (remains : store.Remains ordered name (id :: rest) id) :
    store.plainFind? ordered name id = none := by
  obtain ⟨front, back, shape, older, found⟩ := remains
  cases front with
  | nil => exact found
  | cons k front =>
    cases shape
    exact absurd (older id List.mem_cons_self) (Nat.lt_irrefl id)

/-- A context from which nothing is found can be dropped from what is pending. -/
theorem Remains.drop {ordered : store.Ordered} {id k : ContextId} {rest : List ContextId}
    (remains : store.Remains ordered name (id :: rest) k)
    (nothing : store.plainFind? ordered name id = none) :
    store.Remains ordered name rest k := by
  obtain ⟨front, back, shape, older, found⟩ := remains
  cases front with
  | nil => exact ⟨[], rest, rfl, nofun, found⟩
  | cons first front =>
    obtain ⟨rfl, rfl⟩ := List.cons.inj shape
    refine ⟨front, back, rfl, fun j member => older j (List.mem_cons_of_mem _ member), ?_⟩
    rw [found, List.findSome?_cons, nothing]

/-- A context that does not bind the name can be replaced by its parents. -/
theorem Remains.visit {ordered : store.Ordered} {id k : ContextId} {rest : List ContextId}
    (remains : store.Remains ordered name (id :: rest) k)
    (unbound : ¬ store.binds id name = true) :
    store.Remains ordered name (store.parentsOf id ++ rest) k := by
  obtain ⟨front, back, shape, older, found⟩ := remains
  cases front with
  | nil => exact ⟨[], _, rfl, nofun, found⟩
  | cons first front =>
    obtain ⟨rfl, rfl⟩ := List.cons.inj shape
    refine ⟨store.parentsOf id ++ front, back, (List.append_assoc _ _ _).symm, ?_, ?_⟩
    · intro j member
      rcases List.mem_append.mp member with parent | later
      · exact Nat.lt_trans (ordered id j parent) (older id List.mem_cons_self)
      · exact older j (List.mem_cons_of_mem id later)
    · rw [found, List.findSome?_cons, List.findSome?_append,
        plainFind?_of_not_binds ordered unbound]
      cases (store.parentsOf id).findSome? (store.plainFind? ordered name) <;> rfl

/-- Right after a visit, the parents stand for the context. -/
theorem remains_parents {ordered : store.Ordered} {id : ContextId}
    (unbound : ¬ store.binds id name = true) (rest : List ContextId) :
    store.Remains ordered name (store.parentsOf id ++ rest) id :=
  ⟨store.parentsOf id, rest, rfl, ordered id, plainFind?_of_not_binds ordered unbound⟩

/-- A search with a record finds what plain recursion finds from the first pending context
that leads anywhere. -/
theorem firstHit_eq_findSome? (ordered : store.Ordered) {seen pending : List ContextId}
    (invariant : ∀ k ∈ seen, store.Remains ordered name pending k) :
    store.firstHit (store.binds · name) seen pending =
      pending.findSome? (store.plainFind? ordered name) := by
  fun_induction store.firstHit (store.binds · name) seen pending with
  | case1 => rfl
  | case2 seen id rest again ih =>
    have nothing := plainFind?_of_remains (invariant id again)
    rw [List.findSome?_cons, nothing]
    exact ih fun k member => (invariant k member).drop nothing
  | case3 seen id rest fresh bound =>
    rw [List.findSome?_cons, plainFind?_of_binds ordered bound]
  | case4 seen id rest fresh unbound ih =>
    rw [ih, List.findSome?_cons, List.findSome?_append, plainFind?_of_not_binds ordered unbound]
    · cases (store.parentsOf id).findSome? (store.plainFind? ordered name) <;> rfl
    · intro k member
      rcases List.mem_cons.mp member with rfl | earlier
      · exact remains_parents unbound rest
      · exact (invariant k earlier).visit unbound

theorem find?_eq_plainFind? (ordered : store.Ordered) (id : ContextId) (name : String) :
    store.find? id name = store.plainFind? ordered name id := by
  rw [find?, firstHit_eq_findSome? ordered (by simp), List.findSome?_cons]
  cases store.plainFind? ordered name id <;> rfl

/-! ### The search order -/

/-- One context is a parent of the other. -/
def HasParent (store : Store) (id parent : ContextId) : Prop :=
  parent ∈ store.parentsOf id

/-- A context that can be reached through parents, in any number of steps. -/
abbrev Reaches (store : Store) : ContextId → ContextId → Prop :=
  Relation.ReflTransGen store.HasParent

theorem not_mem_walk_of_mem_seen {store : Store} {seen pending : List ContextId}
    {id : ContextId} (again : id ∈ seen) : id ∉ store.walk seen pending := by
  fun_induction store.walk seen pending with
  | case1 => simp
  | case2 seen next rest _ ih => exact ih again
  | case3 seen next rest fresh ih =>
    intro member
    rcases List.mem_cons.mp member with rfl | later
    · exact fresh again
    · exact ih (List.mem_cons_of_mem next again) later

theorem nodup_walk (store : Store) (seen pending : List ContextId) :
    (store.walk seen pending).Nodup := by
  fun_induction store.walk seen pending with
  | case1 => exact List.nodup_nil
  | case2 seen next rest _ ih => exact ih
  | case3 seen next rest _ ih =>
    exact List.nodup_cons.mpr ⟨not_mem_walk_of_mem_seen List.mem_cons_self, ih⟩

/-- Whatever a search looks at can be reached from where it began. -/
theorem reaches_of_mem_walk {store : Store} {seen pending : List ContextId} {id : ContextId}
    (member : id ∈ store.walk seen pending) : ∃ start ∈ pending, store.Reaches start id := by
  fun_induction store.walk seen pending with
  | case1 => cases member
  | case2 seen next rest _ ih =>
    obtain ⟨start, later, path⟩ := ih member
    exact ⟨start, List.mem_cons_of_mem next later, path⟩
  | case3 seen next rest _ ih =>
    rcases List.mem_cons.mp member with rfl | later
    · exact ⟨id, List.mem_cons_self, .refl⟩
    · obtain ⟨start, place, path⟩ := ih later
      rcases List.mem_append.mp place with parent | inRest
      · exact ⟨next, List.mem_cons_self, .head parent path⟩
      · exact ⟨start, List.mem_cons_of_mem next inRest, path⟩

/-- Nothing is left out: what was pending is looked at, unless it was seen before, and so are
the parents of all that was looked at. The parents of what was seen before are taken to be
seen or pending. -/
theorem walk_closed {store : Store} {seen pending : List ContextId}
    (invariant : ∀ k ∈ seen, ∀ parent ∈ store.parentsOf k, parent ∈ seen ∨ parent ∈ pending) :
    (∀ k ∈ pending, k ∈ seen ∨ k ∈ store.walk seen pending) ∧
    ∀ k, k ∈ seen ∨ k ∈ store.walk seen pending →
      ∀ parent ∈ store.parentsOf k, parent ∈ seen ∨ parent ∈ store.walk seen pending := by
  fun_induction store.walk seen pending with
  | case1 seen =>
    refine ⟨nofun, fun k visited parent member => ?_⟩
    rcases visited with earlier | later
    · exact .inl ((invariant k earlier parent member).resolve_right (by simp))
    · cases later
  | case2 seen next rest again ih =>
    have shorter := ih fun k earlier parent member => by
      rcases invariant k earlier parent member with before | pending
      · exact .inl before
      · rcases List.mem_cons.mp pending with rfl | later
        · exact .inl again
        · exact .inr later
    refine ⟨fun k member => ?_, shorter.2⟩
    rcases List.mem_cons.mp member with rfl | later
    · exact .inl again
    · exact shorter.1 k later
  | case3 seen next rest fresh ih =>
    obtain ⟨covered, closed⟩ := ih fun k visited parent member => by
      rcases List.mem_cons.mp visited with rfl | earlier
      · exact .inr (List.mem_append_left rest member)
      · rcases invariant k earlier parent member with before | pending
        · exact .inl (List.mem_cons_of_mem next before)
        · rcases List.mem_cons.mp pending with rfl | later
          · exact .inl List.mem_cons_self
          · exact .inr (List.mem_append_right _ later)
    -- Being seen after the visit is being the context visited or being seen before.
    have regroup : ∀ {k}, k ∈ next :: seen ∨ k ∈ store.walk (next :: seen)
        (store.parentsOf next ++ rest) ↔ k ∈ seen ∨ k ∈ next :: store.walk (next :: seen)
        (store.parentsOf next ++ rest) := by
      intro k
      simp only [List.mem_cons]
      tauto
    refine ⟨fun k member => regroup.mp ?_, fun k visited parent member => ?_⟩
    · rcases List.mem_cons.mp member with rfl | later
      · exact .inl List.mem_cons_self
      · exact covered k (List.mem_append_right _ later)
    · exact regroup.mp (closed k (regroup.mpr visited) parent member)

/-- A search lists exactly what can be reached. -/
theorem mem_searchOrder_iff (store : Store) (start id : ContextId) :
    id ∈ store.searchOrder start ↔ store.Reaches start id := by
  have closed := @walk_closed store [] [start] (by simp)
  constructor
  · intro member
    obtain ⟨begin, only, path⟩ := reaches_of_mem_walk member
    rwa [List.mem_singleton.mp only] at path
  · intro path
    induction path with
    | refl => exact (closed.1 start (by simp)).resolve_left (by simp)
    | tail _ parent ih => exact (closed.2 _ (.inr ih) _ parent).resolve_left (by simp)

/-- A search for one name stops at the first context of the search order that binds it. -/
theorem firstHit_eq_find?_walk (store : Store) (hit : ContextId → Bool)
    (seen pending : List ContextId) :
    store.firstHit hit seen pending = (store.walk seen pending).find? hit := by
  fun_induction store.firstHit hit seen pending with
  | case1 => simp [walk]
  | case2 seen id rest again ih => rw [walk, if_pos again, ih]
  | case3 seen id rest fresh bound => rw [walk, if_neg fresh, List.find?_cons_of_pos bound]
  | case4 seen id rest fresh unbound ih =>
    rw [walk, if_neg fresh, List.find?_cons_of_neg unbound, ih]

theorem find?_eq_find?_searchOrder (store : Store) (start : ContextId) (name : String) :
    store.find? start name = (store.searchOrder start).find? (store.binds · name) :=
  firstHit_eq_find?_walk store _ [] [start]

theorem reaches_of_find? {start home : ContextId}
    (found : store.find? start name = some home) : store.Reaches start home := by
  rw [find?_eq_find?_searchOrder] at found
  exact (store.mem_searchOrder_iff start home).mp (List.mem_of_find?_eq_some found)

theorem binds_of_find? {start home : ContextId}
    (found : store.find? start name = some home) : store.binds home name = true := by
  rw [find?_eq_find?_searchOrder] at found
  simpa using List.find?_some found

/-- What can be reached binds no name that a search does not find. -/
theorem binds_eq_false_of_resolve? {start id : ContextId}
    (reaches : store.Reaches start id) (missing : store.resolve? start name = none) :
    store.binds id name = false := by
  cases found : store.find? start name with
  | none =>
    rw [find?_eq_find?_searchOrder, List.find?_eq_none] at found
    simpa using found id ((store.mem_searchOrder_iff start id).mpr reaches)
  | some home =>
    have bound := binds_of_find? found
    simp only [resolve?, found] at missing
    rw [binds, show (store.bindingsOf home).get? name = none from missing] at bound
    cases bound

/-! ### The loop with its stack -/

/-- The loop that lists the contexts of a search: those listed so far, and a stack of those
still to be looked at, with the next one last. -/
structure Loop where
  listed : List ContextId
  stack : List ContextId

/-- One round of the loop: the next context is taken off the stack and, if it was not listed
yet, listed; its parents go onto the stack, the first of them last. -/
def Loop.round (store : Store) (loop : Loop) : Loop :=
  match loop.stack.getLast? with
  | none => loop
  | some id =>
    if id ∈ loop.listed then ⟨loop.listed, loop.stack.dropLast⟩
    else ⟨loop.listed ++ [id], loop.stack.dropLast ++ (store.parentsOf id).reverse⟩

theorem Loop.round_again {store : Store} {seen : List ContextId} {id : ContextId}
    (rest : List ContextId) (again : id ∈ seen) :
    Loop.round store ⟨seen.reverse, (id :: rest).reverse⟩ = ⟨seen.reverse, rest.reverse⟩ := by
  simp [Loop.round, again]

theorem Loop.round_fresh {store : Store} {seen : List ContextId} {id : ContextId}
    (rest : List ContextId) (fresh : id ∉ seen) :
    Loop.round store ⟨seen.reverse, (id :: rest).reverse⟩ =
      ⟨(id :: seen).reverse, (store.parentsOf id ++ rest).reverse⟩ := by
  simp [Loop.round, fresh]

/-- The loop comes to an end, with all contexts of the walk listed. -/
theorem Loop.iterate_round (store : Store) (seen pending : List ContextId) :
    ∃ rounds ≤ store.searchBound seen pending,
      (Loop.round store)^[rounds] ⟨seen.reverse, pending.reverse⟩ =
        ⟨seen.reverse ++ store.walk seen pending, []⟩ := by
  fun_induction store.walk seen pending with
  | case1 seen => exact ⟨0, Nat.zero_le _, by simp⟩
  | case2 seen id rest again ih =>
    obtain ⟨rounds, bound, ends⟩ := ih
    refine ⟨rounds + 1, ?_, ?_⟩
    · simp only [searchBound, List.length_cons] at bound ⊢
      omega
    · rw [Function.iterate_succ_apply, round_again rest again, ends]
  | case3 seen id rest fresh ih =>
    obtain ⟨rounds, bound, ends⟩ := ih
    refine ⟨rounds + 1, Nat.lt_of_le_of_lt bound (store.searchBound_visit rest fresh), ?_⟩
    rw [Function.iterate_succ_apply, round_fresh rest fresh, ends]
    simp

end Store

/-! ### Look-up -/

theorem findNamed_of_name {given : Value} {name : String}
    (named : given.bindingName? = some name) (c : ContextId) (s : State) :
    Eval.findNamed c given s = .ok (s.store.find? c name) s := by
  simp only [Eval.findNamed, Eval.nameOf, named]
  rfl

/-- In a store where every parent was made before its children, a search that looks at no
context twice finds the same context as plain recursion. A name has the value it has in that
context, and is unbound, as seen from where the search began, exactly if plain recursion finds
nothing. The loop behind the search comes to an end within the bound, and lists every context
that can be reached, each of them once. -/
theorem search_finds_what_recursion_finds (s : State) (ordered : s.store.Ordered)
    (c : ContextId) (name : String) :
    s.store.find? c name = s.store.plainFind? ordered name c ∧
    s.store.find? c name = (s.store.searchOrder c).find? (s.store.binds · name) ∧
    (∀ home, s.store.plainFind? ordered name c = some home →
      ∃ v, (s.store.bindingsOf home).get? name = some v ∧ Eval.resolve c name s = .ok v s) ∧
    (Eval.resolve c name s = .error (.unbound name c) s ↔
      s.store.plainFind? ordered name c = none) ∧
    (∀ given : Value, given.bindingName? = some name →
      Eval.findNamed c given s = .ok (s.store.plainFind? ordered name c) s ∧
      Eval.containsNamed c given s = .ok (s.store.plainFind? ordered name c).isSome s) ∧
    (∃ rounds ≤ s.store.searchBound [] [c],
      (Store.Loop.round s.store)^[rounds] ⟨[], [c]⟩ = ⟨s.store.searchOrder c, []⟩) ∧
    (s.store.searchOrder c).Nodup ∧
    ∀ k, k ∈ s.store.searchOrder c ↔ s.store.Reaches c k := by
  have same := Store.find?_eq_plainFind? ordered c name
  have resolved : ∀ home, s.store.plainFind? ordered name c = some home →
      ∃ v, (s.store.bindingsOf home).get? name = some v ∧
        Eval.resolve c name s = .ok v s := by
    intro home found
    have bound := Store.binds_of_plainFind? found
    obtain ⟨v, value⟩ := Option.isSome_iff_exists.mp bound
    refine ⟨v, value, ?_⟩
    simp [resolve_apply, Store.resolve?, same, found, value]
  refine ⟨same, Store.firstHit_eq_find?_walk _ _ _ _, resolved, ?_, ?_,
    Store.Loop.iterate_round s.store [] [c], Store.nodup_walk _ _ _,
    Store.mem_searchOrder_iff s.store c⟩
  · constructor
    · intro failed
      cases found : s.store.plainFind? ordered name c with
      | none => rfl
      | some home =>
        obtain ⟨v, _, returned⟩ := resolved home found
        rw [failed] at returned
        cases returned
    · intro nothing
      simp [resolve_apply, Store.resolve?, same, nothing]
  · intro given named
    have finds : Eval.findNamed c given s = .ok (s.store.plainFind? ordered name c) s := by
      rw [findNamed_of_name named, same]
    refine ⟨finds, ?_⟩
    simp only [Eval.containsNamed, bind, EStateM.bind, finds]
    rfl

/-- Four contexts: the last has the second, the third and the second again as parents, and
these share the first as a parent. -/
def sharedAncestor : State :=
  ⟨⟨#[⟨[("x", .int 1), ("y", .int 2)], []⟩, ⟨[], [0]⟩, ⟨[("x", .int 3)], [0, 0]⟩,
      ⟨[], [1, 2, 1]⟩]⟩, 0, #[]⟩

theorem sharedAncestor_ordered : sharedAncestor.store.Ordered := by
  intro id parent member
  match id with
  | 0 | 1 | 2 | 3 => revert parent; decide
  | id + 4 =>
    rw [Store.parentsOf_of_size_le _ (Nat.le_add_left 4 id)] at member
    cases member

/-- Depth comes before breadth: from the last context, `x` is found in the first, which is
reached through the second, and not in the third. -/
theorem search_finds_shared_ancestor :
    sharedAncestor.store.Ordered ∧
    sharedAncestor.store.plainFind? sharedAncestor_ordered "x" 3 = some 0 ∧
    sharedAncestor.store.find? 3 "x" = some 0 ∧
    (sharedAncestor.store.searchOrder 3).Nodup := by
  have found := search_finds_what_recursion_finds sharedAncestor sharedAncestor_ordered 3 "x"
  have first : sharedAncestor.store.find? 3 "x" = some 0 := by cbv
  exact ⟨sharedAncestor_ordered, found.1 ▸ first, first, found.2.2.2.2.2.2.1⟩

end ContextLisp
