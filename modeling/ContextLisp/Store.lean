/-
# The store of contexts

A store holds every context ever made, in the order of creation; none is ever
removed. A search for a name begins at a context and goes on through the
parents, depth first and left to right. A context that is reached along two
paths is looked at once: the second visit could find nothing new.

`find?` stops at the first context that binds the name, and `searchOrder` lists
all contexts that such a search would look at. Both end because each step either
drops a context that was seen before or marks a new one as seen.
-/

import ContextLisp.Context

namespace ContextLisp

/-- All contexts, in the order of creation. -/
structure Store where
  contexts : Array Context
  deriving Inhabited

namespace Store

/-- The store without contexts. -/
def empty : Store := ⟨#[]⟩

/-- How many contexts there are. -/
def size (store : Store) : Nat := store.contexts.size

/-- The context of an identifier. -/
def get? (store : Store) (id : ContextId) : Option Context :=
  store.contexts[id]?

/-- The bindings of a context; none if it does not exist. -/
def bindingsOf (store : Store) (id : ContextId) : Bindings :=
  ((store.get? id).map Context.bindings).getD []

/-- The parents of a context; none if it does not exist. -/
def parentsOf (store : Store) (id : ContextId) : List ContextId :=
  ((store.get? id).map Context.parents).getD []

/-- Make a context without bindings. -/
def create (store : Store) (parents : List ContextId) : ContextId × Store :=
  (store.size, ⟨store.contexts.push (Context.empty parents)⟩)

/-- Bind a name in one context. -/
def define (store : Store) (id : ContextId) (name : String) (value : Value) : Store :=
  ⟨store.contexts.modify id fun context =>
    { context with bindings := context.bindings.assign name value }⟩

/-- Whether a context itself binds a name. -/
def binds (store : Store) (id : ContextId) (name : String) : Bool :=
  ((store.bindingsOf id).get? name).isSome

/-! ### Search -/

/-- The parents that contexts below `n`, not yet seen, can still contribute. -/
def unseenParents (store : Store) (seen : List ContextId) : Nat → Nat
  | 0 => 0
  | n + 1 =>
    unseenParents store seen n + if n ∈ seen then 0 else (store.parentsOf n).length

/-- The most steps a search can still take. -/
def searchBound (store : Store) (seen pending : List ContextId) : Nat :=
  store.unseenParents seen store.size + pending.length

/-- Marking a context that lies beyond the range changes nothing in it. -/
theorem unseenParents_cons_of_le (store : Store) (seen : List ContextId) (id n : Nat)
    (beyond : n ≤ id) : store.unseenParents (id :: seen) n = store.unseenParents seen n := by
  induction n with
  | zero => rfl
  | succ n ih =>
    have apart : n ≠ id := by omega
    simp [unseenParents, ih (by omega), apart]

/-- Marking a new context takes its parents out of the account. -/
theorem unseenParents_cons_of_lt (store : Store) (seen : List ContextId) (id n : Nat)
    (within : id < n) (fresh : id ∉ seen) :
    store.unseenParents (id :: seen) n + (store.parentsOf id).length =
      store.unseenParents seen n := by
  induction n with
  | zero => omega
  | succ n ih =>
    by_cases last : id = n
    · subst last
      simp [unseenParents, unseenParents_cons_of_le, fresh]
    · have apart : n ≠ id := fun h => last h.symm
      have step := ih (by omega)
      simp only [unseenParents, List.mem_cons, apart, false_or]
      omega

/-- A context that does not exist has no parents. -/
theorem parentsOf_of_size_le (store : Store) {id : ContextId} (beyond : store.size ≤ id) :
    store.parentsOf id = [] := by
  simp [parentsOf, get?, Array.getElem?_eq_none (show store.contexts.size ≤ id from beyond)]

/-- Visiting a context that was not seen before brings a search nearer its end. -/
theorem searchBound_visit (store : Store) {seen : List ContextId} {id : ContextId}
    (pending : List ContextId) (fresh : id ∉ seen) :
    store.searchBound (id :: seen) (store.parentsOf id ++ pending) <
      store.searchBound seen (id :: pending) := by
  simp only [searchBound, List.length_append, List.length_cons]
  by_cases within : id < store.size
  · have step := store.unseenParents_cons_of_lt seen id store.size within fresh
    omega
  · have beyond : store.size ≤ id := Nat.le_of_not_lt within
    rw [store.unseenParents_cons_of_le seen id store.size beyond,
      store.parentsOf_of_size_le beyond]
    simp

/-- The first context that satisfies `hit`, searching from pending contexts and
skipping those seen before. -/
def firstHit (store : Store) (hit : ContextId → Bool) (seen pending : List ContextId) :
    Option ContextId :=
  match pending with
  | [] => none
  | id :: rest =>
    if id ∈ seen then store.firstHit hit seen rest
    else if hit id then some id
    else store.firstHit hit (id :: seen) (store.parentsOf id ++ rest)
termination_by store.searchBound seen pending
decreasing_by
  · simp [searchBound]
  · exact store.searchBound_visit rest ‹_›

/-- The contexts that a search looks at, from pending contexts and without those
seen before, in order. -/
def walk (store : Store) (seen pending : List ContextId) : List ContextId :=
  match pending with
  | [] => []
  | id :: rest =>
    if id ∈ seen then store.walk seen rest
    else id :: store.walk (id :: seen) (store.parentsOf id ++ rest)
termination_by store.searchBound seen pending
decreasing_by
  · simp [searchBound]
  · exact store.searchBound_visit rest ‹_›

/-- Every context that a search from `id` looks at, in order. -/
def searchOrder (store : Store) (id : ContextId) : List ContextId :=
  store.walk [] [id]

/-- The first context in search order that binds a name. -/
def find? (store : Store) (id : ContextId) (name : String) : Option ContextId :=
  store.firstHit (store.binds · name) [] [id]

/-- The value that a search from a context finds for a name. -/
def resolve? (store : Store) (id : ContextId) (name : String) : Option Value := do
  let home ← store.find? id name
  (store.bindingsOf home).get? name

end Store

end ContextLisp
