/-
# How a store came about

A store comes about by two kinds of change: a context is made, or a name is bound in one. Each
change refers to contexts, as parents or through the functions in the bound value, and it is
sound if all of these exist at that time.

Whatever the changes are, no context goes away, no parents change and no binding is lost. If
they are sound, the store they lead to is well formed: every parent was made before its
children, every function in a bound value was made in a context that exists, and no context
binds a name twice. Functions may well refer to contexts that came later, and to the very
context that binds them, so the order of creation is a fact about parents alone.
-/

import ContextLisp.Proofs.References
import ContextLisp.Proofs.Search
import ContextLisp.Proofs.StoreFrame

namespace ContextLisp

namespace Store

/-! ### Stores that only gain -/

/-- Contexts were made and names were bound, and nothing else happened: contexts keep their
parents and the names that they bind. -/
structure Gains (before after : Store) : Prop where
  grows : before.size ≤ after.size
  parents : ∀ k < before.size, after.parentsOf k = before.parentsOf k
  binds : ∀ k name, before.binds k name = true → after.binds k name = true

namespace Gains

theorem refl (store : Store) : Gains store store :=
  ⟨Nat.le_refl _, fun _ _ => rfl, fun _ _ bound => bound⟩

theorem trans {before between after : Store} (first : Gains before between)
    (second : Gains between after) : Gains before after where
  grows := Nat.le_trans first.grows second.grows
  parents k within := by
    rw [second.parents k (Nat.lt_of_lt_of_le within first.grows), first.parents k within]
  binds k name bound := second.binds k name (first.binds k name bound)

theorem create (store : Store) (parents : List ContextId) :
    Gains store (store.create parents).2 where
  grows := by simp
  parents k within := by rw [parentsOf_create, if_neg (Nat.ne_of_lt within)]
  binds k name bound := by rwa [Store.binds, bindingsOf_create]

theorem define (store : Store) (id : ContextId) (name : String) (value : Value) :
    Gains store (store.define id name value) where
  grows := by simp
  parents k _ := parentsOf_define store id k name value
  binds k other bound := by
    rw [Store.binds, Bindings.get?_isSome_iff_mem_names] at bound ⊢
    rw [bindingsOf_define]
    split
    · exact (Bindings.names_prefix_assign _ name value).subset bound
    · exact bound

/-- What was reached through parents is still reached. -/
theorem reaches {before after : Store} (gains : Gains before after) {start id : ContextId}
    (path : before.Reaches start id) : after.Reaches start id := by
  refine Relation.ReflTransGen.mono (fun child parent step => ?_) _ _ path
  have within : child < before.size := by
    by_contra beyond
    rw [HasParent, parentsOf_of_size_le before (Nat.le_of_not_lt beyond)] at step
    cases step
  rwa [HasParent, gains.parents child within]

end Gains

/-! ### Changes -/

/-- What can be done to a store. -/
inductive Change where
  | create (parents : List ContextId)
  | define (id : ContextId) (name : String) (value : Value)

/-- The store after a change. -/
def Change.apply (store : Store) : Change → Store
  | .create parents => (store.create parents).2
  | .define id name value => store.define id name value

/-- The store after several changes. -/
def replay (store : Store) (changes : List Change) : Store :=
  changes.foldl Change.apply store

/-- The parents of the contexts that changes make, in order. -/
def creations (changes : List Change) : List (List ContextId) :=
  changes.filterMap fun
    | .create parents => some parents
    | .define .. => none

/-- The parents of all contexts, in the order of creation. -/
def parentLists (store : Store) : List (List ContextId) :=
  store.contexts.toList.map Context.parents

/-- The change refers only to contexts that exist. -/
def Change.Sound (store : Store) : Change → Prop
  | .create parents => ∀ p ∈ parents, p < store.size
  | .define id _ value => id < store.size ∧ ∀ c ∈ value.scopes, c < store.size

/-- Each of the changes is sound in the store that those before it lead to. -/
def SoundHistory (store : Store) : List Change → Prop
  | [] => True
  | change :: rest => change.Sound store ∧ SoundHistory (change.apply store) rest

theorem replay_append (store : Store) (changes more : List Change) :
    store.replay (changes ++ more) = (store.replay changes).replay more :=
  List.foldl_append

theorem soundHistory_append {store : Store} {changes more : List Change} :
    SoundHistory store (changes ++ more) ↔
      SoundHistory store changes ∧ SoundHistory (store.replay changes) more := by
  induction changes generalizing store with
  | nil => simp [SoundHistory, replay]
  | cons change changes ih =>
    rw [List.cons_append, SoundHistory, ih, SoundHistory, and_assoc]
    rfl

theorem gains_apply (store : Store) (change : Change) : Gains store (change.apply store) := by
  cases change with
  | create parents => exact .create store parents
  | define id name value => exact .define store id name value

theorem gains_replay (store : Store) (changes : List Change) :
    Gains store (store.replay changes) := by
  induction changes generalizing store with
  | nil => exact .refl store
  | cons change changes ih => exact (gains_apply store change).trans (ih _)

/-! ### The parents that contexts were made with -/

theorem getElem?_parentLists (store : Store) (k : ContextId) :
    store.parentLists[k]? = (store.get? k).map Context.parents := by
  simp [parentLists, get?]

theorem parentLists_apply (store : Store) (change : Change) :
    (change.apply store).parentLists = store.parentLists ++ creations [change] := by
  cases change with
  | create parents => simp [Change.apply, Store.create, parentLists, creations, Context.empty]
  | define id name value =>
    have same : (store.define id name value).parentLists = store.parentLists := by
      apply List.ext_getElem?
      intro k
      rw [getElem?_parentLists, getElem?_parentLists, get?_define]
      split
      · cases store.get? k <;> rfl
      · rfl
    simpa [Change.apply, creations] using same

/-- Every context has the parents that it was made with. -/
theorem parentLists_replay (store : Store) (changes : List Change) :
    (store.replay changes).parentLists = store.parentLists ++ creations changes := by
  induction changes generalizing store with
  | nil => simp [replay, creations]
  | cons change changes ih =>
    have step : store.replay (change :: changes) = (change.apply store).replay changes := rfl
    rw [step, ih, parentLists_apply, List.append_assoc, creations, creations,
      ← List.filterMap_append]
    rfl

/-! ### Well-formed stores -/

/-- Parents come before children, functions in bound values were made in contexts that exist,
and no context binds a name twice. -/
structure WellFormed (store : Store) : Prop where
  ordered : store.Ordered
  scopes : ∀ id, ∀ entry ∈ store.bindingsOf id, ∀ c ∈ entry.2.scopes, c < store.size
  names : ∀ id, (store.bindingsOf id).names.Nodup

theorem wellFormed_empty : WellFormed Store.empty where
  ordered id parent member := by
    rw [parentsOf_of_size_le _ (Nat.zero_le id)] at member
    cases member
  scopes id entry member := by
    rw [bindingsOf_of_size_le (Nat.zero_le id)] at member
    cases member
  names id := by
    rw [bindingsOf_of_size_le (Nat.zero_le id)]
    exact List.nodup_nil

namespace WellFormed

variable {store : Store}

/-- No context is its own ancestor. -/
theorem not_ancestor (wellFormed : store.WellFormed) (id : ContextId) :
    ¬ Relation.TransGen store.HasParent id id := by
  have older : ∀ a b, Relation.TransGen store.HasParent a b → b < a := by
    intro a b path
    induction path with
    | single step => exact wellFormed.ordered _ _ step
    | tail _ step ih => exact Nat.lt_trans (wellFormed.ordered _ _ step) ih
  exact fun cycle => Nat.lt_irrefl id (older id id cycle)

theorem create (wellFormed : store.WellFormed) {parents : List ContextId}
    (sound : ∀ p ∈ parents, p < store.size) : (store.create parents).2.WellFormed where
  ordered id parent member := by
    rw [parentsOf_create] at member
    split at member
    · subst id
      exact sound parent member
    · exact wellFormed.ordered id parent member
  scopes id entry member c scope := by
    rw [bindingsOf_create] at member
    rw [size_create]
    exact Nat.lt_succ_of_lt (wellFormed.scopes id entry member c scope)
  names id := by
    rw [bindingsOf_create]
    exact wellFormed.names id

theorem define (wellFormed : store.WellFormed) (id : ContextId) (name : String) {value : Value}
    (sound : ∀ c ∈ value.scopes, c < store.size) :
    (store.define id name value).WellFormed where
  ordered k parent member := by
    rw [parentsOf_define] at member
    exact wellFormed.ordered k parent member
  scopes k entry member c scope := by
    rw [size_define]
    rcases mem_bindingsOf_define member with old | new
    · exact wellFormed.scopes k entry old c scope
    · exact sound c (new ▸ scope)
  names k := by
    rw [bindingsOf_define]
    split
    · rw [Bindings.names_assign]
      split
      · exact wellFormed.names k
      · rename_i new
        exact List.concat_eq_append ▸ (wellFormed.names k).concat new
    · exact wellFormed.names k

theorem apply (wellFormed : store.WellFormed) {change : Change} (sound : change.Sound store) :
    (change.apply store).WellFormed := by
  cases change with
  | create parents => exact wellFormed.create sound
  | define id name value => exact wellFormed.define id name sound.2

theorem replay (wellFormed : store.WellFormed) {changes : List Change}
    (sound : SoundHistory store changes) : (store.replay changes).WellFormed := by
  induction changes generalizing store with
  | nil => exact wellFormed
  | cons change changes ih => exact ih (wellFormed.apply sound.1) sound.2

/-- What a search finds refers to contexts that exist. -/
theorem resolve? (wellFormed : store.WellFormed) {c : ContextId} {name : String} {v : Value}
    (found : store.resolve? c name = some v) : ∀ k ∈ v.scopes, k < store.size := by
  obtain ⟨home, bound⟩ := exists_mem_of_resolve? found
  exact wellFormed.scopes home (name, v) bound

end WellFormed

/-! ### Stores that come about soundly -/

/-- Sound changes lead from the one store to the other. -/
def Develops (before after : Store) : Prop :=
  ∃ changes, SoundHistory before changes ∧ before.replay changes = after

namespace Develops

variable {before after : Store}

theorem refl (store : Store) : Develops store store := ⟨[], trivial, rfl⟩

theorem trans {between : Store} (first : Develops before between)
    (second : Develops between after) : Develops before after := by
  obtain ⟨changes, sound, rfl⟩ := first
  obtain ⟨more, sound', rfl⟩ := second
  exact ⟨changes ++ more, soundHistory_append.mpr ⟨sound, sound'⟩, replay_append _ _ _⟩

theorem of_change {change : Change} (sound : change.Sound before) :
    Develops before (change.apply before) :=
  ⟨[change], ⟨sound, trivial⟩, rfl⟩

theorem gains (develops : Develops before after) : Gains before after := by
  obtain ⟨changes, _, rfl⟩ := develops
  exact gains_replay before changes

theorem wellFormed (develops : Develops before after) (wellFormed : before.WellFormed) :
    after.WellFormed := by
  obtain ⟨changes, sound, rfl⟩ := develops
  exact wellFormed.replay sound

end Develops

end Store

end ContextLisp
