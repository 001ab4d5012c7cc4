/-
# What changes between two stores

Making a context adds one at the end and leaves the rest as it was. Binding a name
changes the bindings of one context, never its parents, and there only adds a name
at the end or replaces a value in its place.

Two relations between an earlier and a later store say how much may have happened in
between. `Extends` allows new contexts only. `WritesOnly home` also allows bindings
in one context that was there before. Both compose, and writing only to a context
that is new is no more than extending.
-/

import ContextLisp.Store

namespace ContextLisp

/-- A name is bound if it is among the names. -/
theorem Bindings.get?_isSome_iff_mem_names (bindings : Bindings) (name : String) :
    (bindings.get? name).isSome ↔ name ∈ bindings.names := by
  induction bindings with
  | nil => simp [Bindings.get?, Bindings.names]
  | cons head rest ih =>
    obtain ⟨key, value⟩ := head
    -- Look-up stops at the first key that fits; past any other it goes on as membership does.
    by_cases same : key = name
    · simp [Bindings.get?, Bindings.names, same]
    · have apart : name ≠ key := fun h => same h.symm
      simpa [Bindings.get?, Bindings.names, same, apart] using ih

theorem Bindings.mem_of_get? {bindings : Bindings} {name : String} {v : Value}
    (found : bindings.get? name = some v) : (name, v) ∈ bindings := by
  induction bindings with
  | nil => cases found
  | cons head rest ih =>
    obtain ⟨key, value⟩ := head
    rw [Bindings.get?] at found
    split at found
    · rename_i same
      cases found
      simp [same]
    · exact List.mem_cons_of_mem _ (ih found)

theorem Bindings.mem_assign {bindings : Bindings} {name : String} {v : Value}
    {entry : String × Value} (member : entry ∈ bindings.assign name v) :
    entry ∈ bindings ∨ entry.2 = v := by
  induction bindings with
  | nil => simp_all [Bindings.assign]
  | cons head rest ih =>
    obtain ⟨key, value⟩ := head
    rw [Bindings.assign] at member
    split at member
    · grind
    · grind

/-- Binding a name keeps the names that were there before, in their order. -/
theorem Bindings.names_prefix_assign (bindings : Bindings) (name : String) (value : Value) :
    bindings.names <+: (bindings.assign name value).names := by
  rw [Bindings.names_assign]
  split
  · exact List.prefix_rfl
  · exact List.prefix_append _ _

namespace Store

/-! ### The operations -/

@[simp] theorem size_create (store : Store) (parents : List ContextId) :
    (store.create parents).2.size = store.size + 1 := by
  simp [create, size]

@[simp] theorem size_define (store : Store) (id : ContextId) (name : String) (value : Value) :
    (store.define id name value).size = store.size := by
  simp [define, size]

theorem get?_create (store : Store) (parents : List ContextId) (k : ContextId) :
    (store.create parents).2.get? k =
      if k = store.size then some (Context.empty parents) else store.get? k :=
  Array.getElem?_push

theorem get?_create_of_lt {store : Store} {k : ContextId} (within : k < store.size)
    (parents : List ContextId) : (store.create parents).2.get? k = store.get? k := by
  rw [get?_create, if_neg (Nat.ne_of_lt within)]

theorem get?_define (store : Store) (id k : ContextId) (name : String) (value : Value) :
    (store.define id name value).get? k =
      if id = k then (store.get? k).map fun context =>
        { context with bindings := context.bindings.assign name value }
      else store.get? k := by
  simp [define, get?, Array.getElem?_modify]

theorem get?_define_of_ne {id k : ContextId} (apart : k ≠ id) (store : Store) (name : String)
    (value : Value) : (store.define id name value).get? k = store.get? k := by
  rw [get?_define, if_neg fun same => apart same.symm]

/-- Binding a name leaves every context's parents alone. -/
@[simp] theorem parentsOf_define (store : Store) (id k : ContextId) (name : String)
    (value : Value) : (store.define id name value).parentsOf k = store.parentsOf k := by
  rw [parentsOf, parentsOf, get?_define]
  split
  · cases store.get? k <;> rfl
  · rfl

/-- Binding a name in a context that exists binds it there. -/
theorem bindingsOf_define_self {store : Store} {id : ContextId} (within : id < store.size)
    (name : String) (value : Value) :
    (store.define id name value).bindingsOf id = (store.bindingsOf id).assign name value := by
  have found : store.get? id = some store.contexts[id] := Array.getElem?_eq_getElem within
  rw [bindingsOf, bindingsOf, get?_define, if_pos rfl, found]
  rfl

theorem bindingsOf_of_size_le {store : Store} {id : ContextId} (beyond : store.size ≤ id) :
    store.bindingsOf id = [] := by
  simp [bindingsOf, get?, Array.getElem?_eq_none (show store.contexts.size ≤ id from beyond)]

/-- A new context has no bindings, as if it did not exist. -/
@[simp] theorem bindingsOf_create (store : Store) (parents : List ContextId) (k : ContextId) :
    (store.create parents).2.bindingsOf k = store.bindingsOf k := by
  by_cases new : k = store.size
  · rw [bindingsOf_of_size_le (Nat.le_of_eq new.symm), bindingsOf, get?_create, if_pos new]
    rfl
  · rw [bindingsOf, bindingsOf, get?_create, if_neg new]

theorem parentsOf_create (store : Store) (parents : List ContextId) (k : ContextId) :
    (store.create parents).2.parentsOf k =
      if k = store.size then parents else store.parentsOf k := by
  rw [parentsOf, get?_create]
  split <;> rfl

theorem bindingsOf_define (store : Store) (id k : ContextId) (name : String) (value : Value) :
    (store.define id name value).bindingsOf k =
      if id = k ∧ k < store.size then (store.bindingsOf k).assign name value
      else store.bindingsOf k := by
  by_cases here : id = k
  · subst here
    by_cases within : id < store.size
    · rw [bindingsOf_define_self within, if_pos ⟨rfl, within⟩]
    · have beyond := Nat.le_of_not_lt within
      rw [if_neg fun both => within both.2, bindingsOf_of_size_le beyond,
        bindingsOf_of_size_le (by simpa using beyond)]
  · rw [if_neg fun both => here both.1, bindingsOf, get?_define, if_neg here, bindingsOf]

/-- What is bound after a definition was bound before, or has the new value. -/
theorem mem_bindingsOf_define {store : Store} {id k : ContextId} {name : String} {value : Value}
    {entry : String × Value} (member : entry ∈ (store.define id name value).bindingsOf k) :
    entry ∈ store.bindingsOf k ∨ entry.2 = value := by
  rw [bindingsOf_define] at member
  split at member
  · exact Bindings.mem_assign member
  · exact .inl member

/-- A value that a search finds is bound somewhere. -/
theorem exists_mem_of_resolve? {store : Store} {c : ContextId} {name : String} {v : Value}
    (found : store.resolve? c name = some v) : ∃ home, (name, v) ∈ store.bindingsOf home := by
  obtain ⟨home, -, bound⟩ := Option.bind_eq_some_iff.mp found
  exact ⟨home, Bindings.mem_of_get? bound⟩

/-- The name has its new value in the context, and all else is as it was. -/
theorem get?_bindingsOf_define {store : Store} {id : ContextId} (within : id < store.size)
    (name : String) (value : Value) (k : ContextId) (other : String) :
    ((store.define id name value).bindingsOf k).get? other =
      if k = id ∧ other = name then some value else (store.bindingsOf k).get? other := by
  by_cases here : k = id
  · subst here
    rw [bindingsOf_define_self within]
    by_cases same : other = name
    · rw [if_pos ⟨rfl, same⟩, same, Bindings.get?_assign_self]
    · rw [if_neg fun both => same both.2, Bindings.get?_assign_of_ne fun h => same h.symm]
  · rw [if_neg fun both => here both.1, bindingsOf_define, if_neg fun both => here both.1.symm]

theorem binds_define_self {store : Store} {id : ContextId} (within : id < store.size)
    (name : String) (value : Value) : (store.define id name value).binds id name = true := by
  rw [binds, get?_bindingsOf_define within, if_pos ⟨rfl, rfl⟩]
  rfl

theorem binds_define_of_not {store : Store} {id k : ContextId} {name other : String}
    (within : id < store.size) (value : Value) (apart : ¬ (k = id ∧ other = name)) :
    (store.define id name value).binds k other = store.binds k other := by
  rw [binds, get?_bindingsOf_define within, if_neg apart, binds]

/-! ### Stores that only grow -/

/-- Contexts were made, and those that were there before are as they were. -/
structure Extends (before after : Store) : Prop where
  grows : before.size ≤ after.size
  kept : ∀ k < before.size, after.get? k = before.get? k

theorem Extends.refl (store : Store) : Extends store store :=
  ⟨Nat.le_refl _, fun _ _ => rfl⟩

theorem Extends.trans {before between after : Store} (first : Extends before between)
    (second : Extends between after) : Extends before after where
  grows := Nat.le_trans first.grows second.grows
  kept k within := by
    rw [second.kept k (Nat.lt_of_lt_of_le within first.grows), first.kept k within]

theorem extends_create (store : Store) (parents : List ContextId) :
    Extends store (store.create parents).2 :=
  ⟨by simp, fun _ within => get?_create_of_lt within parents⟩

/-! ### Stores written to in one place -/

/-- Of the contexts that were there before, at most `home` got bindings: its names from
before come first and in their order, and its parents are as they were. -/
structure WritesOnly (home : ContextId) (before after : Store) : Prop where
  grows : before.size ≤ after.size
  others : ∀ k < before.size, k ≠ home → after.get? k = before.get? k
  names : (before.bindingsOf home).names <+: (after.bindingsOf home).names
  parents : home < before.size → after.parentsOf home = before.parentsOf home

namespace WritesOnly

variable {home : ContextId} {before between after : Store}

theorem refl (home : ContextId) (store : Store) : WritesOnly home store store :=
  ⟨Nat.le_refl _, fun _ _ _ => rfl, List.prefix_rfl, fun _ => rfl⟩

theorem trans (first : WritesOnly home before between) (second : WritesOnly home between after) :
    WritesOnly home before after where
  grows := Nat.le_trans first.grows second.grows
  others k within apart := by
    rw [second.others k (Nat.lt_of_lt_of_le within first.grows) apart,
      first.others k within apart]
  names := first.names.trans second.names
  parents within := by
    rw [second.parents (Nat.lt_of_lt_of_le within first.grows), first.parents within]

theorem define (home : ContextId) (store : Store) (name : String) (value : Value) :
    WritesOnly home store (store.define home name value) where
  grows := by simp
  others k _ apart := get?_define_of_ne apart store name value
  names := by
    by_cases within : home < store.size
    · rw [bindingsOf_define_self within]
      exact Bindings.names_prefix_assign _ name value
    · rw [bindingsOf_of_size_le (Nat.le_of_not_lt within)]
      exact List.nil_prefix
  parents _ := parentsOf_define store home home name value

/-- Growing is writing nowhere. -/
theorem of_extends (home : ContextId) (extension : Extends before after) :
    WritesOnly home before after where
  grows := extension.grows
  others k within _ := extension.kept k within
  names := by
    by_cases within : home < before.size
    · have same : before.bindingsOf home = after.bindingsOf home := by
        rw [bindingsOf, bindingsOf, extension.kept home within]
      exact ⟨[], by rw [List.append_nil, same]⟩
    · rw [bindingsOf_of_size_le (Nat.le_of_not_lt within)]
      exact List.nil_prefix
  parents within := by rw [parentsOf, parentsOf, extension.kept home within]

/-- Writing to a context that is new is no more than growing. -/
theorem extends_of_new (extension : Extends before between)
    (writes : WritesOnly home between after) (fresh : before.size ≤ home) :
    Extends before after where
  grows := Nat.le_trans extension.grows writes.grows
  kept k within := by
    have apart : k ≠ home := Nat.ne_of_lt (Nat.lt_of_lt_of_le within fresh)
    rw [writes.others k (Nat.lt_of_lt_of_le within extension.grows) apart,
      extension.kept k within]

/-- The parents of every context stay as they were. -/
theorem parentsOf_eq (writes : WritesOnly home before after) {k : ContextId}
    (within : k < before.size) : after.parentsOf k = before.parentsOf k := by
  by_cases same : k = home
  · subst same
    exact writes.parents within
  · rw [parentsOf, parentsOf, writes.others k within same]

/-- A name that `home` binds stays bound there. -/
theorem binds_of_binds (writes : WritesOnly home before after) {name : String}
    (bound : before.binds home name = true) : after.binds home name = true := by
  rw [binds, Bindings.get?_isSome_iff_mem_names] at bound ⊢
  exact writes.names.subset bound

end WritesOnly

/-- The stores that code brings about which makes contexts as it likes and binds names
in `home` and in contexts of its own making only. -/
inductive WrittenAt (home : ContextId) (before : Store) : Store → Prop
  | refl : WrittenAt home before before
  | create {after : Store} (parents : List ContextId) :
      WrittenAt home before after → WrittenAt home before (after.create parents).2
  | define {after : Store} {id : ContextId} (name : String) (value : Value) :
      WrittenAt home before after → id = home ∨ before.size ≤ id →
        WrittenAt home before (after.define id name value)

/-- Whatever such code does, it writes to `home` only. -/
theorem WrittenAt.writesOnly {home : ContextId} {before after : Store}
    (written : WrittenAt home before after) : WritesOnly home before after := by
  induction written with
  | refl => exact .refl home before
  | create parents _ ih => exact ih.trans (.of_extends home (extends_create _ parents))
  | @define between id name value _ target ih =>
    by_cases same : id = home
    · subst same
      exact ih.trans (.define id between name value)
    · have fresh : before.size ≤ id := target.resolve_left same
      -- The context written to is new, so every old one reads as before.
      refine ⟨by simpa using ih.grows, fun k within apart => ?_, ?_, fun within => ?_⟩
      · have other : k ≠ id := Nat.ne_of_lt (Nat.lt_of_lt_of_le within fresh)
        rw [get?_define_of_ne other, ih.others k within apart]
      · rw [bindingsOf, bindingsOf, get?_define_of_ne fun h => same h.symm]
        exact ih.names
      · rw [parentsOf_define, ih.parents within]

end Store

end ContextLisp
