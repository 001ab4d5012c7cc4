/-
# Contexts that list a parent twice

A search that comes to a context again passes it over, so a parent that is listed twice might
as well be listed once. Two stores of which one has a context with the same parent twice where
the other has it once answer every search alike, and evaluation in one runs as in the other.

Primitives of a host take part in this if they depend on contexts through searches only.
-/

import ContextLisp.Proofs.Evaluation.HostAction
import ContextLisp.Proofs.Evaluation.Simulation
import ContextLisp.Proofs.StoreFrame

namespace ContextLisp

/-! ### Repetitions -/

/-- The second list is the first with contexts added that come earlier in it or were seen
before. -/
inductive Repeats : List ContextId → List ContextId → List ContextId → Prop
  | nil (seen : List ContextId) : Repeats seen [] []
  | keep {seen once twice : List ContextId} {id : ContextId} :
    Repeats (id :: seen) once twice → Repeats seen (id :: once) (id :: twice)
  | again {seen once twice : List ContextId} {id : ContextId} :
    id ∈ seen → Repeats seen once twice → Repeats seen once (id :: twice)

namespace Repeats

variable {seen once twice : List ContextId}

theorem refl (seen ids : List ContextId) : Repeats seen ids ids := by
  induction ids generalizing seen with
  | nil => exact .nil seen
  | cons id ids ih => exact .keep (ih (id :: seen))

theorem mono (repeats : Repeats seen once twice) {others : List ContextId}
    (more : seen ⊆ others) : Repeats others once twice := by
  induction repeats generalizing others with
  | nil => exact .nil others
  | keep _ ih => exact .keep (ih (List.cons_subset_cons _ more))
  | again member _ ih => exact .again (more member) (ih more)

theorem append (repeats : Repeats seen once twice) {once' twice' : List ContextId}
    (repeats' : Repeats seen once' twice') : Repeats seen (once ++ once') (twice ++ twice') := by
  induction repeats with
  | nil => exact repeats'
  | keep _ ih => exact .keep (ih (repeats'.mono (List.subset_cons_self _ _)))
  | again member _ ih => exact .again member (ih repeats')

end Repeats

namespace Store

variable {s t : Store}

/-- A search finds the same whether parents are repeated or not. -/
theorem firstHit_of_repeats {hit : ContextId → Bool}
    (parents : ∀ id, Repeats [] (s.parentsOf id) (t.parentsOf id))
    {seen once twice : List ContextId} (repeats : Repeats seen once twice) :
    t.firstHit hit seen twice = s.firstHit hit seen once := by
  -- The search among repetitions takes no fewer steps than the other, so it leads the induction.
  fun_induction t.firstHit hit seen twice generalizing once with
  | case1 seen =>
    cases repeats
    rw [firstHit]
  | case2 seen id rest member ih =>
    cases repeats with
    | keep later =>
      rw [ih (later.mono (List.cons_subset.mpr ⟨member, List.Subset.refl seen⟩))]
      conv => rhs; rw [firstHit, if_pos member]
    | again _ later => exact ih later
  | case3 seen id rest fresh found =>
    cases repeats with
    | keep later => rw [firstHit, if_neg fresh, if_pos found]
    | again member _ => exact absurd member fresh
  | case4 seen id rest fresh missed ih =>
    cases repeats with
    | keep later =>
      conv => rhs; rw [firstHit, if_neg fresh, if_neg missed]
      exact ih (((parents id).mono (List.nil_subset _)).append later)
    | again member _ => exact absurd member fresh

/-! ### Twins -/

/-- The second store is the first under other tags, except that context `a` lists its only
parent `c` twice. -/
structure Twins (ρ : Nat → Nat) (a c : ContextId) (s t : Store) : Prop where
  size : t.size = s.size
  exists_twin : a < s.size
  bindings : ∀ id, t.bindingsOf id = (s.bindingsOf id).retag ρ
  parents : ∀ id, id ≠ a → t.parentsOf id = s.parentsOf id
  once : s.parentsOf a = [c]
  twice : t.parentsOf a = [c, c]

namespace Twins

variable {ρ : Nat → Nat} {a c : ContextId}

theorem find? (twins : Twins ρ a c s t) (id : ContextId) (name : String) :
    t.find? id name = s.find? id name := by
  have hits : (t.binds · name) = (s.binds · name) := by
    funext k
    simp [binds, twins.bindings, Bindings.get?_retag]
  rw [Store.find?, Store.find?, hits]
  refine firstHit_of_repeats (fun k => ?_) (.refl [] [id])
  by_cases twin : k = a
  · rw [twin, twins.once, twins.twice]
    exact .keep (.again List.mem_cons_self (.nil _))
  · rw [twins.parents k twin]
    exact .refl [] _

theorem resolve? (twins : Twins ρ a c s t) (id : ContextId) (name : String) :
    t.resolve? id name = (s.resolve? id name).map (Value.retag ρ) := by
  rw [Store.resolve?, Store.resolve?, twins.find?]
  cases s.find? id name with
  | none => rfl
  | some home => simp [twins.bindings, Bindings.get?_retag]

theorem define (twins : Twins ρ a c s t) (id : ContextId) (name : String) (v : Value) :
    Twins ρ a c (s.define id name v) (t.define id name (v.retag ρ)) where
  size := by simpa using twins.size
  exists_twin := by simpa using twins.exists_twin
  bindings k := by
    rw [bindingsOf_define, bindingsOf_define, twins.size, twins.bindings]
    split
    · exact Bindings.assign_retag name v _
    · rfl
  parents k apart := by simpa using twins.parents k apart
  once := by simpa using twins.once
  twice := by simpa using twins.twice

theorem create (twins : Twins ρ a c s t) (parents : List ContextId) :
    Twins ρ a c (s.create parents).2 (t.create parents).2 where
  size := by simpa using twins.size
  exists_twin := by
    rw [size_create]
    exact Nat.lt_succ_of_lt twins.exists_twin
  bindings k := by simpa using twins.bindings k
  parents k apart := by
    rw [parentsOf_create, parentsOf_create, twins.size, twins.parents k apart]
  once := by
    rw [parentsOf_create, if_neg (Nat.ne_of_lt twins.exists_twin)]
    exact twins.once
  twice := by
    rw [parentsOf_create, twins.size, if_neg (Nat.ne_of_lt twins.exists_twin)]
    exact twins.twice

end Twins

end Store

/-! ### Evaluation in twins -/

/-- What primitives of a host work on has twins for stores, and will give tags that
correspond. -/
structure HostState.Twins (ρ : Nat → Nat) (a c : ContextId) (s t : HostState) : Prop where
  store : s.toStore.Twins ρ a c t.toStore
  tags : ∀ k, ρ (s.nextTag + k) = t.nextTag + k

/-- The states have twins for stores, the same calls on record, and will give tags that
correspond. -/
structure State.Twins (ρ : Nat → Nat) (a c : ContextId) (s t : State) : Prop where
  store : s.store.Twins ρ a c t.store
  tags : ∀ k, ρ (s.nextTag + k) = t.nextTag + k
  calls : t.calls = s.calls.map (Call.retag ρ)

section

variable {ρ : Nat → Nat} {a c : ContextId}

/-- An action on twins leaves twins. -/
theorem HostAction.Retagged.run {action action' : HostAction} (same : action.Retagged ρ action')
    {s t : HostState} (twins : s.Twins ρ a c t) :
    (∃ v s' t', action.run s = .ok v s' ∧ action'.run t = .ok (v.retag ρ) t' ∧
      s'.Twins ρ a c t') ∨
    ∃ e s' t', action.run s = .error e s' ∧ action'.run t = .error (e.retag ρ) t' ∧
      s'.Twins ρ a c t' := by
  induction same generalizing s t with
  | give value => exact .inl ⟨value, s, t, rfl, rfl, twins⟩
  | raise e => exact .inr ⟨e, s, t, rfl, rfl, twins⟩
  | search _ ih =>
    simp only [HostAction.run, twins.store.find?, twins.store.resolve?]
    exact ih _ _ twins
  | define _ ih => exact ih ⟨twins.store.define _ _ _, twins.tags⟩
  | create _ ih =>
    have id : t.size = s.size := twins.store.size
    simp only [HostAction.run, Store.create, id]
    exact ih _ ⟨twins.store.create _, twins.tags⟩
  | fresh _ ih =>
    have tag : ρ s.nextTag = t.nextTag := twins.tags 0
    simp only [HostAction.run, ← tag]
    refine ih _ ⟨twins.store, fun k => ?_⟩
    simpa [tag, Nat.add_assoc] using twins.tags (1 + k)

theorem State.twins_resume {s t : State} {s' t' : HostState}
    (calls : t.calls = s.calls.map (Call.retag ρ)) (more : s.nextTag ≤ s'.nextTag)
    (more' : t.nextTag ≤ t'.nextTag) (twins : s'.Twins ρ a c t') :
    (s.resume s').Twins ρ a c (t.resume t') := by
  rw [State.resume_of_le more, State.resume_of_le more']
  exact ⟨twins.store, twins.tags, calls⟩

theorem follows_lend {action action' : HostAction} (same : action.Retagged ρ action') :
    Follows (State.Twins ρ a c) ρ (Value.retag ρ) (Eval.lend action.run)
      (Eval.lend action'.run) := by
  rintro s t ⟨store, tags, calls⟩
  have start : s.lent.Twins ρ a c t.lent := ⟨store, tags⟩
  have more := action.nextTag_le_run s.lent
  have more' := action'.nextTag_le_run t.lent
  rcases same.run start with ⟨v, s', t', left, right, twins⟩ | ⟨e, s', t', left, right, twins⟩
  · rw [left] at more
    rw [right] at more'
    simp only [Eval.lend, left, right]
    exact .ok (State.twins_resume calls more more' twins)
  · rw [left] at more
    rw [right] at more'
    simp only [Eval.lend, left, right]
    exact .error (State.twins_resume calls more more' twins)

theorem follows_callPrimitive {host : Host} {n : Nat} (oblivious : host.Oblivious n)
    (injective : Function.Injective ρ) (fixes : ∀ t < n, ρ t = t) (p : Primitive)
    (caller : ContextId) (args : List Value) :
    Follows (State.Twins ρ a c) ρ (Value.retag ρ) (callPrimitive host p caller args)
      (callPrimitive host p caller (args.map (Value.retag ρ))) := by
  refine Follows.bind (f := id) ?_ fun _ => ?_
  · rintro s t ⟨store, tags, calls⟩
    refine .ok ⟨store, tags, ?_⟩
    simp [calls, Call.retag]
  · cases p with
    | builtin b =>
      simp only [Builtin.run_retag injective]
      exact follows_ofExcept _
    | host h =>
      obtain ⟨action, runs, same⟩ := oblivious
      simp only [runs]
      exact follows_lend (same ρ injective fixes h caller args)

/-- Evaluation in one state runs as in its twin. -/
theorem commutes_twins {host : Host} {n : Nat} (oblivious : host.Oblivious n)
    (injective : Function.Injective ρ) (fixes : ∀ t < n, ρ t = t) :
    Commutes host ρ (State.Twins ρ a c) where
  create parents := by
    rintro s t ⟨store, tags, calls⟩
    have id : t.store.size = s.store.size := store.size
    simp only [Eval.create, Store.create, id]
    exact .ok ⟨store.create parents, tags, calls⟩
  define id name v := by
    rintro s t ⟨store, tags, calls⟩
    exact .ok ⟨store.define id name v, tags, calls⟩
  resolve id name := by
    intro s t twins
    rw [resolve_apply, resolve_apply, twins.store.resolve?]
    cases s.store.resolve? id name with
    | none => exact .error twins
    | some v => exact .ok twins
  freshTag := by
    rintro s t ⟨store, tags, calls⟩
    have tag : ρ s.nextTag = t.nextTag := tags 0
    have given : Eval.freshTag t = .ok (ρ s.nextTag) { t with nextTag := t.nextTag + 1 } := by
      rw [tag]
      rfl
    rw [given]
    refine .ok ⟨store, fun k => ?_, calls⟩
    simpa [Nat.add_assoc] using tags (1 + k)
  call p caller args := follows_callPrimitive oblivious injective fixes p caller args

end

end ContextLisp
