/-
# What errors say

An error that reports an unbound name tells where the search for it began, and an error that
reports a value which cannot be called shows the value and the form that called it. Both are
raised deep inside an evaluation, after other parts of it have made contexts and bound names,
and are looked at when all of it has ended. What they say is still so then: nothing happens
between the raising of an error and the end of the evaluation, and no context is ever removed.
-/

import ContextLisp.Proofs.Search
import ContextLisp.Proofs.Session.TextCalls

namespace ContextLisp

/-- What the error says is so, in a store. If a name is said to be unbound, the context where
the search began is there and no context that it reaches binds the name. If a value is said not
to be callable, it is no function, expander or primitive, and the form that is shown is a list
that has a head, and no special form. -/
def Error.IsTrueIn (store : Store) : Error → Prop
  | .unbound name start =>
    start < store.size ∧ ∀ k, store.Reaches start k → store.binds k name = false
  | .notCallable callee form =>
    callee.isCallable = false ∧
      ∃ head parts, form = some (.list (head :: parts)) ∧ head.specialForm? = none
  | _ => True

namespace Error

/-- An error that shows no value and tells of no search says nothing that could be wrong. -/
theorem IsBare.isTrueIn {e : Error} (bare : e.IsBare) (store : Store) : e.IsTrueIn store := by
  cases e with
  | unbound => cases bare.2
  | notCallable => cases bare.1
  | _ => trivial

theorem isTrueIn_settle {store : Store} {e : Error} (sound : e.IsTrueIn store) :
    e.settle.IsTrueIn store := by
  unfold settle
  split
  · exact sound
  · trivial

end Error

theorem Rejection.isTrueIn {e : Error} (rejection : Rejection e) (store : Store) :
    e.IsTrueIn store := by
  cases rejection with
  | notCallable parts uncallable ordinary => exact ⟨uncallable, _, parts, rfl, ordinary⟩
  | _ => trivial

theorem Builtin.Raises.isTrueIn {e : Error} (raises : Builtin.Raises e) (store : Store) :
    e.IsTrueIn store := by
  cases raises <;> trivial

/-! ### Computations whose errors are true -/

/-- There are no fewer contexts than at the beginning, and an error is true in the store that
comes with it. -/
def Honest (size : Nat) {α : Type} : EStateM.Result Error State α → Prop
  | .ok _ t => size ≤ t.store.size
  | .error e t => size ≤ t.store.size ∧ e.IsTrueIn t.store

/-- In a context that is there, the computation is honest. -/
def HonestIn : EvalRelation := fun c _ m _ =>
  ∀ s, c < s.store.size → Honest s.store.size (m s)

theorem Honest.of_le {α : Type} {size larger : Nat} (grown : size ≤ larger)
    {result : EStateM.Result Error State α} (honest : Honest larger result) :
    Honest size result := by
  cases result with
  | ok a t => exact Nat.le_trans grown honest
  | error e t => exact ⟨Nat.le_trans grown honest.1, honest.2⟩

theorem honest_bind {c : ContextId} {α β : Type} {m : Eval α} {f : α → Eval β} {s : State}
    (known : c < s.store.size) (first : Honest s.store.size (m s))
    (rest : ∀ a t, c < t.store.size → Honest t.store.size (f a t)) :
    Honest s.store.size ((m >>= f) s) := by
  simp only [bind, EStateM.bind]
  cases result : m s with
  | ok a t =>
    rw [result] at first
    exact (rest a t (Nat.lt_of_lt_of_le known first)).of_le first
  | error e t =>
    rw [result] at first
    exact first

theorem honestIn_fail (c : ContextId) {α : Type} {e : Error} (sound : ∀ store, e.IsTrueIn store) :
    HonestIn c α (Eval.fail e) (Eval.fail e) :=
  fun s _ => ⟨Nat.le_refl _, Error.isTrueIn_settle (sound s.store)⟩

/-- What is done outside the store is honest if its errors are bare. -/
theorem honestIn_ofExcept (c : ContextId) {α : Type} {x : Except Error α}
    (bare : ∀ e, x = .error e → e.IsBare) :
    HonestIn c α (Eval.ofExcept x) (Eval.ofExcept x) := by
  intro s _
  cases x with
  | ok a => exact Nat.le_refl _
  | error e => exact ⟨Nat.le_refl _, (bare e rfl).isTrueIn _⟩

theorem honestIn_reportOverflow {c : ContextId} {α : Type} {m : Eval α}
    (honest : HonestIn c α m m) : HonestIn c α (reportOverflow m) (reportOverflow m) := by
  intro s known
  have inner := honest s known
  rcases reportOverflow_cases m s with ⟨same, -⟩ | ⟨t, overflow, reported⟩
  · rwa [same]
  · rw [overflow] at inner
    rw [reported]
    exact ⟨inner.1, trivial⟩

/-- The primitives of the host take no context away. -/
def Host.KeepsContexts (host : Host) : Prop :=
  ∀ h c args (store : HostState), store.size ≤ (stateAfter (host h c args) store).size

/-- The primitives of the host report neither an unbound name nor a value that cannot be
called. -/
def Host.BlamesNoOne (host : Host) : Prop :=
  ∀ h c args store e after, host h c args store = .error e after →
    (∀ name start, e ≠ .unbound name start) ∧ ∀ callee form, e ≠ .notCallable callee form

theorem Host.BlamesNoOne.isTrueIn {host : Host} (silent : host.BlamesNoOne) {h : HostPrimitive}
    {c : ContextId} {args : List Value} {store after : HostState} {e : Error}
    (failed : host h c args store = .error e after) : e.IsTrueIn after := by
  obtain ⟨noName, noCall⟩ := silent h c args store e after failed
  cases e with
  | unbound name start => exact absurd rfl (noName name start)
  | notCallable callee form => exact absurd rfl (noCall callee form)
  | _ => trivial

theorem honestIn_callPrimitive {host : Host} (keeps : host.KeepsContexts)
    (silent : host.BlamesNoOne) (c : ContextId) (p : Primitive) (args : List Value) :
    HonestIn c Value (callPrimitive host p c args) (callPrimitive host p c args) := by
  intro s known
  refine honest_bind known (Nat.le_refl _) fun _ t _ => ?_
  cases p with
  | builtin b =>
    cases ran : b.run args with
    | ok v => simp only [ran]; exact Nat.le_refl _
    | error e => simp only [ran]; exact ⟨Nat.le_refl _, (Builtin.raises_of_run ran).isTrueIn _⟩
  | host h =>
    have kept := keeps h c args t.lent
    simp only [Eval.lend]
    cases acted : host h c args t.lent with
    | ok v store => rwa [stateAfter_of_ok acted] at kept
    | error e store =>
      rw [stateAfter_of_error acted] at kept
      exact ⟨kept, silent.isTrueIn acted⟩

section

variable {host : Host}

theorem respectful_honestIn (keeps : host.KeepsContexts) (silent : host.BlamesNoOne) :
    Respectful host HonestIn where
  pure _ _ _ := fun _ _ => Nat.le_refl _
  bind first rest := fun s known => honest_bind known (first s known) rest
  enter {c parents α f _} _ inside := fun s _ => by
    have grown : s.store.size + 1 = (s.store.create parents).2.size := by
      simp [Store.create, Store.size]
    have made := inside s.store.size { s with store := (s.store.create parents).2 }
      (grown ▸ Nat.lt_succ_self _)
    exact made.of_le (grown ▸ Nat.le_succ _)
  reject c _ _ rejection := honestIn_fail c rejection.isTrueIn
  define c name v := fun s _ => Nat.le_of_eq (by simp [Store.define, Store.size])
  resolve c name := fun s known => by
    rw [resolve_apply]
    cases missing : s.store.resolve? c name with
    | some v => exact Nat.le_refl _
    | none =>
      exact ⟨Nat.le_refl _, known, fun k reaches =>
        Store.binds_eq_false_of_resolve? reaches missing⟩
  freshTag _ := fun _ _ => Nat.le_refl _
  call := honestIn_callPrimitive keeps silent

theorem honestIn_evalWithin (keeps : host.KeepsContexts) (silent : host.BlamesNoOne)
    (limit : Option Int) (room : Nat) (depth : Int) :
    RelatedAt HonestIn depth (evalWithin host limit room) (evalWithin host limit room) := by
  induction room generalizing depth with
  | zero => exact fun e c s _ => ⟨Nat.le_refl _, trivial⟩
  | succ room ih =>
    apply (respectful_honestIn keeps silent).evalStep (ih (depth + 1))
    intro c
    unfold checkDepth
    split
    · exact fun s _ => Nat.le_refl _
    · split
      · exact honestIn_fail c fun _ => trivial
      · exact fun s _ => Nat.le_refl _

theorem honestIn_evaluate (keeps : host.KeepsContexts) (silent : host.BlamesNoOne)
    (setting : Option String) (e : Value) (c : ContextId) :
    HonestIn c Value (evaluate ⟨host, setting⟩ e c) (evaluate ⟨host, setting⟩ e c) := by
  apply (respectful_honestIn keeps silent).bind
  · exact honestIn_ofExcept c fun _ refused => DepthLimit.isBare_of_ofSetting refused
  · intro limit
    exact honestIn_reportOverflow (honestIn_evalWithin keeps silent limit stackRoom 0 e c)

theorem honestIn_textCall (keeps : host.KeepsContexts) (silent : host.BlamesNoOne)
    (call : TextCall) (c : ContextId) :
    HonestIn c (List Value) (call.run host c) (call.run host c) :=
  (respectful_honestIn keeps silent).textCall (honestIn_evaluate keeps silent call.depthSetting)
    (honestIn_ofExcept c fun _ refused => TextCall.isBare_of_forms refused)

end

/-- Errors tell the truth of the state in which an evaluation ends, of an expression under any
limits or of a text. The context in which an unbound name was looked up is there, and of the
contexts that it reaches through parents none binds the name, whatever was bound and made
before the evaluation failed and wherever in it that was. A value that was not callable is no
function, expander or primitive, and it was the head of a list with at least that one item,
which no special form heads. -/
theorem errors_are_true_where_evaluation_ends {host : Host} (keeps : host.KeepsContexts)
    (silent : host.BlamesNoOne) {c : ContextId} {s t : State} (known : c < s.store.size)
    {e : Error}
    (failed : (∃ form limit room depth, evalWithin host limit room form c depth s = .error e t) ∨
      (∃ form setting, evaluate ⟨host, setting⟩ form c s = .error e t) ∨
      ∃ call : TextCall, call.run host c s = .error e t) :
    (∀ name start, e = .unbound name start → start < t.store.size ∧
      ∀ k, t.store.Reaches start k → t.store.binds k name = false) ∧
    ∀ callee form, e = .notCallable callee form → callee.isCallable = false ∧
      ∃ head parts, form = some (.list (head :: parts)) ∧ head.specialForm? = none := by
  have sound : e.IsTrueIn t.store := by
    obtain ⟨form, limit, room, depth, failed⟩ | ⟨form, setting, failed⟩ | ⟨call, failed⟩ := failed
    · have honest := honestIn_evalWithin keeps silent limit room depth form c s known
      exact (failed ▸ honest).2
    · have honest := honestIn_evaluate keeps silent setting form c s known
      exact (failed ▸ honest).2
    · have honest := honestIn_textCall keeps silent call c s known
      exact (failed ▸ honest).2
  constructor
  · rintro name start rfl
    exact sound
  · rintro callee form rfl
    exact sound

theorem bindingHost_keepsContexts : bindingHost.KeepsContexts := fun h c args store =>
  (bindingHost_writesHome h c args store).writesOnly.grows

theorem bindingHost_blamesNoOne : bindingHost.BlamesNoOne := by
  intro h c args store e after failed
  rcases args with _ | ⟨given, _ | ⟨value, rest⟩⟩
  · cases failed
    simp
  · cases failed
    simp
  · simp only [bindingHost] at failed
    split at failed
    · cases failed
    · cases failed
      unfold Error.settle
      split <;> simp

/-- The name `z` is looked up in the body of a function, after the host bound `w` where the
function was called. -/
def unboundText : TextCall := ⟨"((fn (x) (z x)) (bind (quote w) 2))", false, none⟩

/-- In a binding form, `b` is nil and is called. -/
def uncallableText : TextCall := ⟨"(def a 1) (let (b nil) (b a))", true, none⟩

set_option maxRecDepth 4000 in
/-- The context of the function's body is the third one, and neither binds `z` nor inherits it.
The text with the binding form fails for its last list. -/
theorem unbound_and_uncallable_texts :
    (∃ t, unboundText.run bindingHost 1 bindingState = .error (.unbound "z" 2) t ∧
      2 < t.store.size ∧ ∀ k, t.store.Reaches 2 k → t.store.binds k "z" = false) ∧
    ∃ form t, uncallableText.run bindingHost 1 bindingState =
        .error (.notCallable .nil form) t ∧
      ∃ head parts, form = some (.list (head :: parts)) ∧ head.specialForm? = none := by
  have truthful {e : Error} {t : State} := errors_are_true_where_evaluation_ends (e := e) (t := t)
    bindingHost_keepsContexts bindingHost_blamesNoOne (c := 1) (s := bindingState) (by decide)
  have unbound : unboundText.run bindingHost 1 bindingState =
      .error (.unbound "z" 2) (stateAfter (unboundText.run bindingHost 1) bindingState) := by cbv
  have uncallable : uncallableText.run bindingHost 1 bindingState =
      .error (.notCallable .nil (some (.list [.symbol "b", .symbol "a"])))
        (stateAfter (uncallableText.run bindingHost 1) bindingState) := by cbv
  exact ⟨⟨_, unbound, (truthful (.inr (.inr ⟨_, unbound⟩))).1 _ _ rfl⟩,
    _, _, uncallable, ((truthful (.inr (.inr ⟨_, uncallable⟩))).2 _ _ rfl).2⟩

end ContextLisp
