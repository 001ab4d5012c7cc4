/-
# Names bound in the root

A session evaluates all its texts in one root context. The body of a function runs in a context
with two parents: the one where the function was made, and the caller's. The first may have
nothing to do with the session, since a host can supply functions that it made elsewhere, and
closures outlive the calls that made them. The second leads back to the root, call by call. So
every context in which a form is evaluated reaches the root through its parents, every search
comes to the root in the end, and a name that the root binds is found.

That forms are evaluated in no other contexts is put in terms of an evaluator that does
something else there, whatever it is: in the root, no difference can be told.
-/

import ContextLisp.Proofs.Session.TextCalls
import ContextLisp.Proofs.StoreHistory

namespace ContextLisp

/-! ### Computations below the root -/

/-- Begun in a state, the computation only adds to the store, and if it finds a name unbound,
the root does not bind it. -/
structure Rooted (root : ContextId) {α : Type} (m : Eval α) (s : State) : Prop where
  gains : Store.Gains s.store (stateAfter m s).store
  unbound : ∀ name start t, m s = .error (.unbound name start) t → t.store.binds root name = false

section

variable {root : ContextId} {α β : Type} {m : Eval α} {s t : State}

theorem rooted_of_ok {a : α} (returned : m s = .ok a t) (gains : Store.Gains s.store t.store) :
    Rooted root m s where
  gains := (stateAfter_of_ok returned).symm ▸ gains
  unbound name start u failed := by
    rw [returned] at failed
    cases failed

/-- A failure for another reason says nothing of names. -/
theorem rooted_of_error {e : Error} (failed : m s = .error e t) (other : e.searchedFrom? = none)
    (gains : Store.Gains s.store t.store) : Rooted root m s where
  gains := (stateAfter_of_error failed).symm ▸ gains
  unbound name start u unbound := by
    rw [failed] at unbound
    cases unbound
    cases other

theorem Rooted.gains_of_ok {a : α} (rooted : Rooted root m s) (returned : m s = .ok a t) :
    Store.Gains s.store t.store :=
  stateAfter_of_ok returned ▸ rooted.gains

theorem Rooted.gains_of_error {e : Error} (rooted : Rooted root m s)
    (failed : m s = .error e t) : Store.Gains s.store t.store :=
  stateAfter_of_error failed ▸ rooted.gains

theorem Rooted.bind {f : α → Eval β} (first : Rooted root m s)
    (rest : ∀ a t, m s = .ok a t → Store.Gains s.store t.store → Rooted root (f a) t) :
    Rooted root (m >>= f) s := by
  cases result : m s with
  | ok a t =>
    have gained := first.gains_of_ok result
    have next := rest a t result gained
    refine ⟨?_, fun name start u failed => next.unbound name start u ?_⟩
    · rw [stateAfter_bind_of_ok f result]
      exact gained.trans next.gains
    · simpa only [Bind.bind, EStateM.bind, result] using failed
  | error e t =>
    refine ⟨?_, fun name start u failed => first.unbound name start u ?_⟩
    · rw [stateAfter_bind_of_error f result]
      exact first.gains_of_error result
    · simp only [Bind.bind, EStateM.bind, result] at failed
      cases failed
      exact result

end

/-- In a context that reaches the root, two computations do the same, and are rooted. -/
def RootedAlike (root : ContextId) : EvalRelation := fun c _ m₁ m₂ =>
  ∀ s, s.store.Reaches c root → m₁ s = m₂ s ∧ Rooted root m₂ s

/-- Whatever the host's primitives do to a store comes down to making contexts and binding
names. -/
def Host.MakesChanges (host : Host) : Prop :=
  ∀ h c args (store : HostState),
    ∃ changes, (stateAfter (host h c args) store).toStore = store.replay changes

/-- No primitive of the host reports an unbound name. -/
def Host.FindsNames (host : Host) : Prop :=
  ∀ h c args store name start after, host h c args store ≠ .error (.unbound name start) after

theorem rooted_of_bare {root : ContextId} {α : Type} {m : Eval α} {s : State} {e : Error}
    (failed : m s = .error e s) (bare : e.IsBare) : Rooted root m s :=
  rooted_of_error failed bare.2 (.refl _)

theorem rooted_callPrimitive {host : Host} (adds : host.MakesChanges) (silent : host.FindsNames)
    (root c : ContextId) (p : Primitive) (args : List Value) (s : State) :
    Rooted root (callPrimitive host p c args) s := by
  have recorded : Rooted root (Eval.record ⟨p, args⟩) s := rooted_of_ok rfl (.refl _)
  apply recorded.bind
  intro _ t _ _
  cases p with
  | builtin b =>
    cases ran : b.run args with
    | ok v => exact rooted_of_ok (by simp only [ran]; rfl) (.refl _)
    | error e =>
      exact rooted_of_error (by simp only [ran]; rfl) (Builtin.values_of_run_error ran).2 (.refl _)
  | host h =>
    obtain ⟨changes, left⟩ := adds h c args t.lent
    have gains : Store.Gains t.store (stateAfter (host h c args) t.lent).toStore :=
      left ▸ Store.gains_replay t.store changes
    cases outcome : host h c args t.lent with
    | ok v after =>
      rw [stateAfter_of_ok outcome] at gains
      exact rooted_of_ok (by simp only [Eval.lend, outcome]; rfl) gains
    | error e after =>
      rw [stateAfter_of_error outcome] at gains
      refine rooted_of_error (by simp only [Eval.lend, outcome]; rfl) ?_ gains
      cases e with
      | unbound name start => exact absurd outcome (silent h c args _ name start after)
      | _ => rfl

/-- A new context reaches the root through the one that it is made in, so what runs there is
rooted too. -/
theorem respectful_rootedAlike {host : Host} (adds : host.MakesChanges)
    (silent : host.FindsNames) (root : ContextId) : Respectful host (RootedAlike root) where
  pure _ _ _ := fun s _ => ⟨rfl, rooted_of_ok rfl (.refl _)⟩
  bind {c α β m₁ m₂ f₁ f₂} first rest := fun s reaches => by
    obtain ⟨same, rooted⟩ := first s reaches
    have next : ∀ a t, Store.Gains s.store t.store → f₁ a t = f₂ a t ∧ Rooted root (f₂ a) t :=
      fun a t gains => rest a t (gains.reaches reaches)
    refine ⟨?_, rooted.bind fun a t _ gains => (next a t gains).2⟩
    simp only [Bind.bind, EStateM.bind, same]
    cases result : m₂ s with
    | ok a t => exact (next a t (rooted.gains_of_ok result)).1
    | error e t => rfl
  enter {c parents α f₁ f₂} inherits inside := fun s reaches => by
    have made : Rooted root (Eval.create parents) s :=
      rooted_of_ok rfl (.create s.store parents)
    let entered : State := { s with store := (s.store.create parents).2 }
    have child : entered.store.HasParent s.store.size c := by
      rw [Store.HasParent, Store.parentsOf_create, if_pos rfl]
      exact inherits
    have next := inside s.store.size entered
      (.head child ((Store.Gains.create s.store parents).reaches reaches))
    refine ⟨next.1, made.bind ?_⟩
    rintro _ _ ⟨⟩ _
    exact next.2
  reject _ _ _ rejection := fun s _ =>
    ⟨rfl, rooted_of_error rfl rejection.searchedFrom?_eq_none (.refl _)⟩
  define c name v := fun s _ => ⟨rfl, rooted_of_ok rfl (.define s.store c name v)⟩
  resolve c name := fun s reaches => by
    refine ⟨rfl, ?_⟩
    cases found : s.store.resolve? c name with
    | some v => exact rooted_of_ok (by rw [resolve_apply, found]) (.refl _)
    | none =>
      have failed : Eval.resolve c name s = .error (.unbound name c) s := by
        rw [resolve_apply, found]
      refine ⟨(stateAfter_of_error failed).symm ▸ .refl s.store, ?_⟩
      intro other start t unbound
      rw [failed] at unbound
      cases unbound
      exact Store.binds_eq_false_of_resolve? reaches found
  freshTag _ := fun s _ => ⟨rfl, rooted_of_ok rfl (.refl _)⟩
  call c p args := fun s _ => ⟨rfl, rooted_callPrimitive adds silent root c p args s⟩

/-! ### Evaluation in contexts that reach the root -/

/-- Evaluation that does as evaluators do only in contexts that reach the root, and elsewhere
what `outside` does. -/
def evalInside (host : Host) (limit : Option Int) (root : ContextId) (outside : Evaluator) :
    Nat → Evaluator
  | 0 => fun _ _ _ => throw .stackOverflow
  | room + 1 => fun e c depth s =>
    if root ∈ s.store.searchOrder c then
      evalStep host limit (evalInside host limit root outside room) e c depth s
    else outside e c depth s

/-- The depth check knows nothing of contexts. -/
theorem rootedAlike_checkDepth (root : ContextId) (limit : Option Int) (depth : Int)
    (c : ContextId) :
    RootedAlike root c Unit (checkDepth limit depth) (checkDepth limit depth) := by
  intro s _
  refine ⟨rfl, ?_⟩
  unfold checkDepth
  split
  · exact rooted_of_ok rfl (.refl _)
  · split
    · exact rooted_of_bare rfl (Error.IsBare.settle ⟨rfl, rfl⟩)
    · exact rooted_of_ok rfl (.refl _)

/-- Evaluation that begins below the root stays there. -/
theorem rootedAlike_evalInside {host : Host} (adds : host.MakesChanges)
    (silent : host.FindsNames) (limit : Option Int) (root : ContextId) (outside : Evaluator)
    (room : Nat) (depth : Int) :
    RelatedAt (RootedAlike root) depth (evalInside host limit root outside room)
      (evalWithin host limit room) := by
  induction room generalizing depth with
  | zero => exact fun e c s _ => ⟨rfl, rooted_of_bare rfl ⟨rfl, rfl⟩⟩
  | succ room ih =>
    intro e c s reaches
    have step := (respectful_rootedAlike adds silent root).evalStep (ih (depth + 1))
      (rootedAlike_checkDepth root limit depth) e c s reaches
    have inside : evalInside host limit root outside (room + 1) e c depth s =
        evalStep host limit (evalInside host limit root outside room) e c depth s :=
      if_pos ((s.store.mem_searchOrder_iff c root).mpr reaches)
    exact ⟨inside.trans step.1, step.2⟩

theorem rootedAlike_evalWithin {host : Host} (adds : host.MakesChanges)
    (silent : host.FindsNames) (limit : Option Int) (root : ContextId) (room : Nat)
    (depth : Int) :
    RelatedAt (RootedAlike root) depth (evalWithin host limit room)
      (evalWithin host limit room) := fun e c s reaches =>
  ⟨rfl, (rootedAlike_evalInside adds silent limit root (evalWithin host limit room) room depth
    e c s reaches).2⟩

/-! ### Calls in the root -/

section

variable {root : ContextId}

theorem RootedAlike.ofExcept {α : Type} {x : Except Error α} (c : ContextId)
    (failed : ∀ e, x = .error e → e.IsBare) :
    RootedAlike root c α (Eval.ofExcept x) (Eval.ofExcept x) := by
  intro s _
  refine ⟨rfl, ?_⟩
  cases x with
  | ok a => exact rooted_of_ok rfl (.refl _)
  | error e => exact rooted_of_bare rfl (failed e rfl)

theorem Rooted.reportOverflow {α : Type} {m : Eval α} {s : State} (rooted : Rooted root m s) :
    Rooted root (reportOverflow m) s := by
  rcases reportOverflow_cases m s with ⟨same, -⟩ | ⟨t, overflow, reported⟩
  · exact ⟨by simpa only [stateAfter, same] using rooted.gains, same ▸ rooted.unbound⟩
  · exact rooted_of_error reported rfl (rooted.gains_of_error overflow)

variable {host : Host} (adds : host.MakesChanges) (silent : host.FindsNames)
include adds silent

theorem rootedAlike_evaluate (setting : Option String) (e : Value) (c : ContextId) :
    RootedAlike root c Value (evaluate ⟨host, setting⟩ e c) (evaluate ⟨host, setting⟩ e c) := by
  have respects := respectful_rootedAlike adds silent root
  apply respects.bind (.ofExcept c fun _ refused => DepthLimit.isBare_of_ofSetting refused)
  intro limit s reaches
  have within := rootedAlike_evalWithin adds silent limit root stackRoom 0 e c s reaches
  exact ⟨rfl, within.2.reportOverflow⟩

/-- A call in a context that reaches the root is rooted. -/
theorem rootedAlike_textCall (call : TextCall) (c : ContextId) :
    RootedAlike root c (List Value) (call.run host c) (call.run host c) :=
  (respectful_rootedAlike adds silent root).textCall
    (rootedAlike_evaluate adds silent call.depthSetting)
    (.ofExcept c fun _ refused => TextCall.isBare_of_forms refused)

/-- Calls only add to the store, in whatever contexts they are made. -/
theorem gains_after (s : State) (calls : List (ContextId × TextCall)) :
    Store.Gains s.store (s.after host calls).store := by
  induction calls generalizing s with
  | nil => exact .refl s.store
  | cons request calls ih =>
    have step := (rootedAlike_textCall adds silent request.2 request.1 s .refl).2.gains
    exact step.trans (ih _)

end

/-! ### The opening of a session -/

theorem ok_of_bind {α β : Type} {m : Eval α} {f : α → Eval β} {s u : State} {b : β}
    (returned : (m >>= f) s = .ok b u) : ∃ a t, m s = .ok a t ∧ f a t = .ok b u := by
  simp only [Bind.bind, EStateM.bind] at returned
  cases result : m s with
  | ok a t =>
    rw [result] at returned
    exact ⟨a, t, rfl, returned⟩
  | error e t =>
    rw [result] at returned
    cases returned

/-- Once pairs are entered in a context, it binds their names. -/
theorem binds_of_defineEach {id : ContextId} {pairs : List (Value × Value)} {s t : State}
    (within : id < s.store.size) (returned : Eval.defineEach id pairs s = .ok () t) :
    Store.Gains s.store t.store ∧
      ∀ entry ∈ pairs, ∀ name ∈ entry.1.bindingName?, t.store.binds id name = true := by
  induction pairs generalizing s with
  | nil =>
    cases returned
    exact ⟨.refl _, nofun⟩
  | cons entry pairs ih =>
    obtain ⟨_, between, first, rest⟩ := ok_of_bind returned
    simp only [Eval.defineNamed, Eval.nameOf] at first
    split at first
    · rename_i name named
      cases first
      have gains := Store.Gains.define s.store id name entry.2
      obtain ⟨later, others⟩ := ih (Nat.lt_of_lt_of_le within gains.grows) rest
      refine ⟨gains.trans later, List.forall_mem_cons.mpr ⟨fun other same => ?_, others⟩⟩
      obtain rfl : name = other := Option.some.inj (named.symm.trans same)
      exact later.binds id name (Store.binds_define_self within name entry.2)
    · cases first

/-- What seeding does, and in which context. -/
theorem of_buildContext {origin : Option ContextId} {id : ContextId} {seed : Seed} {s t : State}
    (returned : buildContext origin seed s = .ok id t) :
    match origin with
    | some root => id = root ∧ Eval.defineEach root seed s = .ok () t
    | none => id = s.store.size ∧
      Eval.defineEach id seed { s with store := (s.store.create []).2 } = .ok () t := by
  have seeding {c : ContextId} {s : State}
      (returned : (Eval.defineEach c seed >>= fun _ => pure c) s = .ok id t) :
      id = c ∧ Eval.defineEach c seed s = .ok () t := by
    obtain ⟨_, _, seeded, same⟩ := ok_of_bind returned
    cases same
    exact ⟨rfl, seeded⟩
  cases origin with
  | some root => exact seeding returned
  | none =>
    obtain ⟨rfl, seeded⟩ := seeding (c := s.store.size) returned
    exact ⟨rfl, seeded⟩

/-- A session opens with the builtins and with all names of its seed. -/
theorem binds_of_standardContext {seed : Seed} {s t : State} {root : ContextId}
    (opened : standardContext seed s = .ok root t) :
    (∀ b ∈ Builtin.all, t.store.binds root b.symbol = true) ∧
      ∀ entry ∈ seed, ∀ name ∈ entry.1.bindingName?, t.store.binds root name = true := by
  obtain ⟨id, between, standard, seeded⟩ := ok_of_bind opened
  obtain ⟨rfl, added⟩ := of_buildContext seeded
  obtain ⟨rfl, builtins⟩ := of_buildContext standard
  obtain ⟨grown, standard⟩ := binds_of_defineEach (by simp) builtins
  obtain ⟨gains, seeds⟩ := binds_of_defineEach (Nat.lt_of_lt_of_le (by simp) grown.grows) added
  refine ⟨fun b member => gains.binds _ _ ?_, seeds⟩
  exact standard _ (List.mem_map_of_mem member) b.symbol rfl

/-- The builtins and the names of the seed are bound in the root when a session opens. A name
that the root binds at any time is bound in it ever after, and no later call in the session
reports it unbound; nor does a call report a name that it bound in the root itself. All forms
are evaluated in contexts that reach the root: it makes no difference what would be done with a
form in any other. -/
theorem root_names_stay_bound {host : Host} (adds : host.MakesChanges) (finds : host.FindsNames)
    {seed : Seed} {s₀ s₁ : State} {root : ContextId}
    (opened : standardContext seed s₀ = .ok root s₁) :
    (∀ b ∈ Builtin.all, s₁.store.binds root b.symbol = true) ∧
    (∀ entry ∈ seed, ∀ name ∈ entry.1.bindingName?, s₁.store.binds root name = true) ∧
    (∀ earlier between : List (ContextId × TextCall), ∀ name,
      (s₁.after host earlier).store.binds root name = true →
      ((s₁.after host earlier).after host between).store.binds root name = true ∧
      ∀ (call : TextCall) start u,
        call.run host root ((s₁.after host earlier).after host between) ≠
          .error (.unbound name start) u) ∧
    (∀ (call : TextCall) s name start u, call.run host root s = .error (.unbound name start) u →
      u.store.binds root name = false) ∧
    ∀ outside limit room e depth s,
      evalInside host limit root outside room e root depth s =
        evalWithin host limit room e root depth s := by
  obtain ⟨builtins, seeds⟩ := binds_of_standardContext opened
  have rooted (call : TextCall) (s : State) : Rooted root (call.run host root) s :=
    (rootedAlike_textCall adds finds call root s .refl).2
  refine ⟨builtins, seeds, ?_, fun call s => (rooted call s).unbound, ?_⟩
  · intro earlier between name bound
    have still := (gains_after adds finds (s₁.after host earlier) between).binds root name bound
    refine ⟨still, fun call start u failed => ?_⟩
    -- The call itself only adds, so the name would be bound where it is said not to be.
    have after := ((rooted call _).gains_of_error failed).binds root name still
    rw [(rooted call _).unbound name start u failed] at after
    cases after
  · intro outside limit room e depth s
    exact (rootedAlike_evalInside adds finds limit root outside room depth e root s .refl).1

theorem bindingHost_makesChanges : bindingHost.MakesChanges := by
  intro h c args store
  rcases bindingHost_cases h c args store with ⟨name, value, _, bound⟩ | ⟨e, failed, _⟩
  · exact ⟨[.define c name value], congrArg HostState.toStore (stateAfter_of_ok bound)⟩
  · exact ⟨[], congrArg HostState.toStore (stateAfter_of_error failed)⟩

theorem bindingHost_findsNames : bindingHost.FindsNames := by
  intro h c args store name start after unbound
  rcases bindingHost_cases h c args store with ⟨_, _, _, bound⟩ | ⟨e, failed, other⟩
  · rw [bound] at unbound
    cases unbound
  · rw [failed] at unbound
    cases unbound
    exact other name start rfl

/-- A host has made an empty context, and a function of it that asks for a name. -/
def strangerState : State := ⟨⟨#[⟨[], []⟩]⟩, 1, #[]⟩

/-- It opens a session with that function and with a primitive that binds names. -/
def strangerSeed : Seed :=
  [(.symbol "ask", .function 0 [] (.symbol "late") 0),
    (.text "bind", .primitive (.host ⟨"bind", "bind"⟩))]

/-- The session after it opened. -/
def strangerOpened : State := stateAfter (standardContext strangerSeed) strangerState

/-- The function, called in the session. -/
def strangerCall : TextCall := ⟨"(let () (ask))", true, none⟩

/-- The name, bound in the session's root by the primitive; the text goes on and fails. -/
def strangerBinding : TextCall := ⟨"(bind (quote late) 7) (bind)", true, none⟩

set_option maxRecDepth 4000 in
/-- Called from the body of a `let`, the function does not find the name at first. Once the
root binds it, no call of the session reports it unbound. -/
theorem stranger_finds_names_of_the_root :
    bindingHost.MakesChanges ∧ bindingHost.FindsNames ∧
    standardContext strangerSeed strangerState = .ok 1 strangerOpened ∧
    (∃ t, strangerCall.run bindingHost 1 strangerOpened = .error (.unbound "late" 3) t) ∧
    (strangerOpened.after bindingHost [(1, strangerBinding)]).store.binds 1 "late" = true ∧
    ∀ start u, strangerCall.run bindingHost 1
      (strangerOpened.after bindingHost [(1, strangerBinding)]) ≠ .error (.unbound "late" start) u := by
  have opened : standardContext strangerSeed strangerState = .ok 1 strangerOpened := rfl
  have missing : strangerCall.run bindingHost 1 strangerOpened = .error (.unbound "late" 3)
      (stateAfter (strangerCall.run bindingHost 1) strangerOpened) := by cbv
  have bound : (strangerOpened.after bindingHost [(1, strangerBinding)]).store.binds 1 "late" =
      true := by decide +kernel
  have names := root_names_stay_bound bindingHost_makesChanges bindingHost_findsNames opened
  exact ⟨bindingHost_makesChanges, bindingHost_findsNames, opened, ⟨_, missing⟩, bound,
    (names.2.2.1 [(1, strangerBinding)] [] "late" bound).2 strangerCall⟩

end ContextLisp
