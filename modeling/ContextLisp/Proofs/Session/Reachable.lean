/-
# Stores that a host can reach

A host makes contexts, with parents or without, seeds them with bindings, defines names in them,
opens the context of a call, and has forms and texts evaluated. Starting from no contexts at
all, and in any order, with any of these failing on the way, it only ever reaches well-formed
stores.

What a host hands in, values and contexts, must exist, and its primitives have to keep to this
too: they make contexts and bind names as a host does. Nothing is asked of programs. What
carries the proof is that each of these operations amounts to a sequence of sound changes, and
this is an invariant of evaluation, so an operation that fails halfway is covered as well.
-/

import ContextLisp.Proofs.Session.TextCalls
import ContextLisp.Proofs.StoreHistory

namespace ContextLisp

/-! ### Evaluation changes stores soundly -/

/-- The contexts that a value refers to exist in a store. -/
def Value.ScopedIn (store : Store) (v : Value) : Prop := ∀ c ∈ v.scopes, c < store.size

theorem Value.ScopedIn.later {before after : Store} {v : Value} (exist : v.ScopedIn before)
    (grows : before.size ≤ after.size) : v.ScopedIn after :=
  fun c scope => Nat.lt_of_lt_of_le (exist c scope) grows

theorem Value.scopedIn_iff {store : Store} {v : Value} :
    v.ScopedIn store ↔ v.EachCallable fun w => ∀ c ∈ w.scope?, c < store.size :=
  forall_mem_scopes_iff

/-- In a well-formed store, given values that refer to contexts of it, the host's primitives
change it soundly and give such values. -/
def Host.Sound (host : Host) : Prop :=
  ∀ h c args (store : HostState), store.WellFormed → c < store.size →
    (∀ v ∈ args, v.ScopedIn store) →
    match host h c args store with
    | .ok v after => store.Develops after ∧ v.ScopedIn after
    | .error _ after => store.Develops after

/-- From an original store on there were sound changes only, and values refer to contexts that
exist. -/
def scopeInvariant (origin : Store) : Invariant where
  state s := origin.Develops s.store
  value s v := v.ScopedIn s.store
  context s c := c < s.store.size
  error _ _ := True

variable {origin : Store} {host : Host} {start : State}

/-- A sound change keeps the invariant. -/
theorem scopeInvariant_change (change : Store.Change) {s : State}
    (developed : origin.Develops s.store) (sound : change.Sound s.store) :
    s.Before { s with store := change.apply s.store } ∧
      origin.Develops (change.apply s.store) := by
  have step := Store.Develops.of_change sound
  exact ⟨.of_store step.gains.grows, developed.trans step⟩

theorem keeps_callHost (formed : origin.WellFormed) (sound : host.Sound) {c : ContextId}
    (h : HostPrimitive) {args : List Value} (known : c < start.store.size)
    (values : ∀ v ∈ args, v.ScopedIn start.store) :
    Keeps (scopeInvariant origin) start (scopeInvariant origin).value
      (Eval.lend (host h c args)) := by
  intro s later developed
  have known' := Nat.lt_of_lt_of_le known later.contexts
  have values' : ∀ v ∈ args, v.ScopedIn s.store := fun v member =>
    (values v member).later later.contexts
  have changed := sound h c args s.lent (developed.wellFormed formed) known' values'
  simp only [Eval.lend]
  cases outcome : host h c args s.lent with
  | ok v after =>
    rw [outcome] at changed
    exact ⟨.of_resume changed.1.gains.grows, developed.trans changed.1, changed.2⟩
  | error e after =>
    rw [outcome] at changed
    exact ⟨.of_resume changed.gains.grows, developed.trans changed, trivial⟩

theorem scopeInvariant_coarse (origin : Store) : (scopeInvariant origin).Coarse where
  plain plain := Value.scopedIn_iff.mpr (Value.eachCallable_of_plain plain)
  bare _ := trivial

theorem scopeInvariant_sustained (formed : origin.WellFormed) (sound : host.Sound) :
    (scopeInvariant origin).Sustained host where
  value_later later exist := exist.later later.contexts
  context_later later known := Nat.lt_of_lt_of_le known later.contexts
  nil := (scopeInvariant_coarse origin).plain rfl
  symbol _ := (scopeInvariant_coarse origin).plain rfl
  list := by
    simp only [scopeInvariant, Value.scopedIn_iff]
    exact Value.eachCallable_list
  function exist :=
    ⟨fun c scope => exist c (List.mem_cons_of_mem _ scope), exist _ List.mem_cons_self⟩
  expander exist := exist
  create := by
    intro start parents known s later developed
    have kept := scopeInvariant_change (.create parents) developed
      fun p member => Nat.lt_of_lt_of_le (known p member) later.contexts
    refine ⟨kept.1, kept.2, ?_⟩
    show s.store.size < (s.store.create parents).2.size
    simp
  define := by
    intro start c name v known exist s later developed
    have kept := scopeInvariant_change (.define c name v) developed
      ⟨Nat.lt_of_lt_of_le known later.contexts, Value.ScopedIn.later exist later.contexts⟩
    exact ⟨kept.1, kept.2, trivial⟩
  resolve name _ := by
    intro s _ developed
    rw [resolve_apply]
    cases found : s.store.resolve? _ name with
    | none => exact ⟨.refl s, developed, trivial⟩
    | some v => exact ⟨.refl s, developed, (developed.wellFormed formed).resolve? found⟩
  freshTag start := by
    intro s _ developed
    refine ⟨.of_tag s, developed, ?_⟩
    intro params body c exist known
    exact ⟨List.forall_mem_cons.mpr ⟨known, exist⟩, exist⟩
  call := by
    intro start c p args _ known values
    cases p with
    | builtin b =>
      exact keeps_callBuiltin (fun _ _ => Value.scopedIn_iff)
        (fun later exist => Value.ScopedIn.later exist later.contexts)
        (keeps_record fun _ developed => developed)
        (fun _ _ _ _ => trivial) values host c
    | host h =>
      have recorded : Keeps (scopeInvariant origin) start (fun _ _ => True)
          (Eval.record ⟨.host h, args⟩) := keeps_record fun _ developed => developed
      apply recorded.bind
      intro s _ later _
      exact keeps_callHost formed sound h (Nat.lt_of_lt_of_le known later.contexts)
        fun v member => Value.ScopedIn.later (values v member) later.contexts
  rejection _ _ := trivial
  stackOverflow := trivial

/-! ### What a host does -/

/-- What a host does with contexts. -/
inductive HostCommand where
  | create (parents : List ContextId)
  | build (root : Option ContextId) (seed : Seed)
  | buildStandard (seed : Seed)
  | define (id : ContextId) (name value : Value)
  | defineAll (id : ContextId) (names values : List Value)
  | update (id : ContextId) (seed : Seed)
  | enter (callee : Value) (args : List Value) (caller : ContextId)
  | evaluate (setting : Option String) (form : Value) (id : ContextId)
  /-- Evaluate from any depth on, under any limit and with any room. -/
  | step (limit : Option Int) (room : Nat) (form : Value) (id : ContextId) (depth : Int)
  | callText (id : ContextId) (call : TextCall)

/-- The state that a command leaves behind, whether it succeeds or fails. -/
def HostCommand.leaves (host : Host) (s : State) : HostCommand → State
  | .create parents => stateAfter (Eval.create parents) s
  | .build root seed => stateAfter (buildContext root seed) s
  | .buildStandard seed => stateAfter (standardContext seed) s
  | .define id name value => stateAfter (Eval.defineNamed id name value) s
  | .defineAll id names values => stateAfter (Eval.defineAll id names values) s
  | .update id seed => stateAfter (Eval.defineEach id seed) s
  | .enter callee args caller => stateAfter (callee.enter args caller) s
  | .evaluate setting form id => stateAfter (ContextLisp.evaluate ⟨host, setting⟩ form id) s
  | .step limit room form id depth => stateAfter (evalWithin host limit room form id depth) s
  | .callText id call => stateAfter (call.run host id) s

/-- The contexts that a command names exist, and so do those that the values in it refer to. -/
def HostCommand.Sound (store : Store) : HostCommand → Prop
  | .create parents => ∀ p ∈ parents, p < store.size
  | .build root seed => (∀ id ∈ root, id < store.size) ∧ ∀ entry ∈ seed, entry.2.ScopedIn store
  | .buildStandard seed => ∀ entry ∈ seed, entry.2.ScopedIn store
  | .define id _ value => id < store.size ∧ value.ScopedIn store
  | .defineAll id _ values => id < store.size ∧ ∀ v ∈ values, v.ScopedIn store
  | .update id seed => id < store.size ∧ ∀ entry ∈ seed, entry.2.ScopedIn store
  | .enter callee args caller =>
    callee.ScopedIn store ∧ (∀ v ∈ args, v.ScopedIn store) ∧ caller < store.size
  | .evaluate _ form id => form.ScopedIn store ∧ id < store.size
  | .step _ _ form id _ => form.ScopedIn store ∧ id < store.size
  | .callText id _ => id < store.size

/-- A host gets from one state to the next by a command. -/
def HostStep (host : Host) (s t : State) : Prop :=
  ∃ command : HostCommand, command.Sound s.store ∧ t = command.leaves host s

section

theorem keeps_failure {α : Type} {Q : State → α → Prop} (e : Error) :
    Keeps (scopeInvariant origin) start Q (Eval.fail e) :=
  keeps_throw fun _ _ => trivial

variable (sustained : (scopeInvariant origin).Sustained host)
include sustained

theorem keeps_defineNamed {id : ContextId} (known : id < start.store.size) (name : Value)
    {value : Value} (exist : value.ScopedIn start.store) :
    Keeps (scopeInvariant origin) start (fun _ _ => True) (Eval.defineNamed id name value) := by
  have named : Keeps (scopeInvariant origin) start (fun _ _ => True) (Eval.nameOf name) := by
    unfold Eval.nameOf
    split
    · exact keeps_pure fun _ _ => trivial
    · exact keeps_failure _
  apply named.bind
  intro s name later _
  exact sustained.define name (sustained.context_later later known)
    (sustained.value_later later exist)

theorem keeps_defineEach {id : ContextId} {seed : List (Value × Value)}
    (known : id < start.store.size) (exist : ∀ entry ∈ seed, entry.2.ScopedIn start.store) :
    Keeps (scopeInvariant origin) start (fun _ _ => True) (Eval.defineEach id seed) := by
  induction seed generalizing start with
  | nil => exact keeps_pure fun _ _ => trivial
  | cons entry seed ih =>
    obtain ⟨first, others⟩ := List.forall_mem_cons.mp exist
    apply (keeps_defineNamed sustained known entry.1 first).bind
    intro s _ later _
    exact ih (sustained.context_later later known) fun entry member =>
      sustained.value_later later (others entry member)

theorem keeps_defineAll {id : ContextId} {names values : List Value}
    (known : id < start.store.size) (exist : ∀ v ∈ values, v.ScopedIn start.store) :
    Keeps (scopeInvariant origin) start (fun _ _ => True) (Eval.defineAll id names values) := by
  unfold Eval.defineAll
  split
  · exact keeps_defineEach sustained known fun entry member =>
      exist entry.2 (List.of_mem_zip member).2
  · exact keeps_failure _

theorem keeps_buildContext {root : Option ContextId} {seed : Seed}
    (known : ∀ id ∈ root, id < start.store.size)
    (exist : ∀ entry ∈ seed, entry.2.ScopedIn start.store) :
    Keeps (scopeInvariant origin) start (scopeInvariant origin).context
      (buildContext root seed) := by
  have seeded {s : State} {id : ContextId} (later : start.Before s) (known : id < s.store.size) :
      Keeps (scopeInvariant origin) s (scopeInvariant origin).context
        (Eval.defineEach id seed >>= fun _ => pure id) := by
    apply (keeps_defineEach sustained known fun entry member =>
      sustained.value_later later (exist entry member)).bind
    intro t _ later' _
    exact keeps_pure fun u later'' => sustained.context_later (later'.trans later'') known
  cases root with
  | some id => exact seeded (.refl start) (known id rfl)
  | none =>
    apply (sustained.create (by simp)).bind
    intro s id later known
    exact seeded later known

theorem keeps_standardContext {seed : Seed}
    (exist : ∀ entry ∈ seed, entry.2.ScopedIn start.store) :
    Keeps (scopeInvariant origin) start (scopeInvariant origin).context
      (standardContext seed) := by
  have builtins : ∀ entry ∈ Seed.builtins, entry.2.ScopedIn start.store := by
    intro entry member
    obtain ⟨b, _, rfl⟩ := List.mem_map.mp member
    have plain : (Value.primitive (.builtin b)).scopes = [] := rfl
    simp [Value.ScopedIn, plain]
  apply (keeps_buildContext sustained (by simp) builtins).bind
  intro s id later known
  apply keeps_buildContext sustained
  · rintro _ ⟨⟩
    exact known
  · exact fun entry member => sustained.value_later later (exist entry member)

theorem keeps_enter {callee : Value} {args : List Value} {caller : ContextId}
    (holds : callee.ScopedIn start.store) (exist : ∀ v ∈ args, v.ScopedIn start.store)
    (known : caller < start.store.size) :
    Keeps (scopeInvariant origin) start (scopeInvariant origin).context
      (callee.enter args caller) := by
  cases callee with
  | function tag params body scope =>
    apply sustained.extend _ params exist
    exact List.forall_mem_cons.mpr
      ⟨(sustained.function holds).2, List.forall_mem_singleton.mpr known⟩
  | expander tag params body =>
    exact sustained.extend (List.forall_mem_singleton.mpr known) params exist
  | _ => exact keeps_failure _

end

theorem Keeps.stateAfter {I : Invariant} {α : Type} {Q : State → α → Prop} {m : Eval α}
    {s : State} (kept : Keeps I s Q m) (holds : I.state s) : I.state (stateAfter m s) := by
  have outcome := kept s (.refl s) holds
  cases result : m s with
  | ok a t =>
    rw [result] at outcome
    rw [stateAfter_of_ok result]
    exact outcome.2.1
  | error e t =>
    rw [result] at outcome
    rw [stateAfter_of_error result]
    exact outcome.2.1

/-- Whatever a host does amounts to sound changes. -/
theorem develops_of_hostStep (sound : host.Sound) {s t : State} (formed : s.store.WellFormed)
    (step : HostStep host s t) : s.store.Develops t.store := by
  obtain ⟨command, exist, rfl⟩ := step
  have sustained := scopeInvariant_sustained formed sound
  have coarse := scopeInvariant_coarse s.store
  have still : (scopeInvariant s.store).state s := .refl s.store
  cases command with
  | create parents => exact (sustained.create exist).stateAfter still
  | build root seed => exact (keeps_buildContext sustained exist.1 exist.2).stateAfter still
  | buildStandard seed => exact (keeps_standardContext sustained exist).stateAfter still
  | define id name value =>
    exact (keeps_defineNamed sustained exist.1 name exist.2).stateAfter still
  | defineAll id names values =>
    exact (keeps_defineAll sustained exist.1 exist.2).stateAfter still
  | update id seed => exact (keeps_defineEach sustained exist.1 exist.2).stateAfter still
  | enter callee args caller =>
    exact (keeps_enter sustained exist.1 exist.2.1 exist.2.2).stateAfter still
  | evaluate setting form id =>
    exact (sustained.evaluate coarse setting 0 exist.1 exist.2).stateAfter still
  | step limit room form id depth =>
    exact (sustained.evalWithin (coarse.limits limit) room depth exist.1 exist.2).stateAfter still
  | callText id call => exact (sustained.textCall coarse call exist).stateAfter still

theorem develops_of_hostSteps (sound : host.Sound) {s t : State} (formed : s.store.WellFormed)
    (steps : Relation.ReflTransGen (HostStep host) s t) : s.store.Develops t.store := by
  induction steps with
  | refl => exact .refl s.store
  | tail _ step ih => exact ih.trans (develops_of_hostStep sound (ih.wellFormed formed) step)

/-- Whatever a host does, beginning without contexts, every store that it reaches is well
formed: parents were made before their children, so no context is its own ancestor, every
function in a bound value was made in a context that exists, and no context binds a name twice.
The store came about by sound changes, each of which led to a well-formed store, and the parents
of its contexts are those that they were made with. They never change afterwards. -/
theorem reachable_store_is_wellFormed (sound : host.Sound) {s : State}
    (reached : Relation.ReflTransGen (HostStep host) State.initial s) :
    s.store.WellFormed ∧
    (∀ id, ¬ Relation.TransGen s.store.HasParent id id) ∧
    (∃ history, Store.SoundHistory Store.empty history ∧ Store.empty.replay history = s.store ∧
      (∀ earlier, earlier <+: history → (Store.empty.replay earlier).WellFormed) ∧
      s.store.parentLists = Store.creations history) ∧
    ∀ t, Relation.ReflTransGen (HostStep host) s t →
      ∀ k < s.store.size, t.store.parentsOf k = s.store.parentsOf k := by
  have develops : Store.empty.Develops s.store :=
    develops_of_hostSteps sound Store.wellFormed_empty reached
  have formed := develops.wellFormed Store.wellFormed_empty
  obtain ⟨history, each, leads⟩ := develops
  refine ⟨formed, formed.not_ancestor, ⟨history, each, leads, ?_, ?_⟩, ?_⟩
  · rintro earlier ⟨rest, rfl⟩
    exact Store.wellFormed_empty.replay (Store.soundHistory_append.mp each).1
  · rw [← leads, Store.parentLists_replay]
    rfl
  · intro t later k within
    exact (develops_of_hostSteps sound formed later).gains.parents k within

theorem bindingHost_sound : bindingHost.Sound := by
  intro h c args store _ known exist
  rcases bindingHost_cases h c args store with ⟨name, value, given, bound⟩ | ⟨e, failed, _⟩
  · have sound : (Store.Change.define c name value).Sound store := ⟨known, exist value given⟩
    rw [bound]
    exact ⟨.of_change sound, nofun⟩
  · rw [failed]
    exact .refl store

/-- A host opens a context with the primitive of `bindingHost`. -/
def captureOpening : HostCommand :=
  .build none [(.symbol "bind", .primitive (.host ⟨"bind", "bind"⟩))]

/-- `(def f (fn (x) (f x)))`, which binds a function in the context that it refers to. -/
def captureDefinition : HostCommand :=
  .step none 4 (.list [.symbol "def", .symbol "f", .list [.symbol "fn", .list [.symbol "x"],
    .list [.symbol "f", .symbol "x"]]]) 0 0

/-- `(f (bind (quote z) f))`, which binds another name and then uses up all room. -/
def captureCall : HostCommand :=
  .step none 4 (.list [.symbol "f", .list [.symbol "bind",
    .list [.symbol "quote", .symbol "z"], .symbol "f"]]) 0 0

/-- The state after the three commands. -/
def captureState : State :=
  [captureOpening, captureDefinition, captureCall].foldl (HostCommand.leaves bindingHost)
    State.initial

theorem captureState_reached :
    Relation.ReflTransGen (HostStep bindingHost) State.initial captureState := by
  have opened : captureOpening.Sound State.initial.store :=
    ⟨nofun, List.forall_mem_singleton.mpr nofun⟩
  exact .tail (.tail (.single ⟨captureOpening, opened, rfl⟩)
    ⟨captureDefinition, ⟨nofun, by decide +kernel⟩, rfl⟩)
    ⟨captureCall, ⟨nofun, by decide +kernel⟩, rfl⟩

/-- A function that refers to the context that binds it, and a call of it that fails after it
made three contexts and bound a name. The store is well formed nevertheless. -/
theorem captureState_store_is_wellFormed :
    bindingHost.Sound ∧
    Relation.ReflTransGen (HostStep bindingHost) State.initial captureState ∧
    captureState.store.parentLists = [[], [0, 0], [0, 1], [0, 2]] ∧
    captureState.store.resolve? 3 "z" =
      some (.function 0 ["x"] (.list [.symbol "f", .symbol "x"]) 0) ∧
    captureState.store.WellFormed := by
  have reachable := reachable_store_is_wellFormed bindingHost_sound captureState_reached
  exact ⟨bindingHost_sound, captureState_reached, by cbv, by cbv, reachable.1⟩

end ContextLisp
