/-
# Isolation of sessions

All sessions of a process share one store. What can be got at from the root of a session are the
contexts that lead on from it: to parents, and through functions in bound values to where these
were made. If two roots have no context in common in this way, nothing that is evaluated in the
one touches, or gives away, a context of the other, and it stays so whatever is evaluated in
either of them.

The argument looks at a region: the contexts of one root, and all that are yet to be made. A
region is closed if nothing in it leads out. Evaluation inside a closed region makes and changes
contexts there only and comes by no value that refers to a context outside, so it leaves the
region closed. Host primitives could break out, so none may be within reach.
-/

import ContextLisp.Proofs.Search
import ContextLisp.Proofs.Session.TextCalls

namespace ContextLisp

/-! ### Closed regions of a store -/

/-- Whatever can be called in the value is no primitive of a host and, if it is a function, was
made in an existing context of the region. -/
def Value.Confined (region : ContextId → Prop) (size : Nat) (v : Value) : Prop :=
  v.EachCallable fun w => w.isHostPrimitive = false ∧ ∀ c ∈ w.scope?, region c ∧ c < size

namespace Value.Confined

variable {region : ContextId → Prop} {size : Nat} {v : Value}

theorem later {larger : Nat} (confined : v.Confined region size) (grows : size ≤ larger) :
    v.Confined region larger :=
  Value.EachCallable.imp confined fun _ ⟨hostless, made⟩ =>
    ⟨hostless, fun c scope => ⟨(made c scope).1, Nat.lt_of_lt_of_le (made c scope).2 grows⟩⟩

theorem scopes (confined : v.Confined region size) : ∀ c ∈ v.scopes, region c ∧ c < size := by
  intro c scope
  obtain ⟨w, inside, made⟩ := Value.mem_scopes_iff.mp scope
  exact (confined w inside).2 c made

theorem hostless (confined : v.Confined region size) :
    v.EachCallable fun w => w.isHostPrimitive = false :=
  Value.EachCallable.imp confined fun _ both => both.1

end Value.Confined

/-- The contexts of an error that shows confined values only. -/
theorem Error.contexts_confined {region : ContextId → Prop} {size : Nat} {e : Error}
    (silent : e.searchedFrom? = none) (values : ∀ v ∈ e.values, v.Confined region size) :
    ∀ c ∈ e.contexts, region c ∧ c < size := by
  intro c refers
  rcases mem_contexts_iff.mp refers with searched | ⟨v, shown, scope⟩
  · rw [silent] at searched
    cases searched
  · exact (values v shown).scopes c scope

namespace Store

/-- Contexts of the region have existing parents in the region and bind confined values. -/
structure ClosedOn (store : Store) (region : ContextId → Prop) : Prop where
  parents : ∀ k, region k → ∀ p ∈ store.parentsOf k, region p ∧ p < store.size
  values : ∀ k, region k → ∀ entry ∈ store.bindingsOf k, entry.2.Confined region store.size

namespace ClosedOn

variable {store : Store} {region : ContextId → Prop}

theorem create (closed : store.ClosedOn region) {parents : List ContextId}
    (inside : ∀ p ∈ parents, region p ∧ p < store.size) :
    (store.create parents).2.ClosedOn region where
  parents k within p member := by
    rw [parentsOf_create] at member
    have known : region p ∧ p < store.size := by
      split at member
      · exact inside p member
      · exact closed.parents k within p member
    exact ⟨known.1, by simpa using Nat.lt_succ_of_lt known.2⟩
  values k within entry member := by
    rw [bindingsOf_create] at member
    exact (closed.values k within entry member).later (by simp)

theorem define (closed : store.ClosedOn region) (id : ContextId) (name : String) {value : Value}
    (confined : value.Confined region store.size) :
    (store.define id name value).ClosedOn region where
  parents k within p member := by
    rw [parentsOf_define] at member
    rw [size_define]
    exact closed.parents k within p member
  values k within entry member := by
    rw [size_define]
    rcases mem_bindingsOf_define member with old | new
    · exact closed.values k within entry old
    · exact new ▸ confined

/-- Parents do not lead out. -/
theorem reaches (closed : store.ClosedOn region) {c k : ContextId} (within : region c)
    (path : store.Reaches c k) : region k := by
  induction path with
  | refl => exact within
  | tail _ parent ih => exact (closed.parents _ ih _ parent).1

/-- A search that begins in the region stays there. -/
theorem exists_home (closed : store.ClosedOn region) {c : ContextId} (within : region c)
    {name : String} {v : Value} (found : store.resolve? c name = some v) :
    ∃ home, region home ∧ (name, v) ∈ store.bindingsOf home := by
  obtain ⟨home, hit, bound⟩ := Option.bind_eq_some_iff.mp found
  exact ⟨home, closed.reaches within (reaches_of_find? hit), Bindings.mem_of_get? bound⟩

theorem resolve? (closed : store.ClosedOn region) {c : ContextId} (within : region c)
    {name : String} {v : Value} (found : store.resolve? c name = some v) :
    v.Confined region store.size := by
  obtain ⟨home, there, bound⟩ := closed.exists_home within found
  exact closed.values home there (name, v) bound

end ClosedOn

end Store

/-! ### Evaluation inside a closed region -/

/-- The region is closed, and nothing else has changed since the origin. Contexts and values
that are about, and errors, refer to existing contexts of the region only. -/
def regionInvariant (region : ContextId → Prop) (origin : Store) : Invariant where
  state s := s.store.ClosedOn region ∧ origin.size ≤ s.store.size ∧
    ∀ k, ¬ region k → s.store.get? k = origin.get? k
  value s v := v.Confined region s.store.size
  context s c := region c ∧ c < s.store.size
  error s e := ∀ c ∈ e.contexts, region c ∧ c < s.store.size

theorem regionInvariant_coarse (region : ContextId → Prop) (origin : Store) :
    (regionInvariant region origin).Coarse where
  plain plain := Value.eachCallable_of_plain plain
  bare bare := Error.contexts_confined bare.2 (by simp [bare.1])

theorem regionInvariant_sustained {region : ContextId → Prop} {origin : Store}
    (fresh : ∀ k, origin.size ≤ k → region k) (host : Host) :
    (regionInvariant region origin).Sustained host where
  value_later later confined := confined.later later.contexts
  context_later later known := ⟨known.1, Nat.lt_of_lt_of_le known.2 later.contexts⟩
  nil := (regionInvariant_coarse region origin).plain rfl
  symbol _ := (regionInvariant_coarse region origin).plain rfl
  list := Value.eachCallable_list
  function confined := by
    obtain ⟨⟨_, made⟩, code⟩ := Value.eachCallable_function.mp confined
    exact ⟨code, made _ rfl⟩
  expander confined := (Value.eachCallable_expander.mp confined).2
  create := by
    rintro start parents known s later ⟨closed, grown, kept⟩
    have inside : ∀ p ∈ parents, region p ∧ p < s.store.size := fun p member =>
      ⟨(known p member).1, Nat.lt_of_lt_of_le (known p member).2 later.contexts⟩
    have more : s.store.size ≤ (s.store.create parents).2.size := by simp
    refine ⟨.of_store more, ⟨closed.create inside, ?_, ?_⟩, fresh _ grown, ?_⟩
    · show origin.size ≤ (s.store.create parents).2.size
      simpa using Nat.le_succ_of_le grown
    · intro k outside
      have old : k ≠ s.store.size := fun new => outside (fresh k (new ▸ grown))
      show (s.store.create parents).2.get? k = origin.get? k
      rw [Store.get?_create, if_neg old, kept k outside]
    · show s.store.size < (s.store.create parents).2.size
      simp
  define := by
    rintro start c name v known confined s later ⟨closed, grown, kept⟩
    refine ⟨.of_store (by simp), ⟨?_, by simpa using grown, ?_⟩, trivial⟩
    · exact closed.define c name (Value.Confined.later confined later.contexts)
    · intro k outside
      have apart : k ≠ c := fun same => outside (same ▸ known.1)
      show (s.store.define c name v).get? k = origin.get? k
      rw [Store.get?_define_of_ne apart, kept k outside]
  resolve := by
    intro start c name known s later holds
    rw [resolve_apply]
    cases found : s.store.resolve? c name with
    | some v => exact ⟨.refl s, holds, holds.1.resolve? known.1 found⟩
    | none =>
      refine ⟨.refl s, holds, fun k refers => ?_⟩
      obtain rfl : k = c := by
        simpa [Error.contexts, Error.searchedFrom?, Error.values] using refers
      exact ⟨known.1, Nat.lt_of_lt_of_le known.2 later.contexts⟩
  freshTag start := by
    intro s _ holds
    refine ⟨.of_tag s, holds, fun params body c code known => ⟨?_, ?_⟩⟩
    · refine Value.eachCallable_function.mpr ⟨⟨rfl, ?_⟩, code⟩
      rintro _ ⟨⟩
      exact known
    · refine Value.eachCallable_expander.mpr ⟨⟨rfl, ?_⟩, code⟩
      rintro _ ⟨⟩
  call := by
    intro start c p args called known values
    cases p with
    | builtin b =>
      refine keeps_callBuiltin (fun _ _ => Iff.rfl)
        (fun later confined => Value.Confined.later confined later.contexts)
        (keeps_record fun _ holds => holds) ?_ values host c
      intro s e later failed
      obtain ⟨shown, silent⟩ := Builtin.values_of_run_error failed
      exact Error.contexts_confined silent fun v member =>
        (values v (shown v member)).later later.contexts
    | host h =>
      -- A primitive of a host is nothing that could have been come by.
      have hostless := (called (.primitive (.host h)) List.mem_cons_self).1
      cases hostless
  rejection rejection values := Error.contexts_confined rejection.searchedFrom?_eq_none
    fun v shown => values v (Error.mem_values_settle shown)
  stackOverflow := (regionInvariant_coarse region origin).bare ⟨rfl, rfl⟩

/-! ### Separate roots -/

namespace Store

/-- One context refers to the other: as a parent, or through a function in a bound value. -/
def RefersTo (store : Store) (id other : ContextId) : Prop :=
  other ∈ store.parentsOf id ∨ ∃ entry ∈ store.bindingsOf id, other ∈ entry.2.scopes

/-- A context that can be got at, in any number of steps. -/
abbrev Accessible (store : Store) : ContextId → ContextId → Prop :=
  Relation.ReflTransGen store.RefersTo

/-- What can be got at from the root exists, and there are no primitives of a host there. -/
structure SelfContained (store : Store) (root : ContextId) : Prop where
  exist : ∀ k, store.Accessible root k → k < store.size
  hostless : ∀ k, store.Accessible root k → ∀ entry ∈ store.bindingsOf k,
    entry.2.EachCallable fun w => w.isHostPrimitive = false

/-- Both roots are self-contained, and no context can be got at from both. -/
structure Separate (store : Store) (r₁ r₂ : ContextId) : Prop where
  first : store.SelfContained r₁
  second : store.SelfContained r₂
  apart : ∀ k, store.Accessible r₁ k → ¬ store.Accessible r₂ k

theorem Separate.symm {store : Store} {r₁ r₂ : ContextId} (separate : store.Separate r₁ r₂) :
    store.Separate r₂ r₁ :=
  ⟨separate.second, separate.first, fun k second first => separate.apart k first second⟩

/-- Nothing leads out of a closed region. -/
theorem ClosedOn.accessible {store : Store} {region : ContextId → Prop}
    (closed : store.ClosedOn region) {c k : ContextId} (within : region c ∧ c < store.size)
    (path : store.Accessible c k) : region k ∧ k < store.size := by
  induction path with
  | refl => exact within
  | tail _ step ih =>
    rcases step with parent | ⟨entry, member, scope⟩
    · exact closed.parents _ ih.1 _ parent
    · exact (closed.values _ ih.1 entry member).scopes _ scope

theorem ClosedOn.selfContained {store : Store} {region : ContextId → Prop}
    (closed : store.ClosedOn region) {root : ContextId}
    (within : region root ∧ root < store.size) : store.SelfContained root where
  exist _ path := (closed.accessible within path).2
  hostless k path entry member :=
    (closed.values k (closed.accessible within path).1 entry member).hostless

/-- The contexts of a root, and all that are yet to be made. -/
def RegionOf (store : Store) (root k : ContextId) : Prop :=
  store.Accessible root k ∨ store.size ≤ k

theorem SelfContained.closedOn {store : Store} {root : ContextId}
    (contained : store.SelfContained root) : store.ClosedOn (store.RegionOf root) where
  parents k within p member := by
    rcases within with path | beyond
    · have onward := path.tail (.inl member)
      exact ⟨.inl onward, contained.exist p onward⟩
    · rw [parentsOf_of_size_le store beyond] at member
      cases member
  values k within entry member := by
    rcases within with path | beyond
    · intro w inside
      refine ⟨contained.hostless k path entry member w inside, fun c scope => ?_⟩
      have onward := path.tail (.inr ⟨entry, member, Value.mem_scopes_iff.mpr ⟨w, inside, scope⟩⟩)
      exact ⟨.inl onward, contained.exist c onward⟩
    · rw [bindingsOf_of_size_le beyond] at member
      cases member

/-- Contexts that are as they were refer to what they referred to. -/
theorem refersTo_congr {before after : Store} {k : ContextId}
    (kept : after.get? k = before.get? k) (other : ContextId) :
    after.RefersTo k other ↔ before.RefersTo k other := by
  rw [RefersTo, RefersTo, parentsOf, parentsOf, bindingsOf, bindingsOf, kept]

/-- As long as the contexts of a root are as they were, they are the same ones. -/
theorem accessible_congr {before after : Store} {root : ContextId}
    (kept : ∀ k, before.Accessible root k → after.get? k = before.get? k) (k : ContextId) :
    after.Accessible root k ↔ before.Accessible root k := by
  constructor
  · intro path
    induction path with
    | refl => exact .refl
    | tail _ step ih => exact ih.tail ((refersTo_congr (kept _ ih) _).mp step)
  · intro path
    induction path with
    | refl => exact .refl
    | tail earlier step ih => exact ih.tail ((refersTo_congr (kept _ earlier) _).mpr step)

theorem SelfContained.of_kept {before after : Store} {root : ContextId}
    (contained : before.SelfContained root) (grows : before.size ≤ after.size)
    (kept : ∀ k, before.Accessible root k → after.get? k = before.get? k) :
    after.SelfContained root where
  exist k path :=
    Nat.lt_of_lt_of_le (contained.exist k ((accessible_congr kept k).mp path)) grows
  hostless k path entry member := by
    have old := (accessible_congr kept k).mp path
    rw [bindingsOf, kept k old] at member
    exact contained.hostless k old entry member

end Store

/-! ### Calls in separate roots -/

/-- The contexts that an outcome refers to, be it values or an error. -/
def outcomeContexts : EStateM.Result Error State (List Value) → List ContextId
  | .ok vs _ => vs.flatMap Value.scopes
  | .error e _ => e.contexts

/-- A call in a root changes contexts of its region only, leaves the region closed, and its
outcome refers to nothing outside. -/
theorem textCall_stays_in_region (host : Host) {s : State} {root : ContextId}
    (contained : s.store.SelfContained root) (call : TextCall) :
    (regionInvariant (s.store.RegionOf root) s.store).state (stateAfter (call.run host root) s) ∧
    ∀ c ∈ outcomeContexts (call.run host root s), s.store.RegionOf root c ∧
      c < (stateAfter (call.run host root) s).store.size := by
  have fresh : ∀ k, s.store.size ≤ k → s.store.RegionOf root k := fun _ => .inr
  have known : (regionInvariant (s.store.RegionOf root) s.store).context s root :=
    ⟨.inl .refl, contained.exist root .refl⟩
  have kept := (regionInvariant_sustained fresh host).textCall
    (regionInvariant_coarse _ _) call known s (.refl s)
    ⟨contained.closedOn, Nat.le_refl _, fun _ _ => rfl⟩
  cases outcome : call.run host root s with
  | ok vs t =>
    rw [outcome] at kept
    rw [stateAfter_of_ok outcome]
    refine ⟨kept.2.1, fun c refers => ?_⟩
    obtain ⟨v, member, scope⟩ := List.mem_flatMap.mp refers
    exact (kept.2.2 v member).scopes c scope
  | error e t =>
    rw [outcome] at kept
    rw [stateAfter_of_error outcome]
    exact kept.2

section

variable {s : State} {r₁ r₂ : ContextId}

/-- A call in the second root leaves the contexts of the first alone. -/
theorem Store.Separate.kept (separate : s.store.Separate r₁ r₂) (host : Host) (call : TextCall)
    {k : ContextId} (path : s.store.Accessible r₁ k) :
    (stateAfter (call.run host r₂) s).store.get? k = s.store.get? k := by
  apply (textCall_stays_in_region host separate.second call).1.2.2
  rintro (other | beyond)
  · exact separate.apart k path other
  · exact Nat.not_lt_of_le beyond (separate.first.exist k path)

/-- What the second root's region leads to after a call was not the first root's. -/
theorem Store.Separate.apart_after (separate : s.store.Separate r₁ r₂) (host : Host)
    (call : TextCall) {c k : ContextId} (within : s.store.RegionOf r₂ c ∧
      c < (stateAfter (call.run host r₂) s).store.size)
    (path : (stateAfter (call.run host r₂) s).store.Accessible c k) :
    ¬ (stateAfter (call.run host r₂) s).store.Accessible r₁ k := by
  intro first
  have old := (accessible_congr (fun _ => separate.kept host call) k).mp first
  have closed := (textCall_stays_in_region host separate.second call).1.1
  rcases (closed.accessible within path).1 with second | beyond
  · exact separate.apart k old second
  · exact Nat.not_lt_of_le beyond (separate.first.exist k old)

/-- Separate roots stay separate. -/
theorem Store.Separate.textCall (separate : s.store.Separate r₁ r₂) (host : Host)
    (call : TextCall) : (stateAfter (call.run host r₂) s).store.Separate r₁ r₂ := by
  obtain ⟨⟨closed, grows, _⟩, _⟩ := textCall_stays_in_region host separate.second call
  have within : s.store.RegionOf r₂ r₂ ∧ r₂ < (stateAfter (call.run host r₂) s).store.size :=
    ⟨.inl .refl, Nat.lt_of_lt_of_le (separate.second.exist r₂ .refl) grows⟩
  exact ⟨separate.first.of_kept grows fun _ => separate.kept host call,
    closed.selfContained within,
    fun k first second => separate.apart_after host call within second first⟩

/-- Roots stay separate whatever is called in them, in any order. -/
theorem Store.Separate.after (separate : s.store.Separate r₁ r₂) (host : Host)
    {calls : List (ContextId × TextCall)}
    (inRoots : ∀ request ∈ calls, request.1 = r₁ ∨ request.1 = r₂) :
    (s.after host calls).store.Separate r₁ r₂ := by
  induction calls generalizing s with
  | nil => exact separate
  | cons request calls ih =>
    obtain ⟨here, later⟩ := List.forall_mem_cons.mp inRoots
    obtain ⟨root, call⟩ := request
    refine ih ?_ later
    rcases here with rfl | rfl
    · exact (separate.symm.textCall host call).symm
    · exact separate.textCall host call

end

/-- Take two roots from which no context can be got at in common, with no host primitives within
reach, and any calls in either of them, in any order, returning or failing. Then a call in the
one changes no context that can be got at from the other. Whatever can be got at from its
outcome, values or error, cannot be got at from the other root. What can be got at from the
other root is the same as before, and the roots are as separate as they were. -/
theorem sessions_are_isolated (host : Host) {s : State} {r₁ r₂ : ContextId}
    (separate : s.store.Separate r₁ r₂) {earlier : List (ContextId × TextCall)}
    (inRoots : ∀ request ∈ earlier, request.1 = r₁ ∨ request.1 = r₂) (call : TextCall)
    {t u : State} (before : s.after host earlier = t) (after : stateAfter (call.run host r₂) t = u) :
    (∀ k, t.store.Accessible r₁ k → u.store.get? k = t.store.get? k) ∧
    (∀ c ∈ outcomeContexts (call.run host r₂ t), ∀ k, u.store.Accessible c k →
      ¬ u.store.Accessible r₁ k) ∧
    (∀ k, u.store.Accessible r₁ k ↔ t.store.Accessible r₁ k) ∧
    u.store.Separate r₁ r₂ := by
  subst before after
  have separate' := separate.after host inRoots
  have outcome := (textCall_stays_in_region host separate'.second call).2
  exact ⟨fun _ => separate'.kept host call,
    fun c refers _ path => separate'.apart_after host call (outcome c refers) path,
    Store.accessible_congr fun _ => separate'.kept host call, separate'.textCall host call⟩

/-- Two roots, the first with a function that was made in a context inside it, the second with a
function in a list and a builtin. -/
def twoRoots : State :=
  ⟨⟨#[⟨[("f", .function 0 ["x"] (.symbol "n") 2)], []⟩,
      ⟨[("+", .primitive (.builtin .add)), ("g", .list [.function 1 [] .nil 1])], []⟩,
      ⟨[("n", .int 3)], [0]⟩]⟩, 2, #[]⟩

theorem twoRoots_separate : twoRoots.store.Separate 0 1 := by
  have first : twoRoots.store.ClosedOn fun k => k = 0 ∨ k = 2 := by
    constructor
    · rintro _ (rfl | rfl) <;> decide
    · unfold Value.Confined Value.EachCallable
      rintro _ (rfl | rfl) <;> decide
  have second : twoRoots.store.ClosedOn fun k => k = 1 := by
    constructor
    · rintro _ rfl
      decide
    · unfold Value.Confined Value.EachCallable
      rintro _ rfl
      decide
  refine ⟨first.selfContained (by decide), second.selfContained (by decide), fun k one two => ?_⟩
  obtain ⟨here, _⟩ := first.accessible (by decide) one
  obtain ⟨rfl, _⟩ := second.accessible (by decide) two
  revert here
  decide

/-- Calls in both of them. -/
def twoRootsCalls : List (ContextId × TextCall) :=
  [(0, ⟨"(def k (f 5))", false, none⟩), (1, ⟨"(def g (+ 1 2))", true, some "9"⟩)]

/-- A definition, and a call that fails. -/
def twoRootsCall : TextCall := ⟨"(def h (fn () (+ h 1))) (h 2)", true, none⟩

/-- The definition is there after the call failed, in the second root. The first one, which has
a definition of its own by then, is as it was before. -/
theorem twoRoots_are_isolated :
    twoRoots.store.Separate 0 1 ∧ (∀ request ∈ twoRootsCalls, request.1 = 0 ∨ request.1 = 1) ∧
    (twoRoots.after bindingHost twoRootsCalls).store.binds 0 "k" = true ∧
    (stateAfter (twoRootsCall.run bindingHost 1)
      (twoRoots.after bindingHost twoRootsCalls)).store.binds 1 "h" = true ∧
    (stateAfter (twoRootsCall.run bindingHost 1)
      (twoRoots.after bindingHost twoRootsCalls)).store.get? 0 =
      (twoRoots.after bindingHost twoRootsCalls).store.get? 0 := by
  have inRoots : ∀ request ∈ twoRootsCalls, request.1 = 0 ∨ request.1 = 1 := by
    simp [twoRootsCalls]
  have isolated := sessions_are_isolated bindingHost twoRoots_separate inRoots twoRootsCall rfl rfl
  exact ⟨twoRoots_separate, inRoots, by decide +kernel, by decide +kernel,
    isolated.1 0 .refl⟩

end ContextLisp
