/-
# Tags that were given

A tag that occurs anywhere in a state was given before. This holds in the beginning, and
evaluation keeps it: a new tag is taken from the state, and every other tag comes from the
expression or was found in a context. Neither the builtins nor a host that does the same under
other tags can make one up, though a host can take new ones as evaluation does. If a value had a
tag that was not given, its maker would have had to give another value when that tag is left out.
-/

import ContextLisp.Proofs.Evaluation.HostAction
import ContextLisp.Proofs.Evaluation.Invariant
import ContextLisp.Proofs.StoreFrame

namespace ContextLisp

/-! ### Leaving out a tag -/

/-- Leave out the tag `n`: from there on every tag is one higher. -/
def passOver (n t : Nat) : Nat := if t < n then t else t + 1

theorem passOver_injective (n : Nat) : Function.Injective (passOver n) := by
  intro t u same
  simp only [passOver] at same
  split at same <;> split at same <;> omega

theorem passOver_add (n k : Nat) : passOver n (n + k) = n + 1 + k := by
  rw [passOver, if_neg (by omega)]
  omega

theorem passOver_eq_self_iff {n t : Nat} : passOver n t = t ↔ t < n := by
  simp [passOver]

/-- Every tag in the value was given before `n`. -/
def Value.TagsBelow (n : Nat) (v : Value) : Prop := ∀ t ∈ v.tags, t < n

instance (n : Nat) (v : Value) : Decidable (v.TagsBelow n) :=
  inferInstanceAs (Decidable (∀ t ∈ v.tags, t < n))

/-- The tags of a value were given before `n` exactly if leaving out `n` changes nothing. -/
theorem Value.tagsBelow_iff {n : Nat} {v : Value} : v.TagsBelow n ↔ v.retag (passOver n) = v := by
  simp only [TagsBelow, retag_eq_self_iff, passOver_eq_self_iff]

theorem map_retag_passOver {n : Nat} {vs : List Value} (below : ∀ v ∈ vs, v.TagsBelow n) :
    vs.map (Value.retag (passOver n)) = vs := by
  rw [List.map_congr_left fun v member => Value.tagsBelow_iff.mp (below v member), List.map_id']

theorem Value.TagsBelow.mono {n m : Nat} {v : Value} (below : v.TagsBelow n) (le : n ≤ m) :
    v.TagsBelow m :=
  fun t member => Nat.lt_of_lt_of_le (below t member) le

theorem Value.tagsBelow_list {n : Nat} {items : List Value} :
    (Value.list items).TagsBelow n ↔ ∀ v ∈ items, v.TagsBelow n := by
  simp only [TagsBelow, tags, tagsOfItems_eq_flatMap, List.mem_flatMap]
  grind

/-! ### Stores and states -/

/-- Every tag in the bindings of any context was given before `n`. -/
def Store.TagsBelow (n : Nat) (store : Store) : Prop :=
  ∀ id, ∀ entry ∈ store.bindingsOf id, entry.2.TagsBelow n

/-- Every tag that occurs in the state was given. -/
structure State.TagsGiven (s : State) : Prop where
  store : s.store.TagsBelow s.nextTag
  calls : ∀ call ∈ s.calls, ∀ v ∈ call.args, v.TagsBelow s.nextTag

namespace Store.TagsBelow

variable {n : Nat} {store : Store}

theorem mono (below : store.TagsBelow n) {m : Nat} (le : n ≤ m) : store.TagsBelow m :=
  fun id entry member => (below id entry member).mono le

theorem resolve? (below : store.TagsBelow n) {c : ContextId} {name : String} {v : Value}
    (found : store.resolve? c name = some v) : v.TagsBelow n := by
  obtain ⟨home, bound⟩ := exists_mem_of_resolve? found
  exact below home (name, v) bound

theorem create (below : store.TagsBelow n) (parents : List ContextId) :
    (store.create parents).2.TagsBelow n := by
  intro id entry member
  rw [bindingsOf_create] at member
  exact below id entry member

theorem define (below : store.TagsBelow n) (id : ContextId) (name : String) {v : Value}
    (given : v.TagsBelow n) : (store.define id name v).TagsBelow n := by
  intro k entry member
  rcases mem_bindingsOf_define member with old | new
  · exact below k entry old
  · rwa [new]

end Store.TagsBelow

/-! ### Primitives -/

/-- Builtins make up no tags. -/
theorem Builtin.tagsBelow_run {n : Nat} {b : Builtin} {args : List Value} {v : Value}
    (given : ∀ a ∈ args, a.TagsBelow n) (ran : b.run args = .ok v) : v.TagsBelow n := by
  have same := run_retag (passOver_injective n) b args
  rw [map_retag_passOver given, ran, retagOutcome] at same
  exact Value.tagsBelow_iff.mpr (Except.ok.inj same).symm

/-- The action is the same when any tag from `n` on is left out. -/
def HostAction.Steady (n : Nat) (action : HostAction) : Prop :=
  ∀ m, n ≤ m → action.Retagged (passOver m) action

namespace HostAction.Steady

variable {n : Nat}

theorem give {value : Value} (steady : (HostAction.give value).Steady n) :
    value.TagsBelow n :=
  Value.tagsBelow_iff.mpr (HostAction.give.inj (steady n (Nat.le_refl n)).eq_give).symm

theorem define {id : ContextId} {name : String} {value : Value} {next : HostAction}
    (steady : (HostAction.define id name value next).Steady n) :
    value.TagsBelow n ∧ next.Steady n := by
  have each : ∀ m, n ≤ m →
      value.retag (passOver m) = value ∧ next.Retagged (passOver m) next := by
    intro m within
    obtain ⟨next', shape, same⟩ := (steady m within).eq_define
    obtain ⟨_, _, fixed, rfl⟩ := HostAction.define.inj shape
    exact ⟨fixed.symm, same⟩
  exact ⟨Value.tagsBelow_iff.mpr (each n (Nat.le_refl n)).1, fun m within => (each m within).2⟩

theorem create {parents : List ContextId} {next : ContextId → HostAction}
    (steady : (HostAction.create parents next).Steady n) (id : ContextId) :
    (next id).Steady n := by
  intro m within
  cases steady m within with
  | create same => exact same id

/-- What is found has given tags only, so the action goes on as itself. -/
theorem search {start : ContextId} {name : String}
    {next : Option ContextId → Option Value → HostAction}
    (steady : (HostAction.search start name next).Steady n) (home : Option ContextId)
    {found : Option Value} (given : ∀ v ∈ found, v.TagsBelow n) : (next home found).Steady n := by
  intro m within
  cases steady m within with
  | search same =>
    have fixed : found.map (Value.retag (passOver m)) = found := by
      cases found with
      | none => rfl
      | some v =>
        rw [Option.map_some, Value.tagsBelow_iff.mp ((given v rfl).mono within)]
    simpa only [fixed] using same home found

/-- A new tag is one that was given from then on. -/
theorem fresh {next : Nat → HostAction} (steady : (HostAction.fresh next).Steady n) :
    (next n).Steady (n + 1) := by
  intro m within
  cases steady m (Nat.le_of_succ_le within) with
  | fresh same => simpa only [passOver_eq_self_iff.mpr within] using same n

end HostAction.Steady

/-- Neither contexts nor tags were lost, and every tag in the bindings was given. -/
structure HostState.Grows (store left : HostState) : Prop where
  contexts : store.size ≤ left.size
  tags : store.nextTag ≤ left.nextTag
  below : left.TagsBelow left.nextTag

/-- What is left has grown, and every tag in the value was given. -/
def HostState.GrowsTo (store : HostState) : EStateM.Result Error HostState Value → Prop
  | .ok v left => store.Grows left ∧ v.TagsBelow left.nextTag
  | .error _ left => store.Grows left

theorem HostState.Grows.growsTo {store between : HostState} (first : store.Grows between)
    {result : EStateM.Result Error HostState Value} (rest : between.GrowsTo result) :
    store.GrowsTo result := by
  have trans {left : HostState} (second : between.Grows left) : store.Grows left :=
    ⟨first.contexts.trans second.contexts, first.tags.trans second.tags, second.below⟩
  cases result with
  | ok v left => exact ⟨trans rest.1, rest.2⟩
  | error e left => exact trans rest

/-- A steady action makes up no tags. -/
theorem HostAction.Steady.growsTo {action : HostAction} {store : HostState}
    (steady : action.Steady store.nextTag) (below : store.TagsBelow store.nextTag) :
    store.GrowsTo (action.run store) := by
  induction action generalizing store with
  | give value => exact ⟨⟨Nat.le_refl _, Nat.le_refl _, below⟩, steady.give⟩
  | raise e => exact ⟨Nat.le_refl _, Nat.le_refl _, below⟩
  | search start name next ih =>
    exact ih _ _ (steady.search _ fun v found => below.resolve? found) below
  | define id name value next ih =>
    obtain ⟨given, rest⟩ := steady.define
    have step : store.Grows { store with toStore := store.define id name value } :=
      ⟨by simp, Nat.le_refl _, below.define id name given⟩
    exact step.growsTo (ih rest step.below)
  | create parents next ih =>
    have step : store.Grows { store with toStore := (store.create parents).2 } :=
      ⟨by simp, Nat.le_refl _, below.create parents⟩
    exact step.growsTo (ih _ (steady.create _) step.below)
  | fresh next ih =>
    have step : store.Grows { store with nextTag := store.nextTag + 1 } :=
      ⟨Nat.le_refl _, Nat.le_succ _, below.mono (Nat.le_succ _)⟩
    exact step.growsTo (ih _ steady.fresh step.below)

/-! ### Evaluation -/

/-- Every tag in the state and in values was given, those below `n` before. -/
def tagsInvariant (n : Nat) : Invariant where
  state s := n ≤ s.nextTag ∧ s.TagsGiven
  value s v := v.TagsBelow s.nextTag
  context _ _ := True
  error _ _ := True

/-- An action that is steady from later states on keeps tags given. -/
theorem keeps_lend {n : Nat} {start : State} {action : HostAction}
    (steady : ∀ t, start.Before t → n ≤ t.nextTag → action.Steady t.nextTag) :
    Keeps (tagsInvariant n) start (tagsInvariant n).value (Eval.lend action.run) := by
  rintro t later ⟨own, store, calls⟩
  have grown : t.lent.GrowsTo (action.run t.lent) := (steady t later own).growsTo store
  have after {left : HostState} (grows : t.lent.Grows left) :
      t.Before (t.resume left) ∧ (tagsInvariant n).state (t.resume left) := by
    refine ⟨.of_resume grows.contexts, ?_⟩
    rw [State.resume_of_le grows.tags]
    refine ⟨own.trans grows.tags, grows.below, fun call member v argument => ?_⟩
    exact (calls call member v argument).mono grows.tags
  simp only [Eval.lend]
  cases outcome : action.run t.lent with
  | ok v left =>
    rw [outcome] at grown
    exact ⟨(after grown.1).1, (after grown.1).2, grown.2.mono (Nat.le_max_right _ _)⟩
  | error e left =>
    rw [outcome] at grown
    exact ⟨(after grown).1, (after grown).2, trivial⟩

theorem keeps_callPrimitive {host : Host} {n : Nat} (oblivious : host.Oblivious n)
    {start : State} {c : ContextId} (p : Primitive) {args : List Value}
    (given : ∀ v ∈ args, v.TagsBelow start.nextTag) :
    Keeps (tagsInvariant n) start (tagsInvariant n).value (callPrimitive host p c args) := by
  have recorded : Keeps (tagsInvariant n) start (fun _ _ => True) (Eval.record ⟨p, args⟩) := by
    rintro s later ⟨own, store, calls⟩
    refine ⟨.of_call s _, ⟨own, store, ?_⟩, trivial⟩
    intro call member v argument
    rcases Array.mem_push.mp member with old | rfl
    · exact calls call old v argument
    · exact (given v argument).mono later.tags
  apply recorded.bind
  rintro s _ later _
  cases p with
  | builtin b =>
    cases ran : b.run args with
    | ok v =>
      simp only [ran]
      refine keeps_pure fun t later' => ?_
      exact (Builtin.tagsBelow_run given ran).mono (later.trans later').tags
    | error e =>
      simp only [ran]
      exact keeps_throw fun _ _ => trivial
  | host h =>
    obtain ⟨action, runs, same⟩ := oblivious
    simp only [runs]
    refine keeps_lend fun t later' own m within => ?_
    -- Leaving out a tag from the next one on changes no argument, so the action is the same.
    have given' : ∀ v ∈ args, v.TagsBelow m := fun v argument =>
      (given v argument).mono ((later.trans later').tags.trans within)
    have retagged := same (passOver m) (passOver_injective m)
      (fun tag below => passOver_eq_self_iff.mpr (below.trans_le (own.trans within))) h c args
    rwa [map_retag_passOver given'] at retagged

theorem tagsInvariant_coarse (n : Nat) : (tagsInvariant n).Coarse where
  plain plain := by
    intro t member
    rw [Value.tags_of_callables_eq_nil plain] at member
    cases member
  bare _ := trivial

theorem tagsInvariant_sustained {host : Host} {n : Nat} (oblivious : host.Oblivious n) :
    (tagsInvariant n).Sustained host where
  value_later later below := below.mono later.tags
  context_later _ _ := trivial
  nil := (tagsInvariant_coarse n).plain rfl
  symbol _ := (tagsInvariant_coarse n).plain rfl
  list := Value.tagsBelow_list
  function below := ⟨fun t member => below t (List.mem_cons_of_mem _ member), trivial⟩
  expander below := fun t member => below t (List.mem_cons_of_mem _ member)
  create := by
    rintro start parents _ s _ ⟨own, store, calls⟩
    have more : s.store.size ≤ (s.store.create parents).2.size := by simp
    exact ⟨.of_store more, ⟨own, store.create parents, calls⟩, trivial⟩
  define := by
    rintro start c name v _ below s later ⟨own, store, calls⟩
    exact ⟨.of_store (by simp), ⟨own, store.define c name (below.mono later.tags), calls⟩,
      trivial⟩
  resolve name _ := by
    intro s _ given
    rw [resolve_apply]
    cases found : s.store.resolve? _ name with
    | none => exact ⟨.refl s, given, trivial⟩
    | some v => exact ⟨.refl s, given, given.2.store.resolve? found⟩
  freshTag start := by
    rintro s _ ⟨own, store, calls⟩
    have more : s.nextTag ≤ s.nextTag + 1 := Nat.le_succ _
    refine ⟨.of_tag s, ⟨own.trans more, store.mono more, fun call member v argument =>
      (calls call member v argument).mono more⟩, ?_⟩
    intro params body c below _
    have new : s.nextTag < s.nextTag + 1 := Nat.lt_succ_self _
    exact ⟨List.forall_mem_cons.mpr ⟨new, below⟩, List.forall_mem_cons.mpr ⟨new, below⟩⟩
  call := by
    intro start c p args _ _ given
    exact keeps_callPrimitive oblivious p given
  rejection _ _ := trivial
  stackOverflow := trivial

theorem State.tagsGiven_initial : State.initial.TagsGiven where
  store := by
    intro id entry member
    rw [Store.bindingsOf_of_size_le (Nat.zero_le id)] at member
    cases member
  calls := by simp [State.initial]

/-- Whatever evaluation does, every tag in the state that it leaves was given, and so was every
tag in the value. -/
theorem State.TagsGiven.evalWithin {host : Host} {n : Nat} (oblivious : host.Oblivious n)
    {s : State} (own : n ≤ s.nextTag) (given : s.TagsGiven) {e : Value}
    (below : e.TagsBelow s.nextTag) (limit : Option Int) (room : Nat) (c : ContextId)
    (depth : Int) :
    match evalWithin host limit room e c depth s with
    | .ok v t => t.TagsGiven ∧ v.TagsBelow t.nextTag
    | .error _ t => t.TagsGiven := by
  have kept := (tagsInvariant_sustained oblivious).evalWithin
    ((tagsInvariant_coarse n).limits limit) room (c := c) depth below trivial s (.refl s)
    ⟨own, given⟩
  cases outcome : ContextLisp.evalWithin host limit room e c depth s with
  | ok v t =>
    rw [outcome] at kept
    exact ⟨kept.2.1.2, kept.2.2⟩
  | error e t =>
    rw [outcome] at kept
    exact kept.2.1.2

end ContextLisp
