/-
# Where evaluation writes

Evaluation in a context writes to that context and to contexts made on the way, and
to no other, however it ends. In the context itself it removes nothing: names keep
their places and new ones come after them. A form that runs in a context of its own,
as a binding form and the call of an expander do, writes to no context that was there
before. What a function captured can therefore only change through an evaluation that
is started in the captured context itself.

A host primitive is held to the same rule: it may make contexts, and it binds names in
the context it was handed and in those of its own making.
-/

import ContextLisp.Proofs.Evaluation.Relational
import ContextLisp.Proofs.StoreFrame

namespace ContextLisp

/-- The state that a computation leaves behind, whether it returns or fails. -/
def stateAfter {ε σ α : Type} (m : EStateM ε σ α) (s : σ) : σ :=
  match m s with
  | .ok _ s' => s'
  | .error _ s' => s'

theorem stateAfter_of_ok {ε σ α : Type} {m : EStateM ε σ α} {s s' : σ} {a : α}
    (returned : m s = .ok a s') : stateAfter m s = s' := by
  rw [stateAfter, returned]

theorem stateAfter_of_error {ε σ α : Type} {m : EStateM ε σ α} {s s' : σ} {e : ε}
    (failed : m s = .error e s') : stateAfter m s = s' := by
  rw [stateAfter, failed]

theorem stateAfter_bind_of_ok {ε σ α β : Type} {m : EStateM ε σ α} {s s' : σ} {a : α}
    (f : α → EStateM ε σ β) (returned : m s = .ok a s') :
    stateAfter (m >>= f) s = stateAfter (f a) s' := by
  simp [stateAfter, bind, EStateM.bind, returned]

theorem stateAfter_bind_of_error {ε σ α β : Type} {m : EStateM ε σ α} {s s' : σ} {e : ε}
    (f : α → EStateM ε σ β) (failed : m s = .error e s') : stateAfter (m >>= f) s = s' := by
  simp [stateAfter, bind, EStateM.bind, failed]

/-- A relation between stores that composes carries over to sequencing. -/
theorem stateAfter_bind_related {α β : Type} {R : Store → Store → Prop}
    (trans : ∀ {a b c}, R a b → R b c → R a c) {m : Eval α} {f : α → Eval β}
    (first : ∀ s, R s.store (stateAfter m s).store)
    (second : ∀ a s, R s.store (stateAfter (f a) s).store) (s : State) :
    R s.store (stateAfter (m >>= f) s).store := by
  have start := first s
  cases result : m s with
  | ok a s' =>
    rw [stateAfter_bind_of_ok f result]
    simp only [stateAfter, result] at start
    exact trans start (second a s')
  | error e s' =>
    rw [stateAfter_bind_of_error f result]
    simpa only [stateAfter, result] using start

/-- A host whose primitives bind names only in the context they are handed, and in
contexts of their own making. -/
def Host.WritesHome (host : Host) : Prop :=
  ∀ h c args (store : HostState),
    Store.WrittenAt c store.toStore (stateAfter (host h c args) store).toStore

/-! ### Computations that write to their own context -/

/-- A computation writes only to the context it runs in. -/
def Framed : EvalRelation := fun c _ m _ =>
  ∀ s, Store.WritesOnly c s.store (stateAfter m s).store

/-- A computation writes to no context that was there before. -/
def Extending {α : Type} (m : Eval α) : Prop :=
  ∀ s, Store.Extends s.store (stateAfter m s).store

/-- What writes only to a context made on the spot writes to none from before. -/
theorem extending_create_bind {α : Type} {f : ContextId → Eval α}
    (framed : ∀ inner, Framed inner α (f inner) (f inner)) (parents : List ContextId) :
    Extending (Eval.create parents >>= f) := by
  intro s
  have made : stateAfter (Eval.create parents >>= f) s =
      stateAfter (f s.store.size) { s with store := (s.store.create parents).2 } := rfl
  rw [made]
  have writes := framed s.store.size { s with store := (s.store.create parents).2 }
  exact Store.WritesOnly.extends_of_new (Store.extends_create s.store parents) writes
    (Nat.le_refl _)

theorem extending_bind {α β : Type} {m : Eval α} {f : α → Eval β} (first : Extending m)
    (second : ∀ a, Extending (f a)) : Extending (m >>= f) :=
  stateAfter_bind_related (R := Store.Extends) Store.Extends.trans first second

theorem extending_of_stateAfter_eq {α : Type} {m : Eval α} (idle : ∀ s, stateAfter m s = s) :
    Extending m := by
  intro s
  rw [idle s]
  exact .refl s.store

theorem stateAfter_fail {α : Type} (e : Error) (s : State) :
    stateAfter (Eval.fail e : Eval α) s = s := rfl

theorem stateAfter_checkDepth (limit : Option Int) (depth : Int) (s : State) :
    stateAfter (checkDepth limit depth) s = s := by
  obtain passed | ⟨e, failed⟩ := checkDepth_cases limit depth s
  · simp [stateAfter, passed]
  · simp [stateAfter, failed]

theorem stateAfter_resolve (c : ContextId) (name : String) (s : State) :
    stateAfter (Eval.resolve c name) s = s := by
  cases found : s.store.resolve? c name <;> simp [stateAfter, resolve_apply, found]

/-- The store that a host's primitive leaves behind is that of the state. -/
theorem store_stateAfter_lend {α : Type} (m : EStateM Error HostState α) (s : State) :
    (stateAfter (Eval.lend m) s).store = (stateAfter m s.lent).toStore := by
  simp only [stateAfter, Eval.lend]
  cases m s.lent <;> rfl

/-- A primitive writes only to the context of its caller. -/
theorem framed_callPrimitive {host : Host} (homely : host.WritesHome) (c : ContextId)
    (p : Primitive) (args : List Value) (s : State) :
    Store.WritesOnly c s.store (stateAfter (callPrimitive host p c args) s).store := by
  cases p with
  | builtin b =>
    have idle : (stateAfter (callPrimitive host (.builtin b) c args) s).store = s.store := by
      simp only [callPrimitive]
      cases b.run args <;> rfl
    rw [idle]
    exact .refl c s.store
  | host h =>
    have called : (stateAfter (callPrimitive host (.host h) c args) s).store =
        (stateAfter (host h c args) s.lent).toStore := by
      have recorded : stateAfter (callPrimitive host (.host h) c args) s =
          stateAfter (Eval.lend (host h c args))
            { s with calls := s.calls.push ⟨.host h, args⟩ } := rfl
      rw [recorded, store_stateAfter_lend]
      rfl
    rw [called]
    exact (homely h c args s.lent).writesOnly

theorem respectful_framed {host : Host} (homely : host.WritesHome) : Respectful host Framed where
  pure c _ a := fun s => .refl c s.store
  bind {c} _ _ _ _ _ _ first rest :=
    stateAfter_bind_related (R := Store.WritesOnly c) Store.WritesOnly.trans first rest
  -- What happens inside stays in the new context, so the old one is not written to.
  enter {c} parents _ _ _ _ inside := fun s =>
    .of_extends c (extending_create_bind inside parents s)
  reject c _ e _ := fun s => .refl c s.store
  define c name v := fun s => .define c s.store name v
  resolve c name := fun s => by
    rw [stateAfter_resolve]
    exact .refl c s.store
  freshTag c := fun s => .refl c s.store
  call := framed_callPrimitive homely

/-- Evaluation writes only to the context it runs in. -/
theorem framed_evalWithin {host : Host} (homely : host.WritesHome) (limit : Option Int)
    (room : Nat) (depth : Int) :
    RelatedAt Framed depth (evalWithin host limit room) (evalWithin host limit room) := by
  induction room generalizing depth with
  | zero => exact fun e c s => .refl c s.store
  | succ room ih =>
    apply (respectful_framed homely).evalStep (ih (depth + 1))
    intro c s
    rw [stateAfter_checkDepth]
    exact .refl c s.store

/-! ### Forms that run in a context of their own -/

/-- A binding form writes to no context that was there before. -/
theorem extending_evalBind {host : Host} (homely : host.WritesHome) {eval : Evaluator}
    {depth : Int} (deeper : RelatedAt Framed (depth + 1) eval eval) (c : ContextId)
    (parts : List Value) : Extending (evalBind eval c depth parts) := by
  have respects := respectful_framed homely
  unfold evalBind
  split
  · split
    · refine extending_create_bind (fun inner => ?_) [c]
      apply respects.bind (respects.bindPairs deeper inner _)
      intro _
      exact respects.evalLast deeper inner _ _
    · -- From here on the form is refused before a context is made for it.
      exact extending_of_stateAfter_eq (stateAfter_fail _)
  · exact extending_of_stateAfter_eq (stateAfter_fail _)
  · exact extending_of_stateAfter_eq (stateAfter_fail _)

/-- The call of an expander writes to no context that was there before. -/
theorem extending_apply_expander {host : Host} (homely : host.WritesHome) {eval : Evaluator}
    {depth : Int} (deeper : RelatedAt Framed (depth + 1) eval eval) (tag : Nat)
    (params : List String) (body : Value) (args : List Value) (c : ContextId)
    (form : Option Value) :
    Extending (apply host eval (.expander tag params body) args c depth form) := by
  have respects := respectful_framed homely
  simp only [apply, Value.enter, extend, bind_assoc, pure_bind]
  refine extending_create_bind (fun inner => ?_) [c]
  exact respects.bind (respects.defineAll_symbols inner params args) fun _ => deeper body inner

/-- A symbol evaluates to what it is bound to, if there is room; in no case does the
state change. -/
theorem evalWithin_symbol (host : Host) (limit : Option Int) (room : Nat) (name : String)
    (c : ContextId) (depth : Int) (s : State) :
    (∃ e, evalWithin host limit room (.symbol name) c depth s = .error e s) ∨
      ∃ v, s.store.resolve? c name = some v ∧
        evalWithin host limit room (.symbol name) c depth s = .ok v s := by
  cases room with
  | zero => exact .inl ⟨_, rfl⟩
  | succ room =>
    have opened : evalWithin host limit (room + 1) (.symbol name) c depth s =
        (checkDepth limit depth >>= fun _ => Eval.resolve c name) s := rfl
    rw [opened]
    obtain passed | ⟨e, failed⟩ := checkDepth_cases limit depth s
    · simp only [bind, EStateM.bind, passed, resolve_apply]
      cases s.store.resolve? c name with
      | none => exact .inl ⟨_, rfl⟩
      | some v => exact .inr ⟨v, rfl, rfl⟩
    · simp only [bind, EStateM.bind, failed]
      exact .inl ⟨e, rfl⟩

/-- A binding form, evaluated in any context, leaves every context as it was. -/
theorem extends_evalWithin_bind {host : Host} (homely : host.WritesHome) (limit : Option Int)
    (room : Nat) (depth : Int) (parts : List Value) (c : ContextId) :
    Extending (evalWithin host limit room (.list (.symbol SpecialForm.bind.name :: parts)) c
      depth) := by
  cases room with
  | zero => exact extending_of_stateAfter_eq fun _ => rfl
  | succ room =>
    have opened : evalWithin host limit (room + 1)
        (.list (.symbol SpecialForm.bind.name :: parts)) c depth =
        checkDepth limit depth >>= fun _ =>
          evalBind (evalWithin host limit room) c depth parts := rfl
    rw [opened]
    apply extending_bind (extending_of_stateAfter_eq (stateAfter_checkDepth _ _))
    intro _
    exact extending_evalBind homely (framed_evalWithin homely limit room (depth + 1)) c parts

/-- The call of an expander through its name leaves every context as it was. -/
theorem extends_evalWithin_expander {host : Host} (homely : host.WritesHome)
    (limit : Option Int) (room : Nat) (depth : Int) {name : String} (args : List Value)
    (c : ContextId) (ordinary : SpecialForm.ofName? name = none) {s : State} {tag : Nat}
    {params : List String} {body : Value}
    (bound : s.store.resolve? c name = some (.expander tag params body)) :
    Store.Extends s.store
      (stateAfter (evalWithin host limit room (.list (.symbol name :: args)) c depth) s).store := by
  cases room with
  | zero => exact .refl s.store
  | succ room =>
    have opened : evalWithin host limit (room + 1) (.list (.symbol name :: args)) c depth =
        checkDepth limit depth >>= fun _ =>
          evalWithin host limit room (.symbol name) c (depth + 1) >>= fun callee =>
            apply host (evalWithin host limit room) callee args c depth
              (some (.list (.symbol name :: args))) := by
      simp [evalWithin, evalStep, Value.specialForm?, ordinary]
    rw [opened]
    obtain passed | ⟨e, failed⟩ := checkDepth_cases limit depth s
    · rw [stateAfter_bind_of_ok _ passed]
      -- The head leaves the state alone, so its value is the expander bound at the start.
      obtain ⟨e, stuck⟩ | ⟨v, found, looked⟩ :=
        evalWithin_symbol host limit room name c (depth + 1) s
      · rw [stateAfter_bind_of_error _ stuck]
        exact .refl s.store
      · obtain rfl : v = .expander tag params body := Option.some.inj (found.symm.trans bound)
        rw [stateAfter_bind_of_ok _ looked]
        exact extending_apply_expander homely (framed_evalWithin homely limit room (depth + 1))
          tag params body args c _ s
    · rw [stateAfter_bind_of_error _ failed]
      exact .refl s.store

/-! ### Evaluations in sequence -/

/-- An evaluation that a host starts: all it depends on but the state. -/
structure Evaluation where
  limit : Option Int
  room : Nat
  form : Value
  context : ContextId
  depth : Int

/-- The state that an evaluation leaves behind. -/
def Evaluation.leaves (host : Host) (s : State) (run : Evaluation) : State :=
  stateAfter (evalWithin host run.limit run.room run.form run.context run.depth) s

/-- Evaluations change a context only if one of them is started in it. -/
theorem get?_foldl_leaves {host : Host} (homely : host.WritesHome) (runs : List Evaluation)
    {k : ContextId} (elsewhere : ∀ run ∈ runs, run.context ≠ k) {s : State}
    (within : k < s.store.size) :
    (runs.foldl (Evaluation.leaves host) s).store.get? k = s.store.get? k := by
  induction runs generalizing s with
  | nil => rfl
  | cons run runs ih =>
    have writes : Store.WritesOnly run.context s.store (run.leaves host s).store :=
      framed_evalWithin homely run.limit run.room run.depth run.form run.context s
    have apart : k ≠ run.context := fun h => elsewhere run (by simp) h.symm
    have later := ih (fun r member => elsewhere r (by simp [member]))
      (Nat.lt_of_lt_of_le within writes.grows)
    rw [List.foldl_cons, later, writes.others k within apart]

/-! ### The frame -/

/-- Evaluation in a context, however it ends, leaves the bindings of every other context
and the parents of every context as they were. In the context itself no binding is lost,
and the names from before come first, in their order. A binding form, and the call of an
expander through a symbol, leave every context as it was. And what later evaluations
find in a context, captured by a function or not, stays as it is until one of them is
started in that very context. -/
theorem evaluation_writes_to_its_own_context (host : Host) (homely : host.WritesHome)
    (limit : Option Int) (room : Nat) (e : Value) (c : ContextId) (depth : Int)
    (start : State) :
    let final := stateAfter (evalWithin host limit room e c depth) start
    start.store.size ≤ final.store.size ∧
    (∀ k < start.store.size, k ≠ c →
      final.store.bindingsOf k = start.store.bindingsOf k) ∧
    (∀ name, start.store.binds c name = true → final.store.binds c name = true) ∧
    (start.store.bindingsOf c).names <+: (final.store.bindingsOf c).names ∧
    (∀ k < start.store.size, final.store.parentsOf k = start.store.parentsOf k) ∧
    (∀ parts, e = .list (.symbol SpecialForm.bind.name :: parts) →
      ∀ k < start.store.size, final.store.get? k = start.store.get? k) ∧
    (∀ name args tag params body, e = .list (.symbol name :: args) →
      SpecialForm.ofName? name = none →
      start.store.resolve? c name = some (.expander tag params body) →
      ∀ k < start.store.size, final.store.get? k = start.store.get? k) ∧
    (∀ (later : List Evaluation) (k : ContextId), k < final.store.size →
      (∀ run ∈ later, run.context ≠ k) →
      (later.foldl (Evaluation.leaves host) final).store.get? k = final.store.get? k) := by
  intro final
  have writes : Store.WritesOnly c start.store final.store :=
    framed_evalWithin homely limit room depth e c start
  refine ⟨writes.grows, ?_, ?_, writes.names, ?_, ?_, ?_, ?_⟩
  · intro k within apart
    rw [Store.bindingsOf, Store.bindingsOf, writes.others k within apart]
  · intro name bound
    exact writes.binds_of_binds bound
  · intro k within
    exact writes.parentsOf_eq within
  · rintro parts rfl
    exact (extends_evalWithin_bind homely limit room depth parts c start).kept
  · rintro name args tag params body rfl ordinary bound
    exact (extends_evalWithin_expander homely limit room depth args c ordinary bound).kept
  · intro later k within elsewhere
    exact get?_foldl_leaves homely later elsewhere within

/-- A host with one primitive, which binds a name in the context of its caller. -/
def bindingHost : Host := fun _ c args store =>
  match args with
  | given :: value :: _ =>
    match given.bindingName? with
    | some name => .ok .nil (store.define c name value)
    | none => .error (Error.invalidName (.binding given)).settle store
  | _ => .error (.hostFailure "IndexError") store

/-- It binds one of its arguments in that context or fails without any effect. -/
theorem bindingHost_cases (h : HostPrimitive) (c : ContextId) (args : List Value)
    (store : HostState) :
    (∃ name, ∃ value ∈ args,
      bindingHost h c args store = .ok .nil (store.define c name value)) ∨
    ∃ e, bindingHost h c args store = .error e store ∧ ∀ name start, e ≠ .unbound name start := by
  match args with
  | [] => exact .inr ⟨_, rfl, nofun⟩
  | [_] => exact .inr ⟨_, rfl, nofun⟩
  | given :: value :: rest =>
    cases named : given.bindingName? with
    | some name => exact .inl ⟨name, value, by simp, by simp only [bindingHost, named]⟩
    | none =>
      refine .inr ⟨_, by simp only [bindingHost, named]; rfl, fun name start => ?_⟩
      unfold Error.settle
      split <;> exact nofun

theorem bindingHost_writesHome : bindingHost.WritesHome := by
  intro h c args store
  match args with
  | [] => exact .refl
  | [_] => exact .refl
  | given :: value :: rest =>
    cases named : given.bindingName? with
    | some name =>
      simp only [stateAfter, bindingHost, named]
      exact .define name value .refl (.inl rfl)
    | none =>
      simp only [stateAfter, bindingHost, named]
      exact .refl

/-- Two contexts, the second inside the first, which binds the primitive of
`bindingHost` and an expander that defines a name. -/
def bindingState : State :=
  ⟨⟨#[⟨[("bind", .primitive (.host ⟨"bind", "bind"⟩)),
        ("note", .expander 0 ["a"] (.list [.symbol "def", .symbol "y", .symbol "a"]))], []⟩,
      ⟨[("x", .nil)], [0]⟩]⟩, 1, #[]⟩

/-- `(bind (quote z) 7)`. -/
def bindingCall : Value :=
  .list [.symbol "bind", .list [.symbol "quote", .symbol "z"], .int 7]

/-- A call of the primitive binds in the inner context and leaves the outer one alone; a
call of the expander, `(note 5)`, leaves both alone. -/
theorem bindingHost_writes_to_its_own_context :
    bindingHost.WritesHome ∧
    (stateAfter (evalWithin bindingHost (some 9) 5 bindingCall 1 0) bindingState).store.bindingsOf
      1 = [("x", .nil), ("z", .int 7)] ∧
    (stateAfter (evalWithin bindingHost (some 9) 5 bindingCall 1 0) bindingState).store.bindingsOf
      0 = bindingState.store.bindingsOf 0 ∧
    (stateAfter (evalWithin bindingHost (some 9) 5 (.list [.symbol "note", .int 5]) 1 0)
      bindingState).store.get? 1 = bindingState.store.get? 1 := by
  refine ⟨bindingHost_writesHome, by cbv, ?_, ?_⟩
  · have frame := evaluation_writes_to_its_own_context bindingHost bindingHost_writesHome
      (some 9) 5 bindingCall 1 0 bindingState
    exact frame.2.1 0 (by decide) (by decide)
  · have frame := evaluation_writes_to_its_own_context bindingHost bindingHost_writesHome
      (some 9) 5 (.list [.symbol "note", .int 5]) 1 0 bindingState
    have bound : bindingState.store.resolve? 1 "note" = some (.expander 0 ["a"]
        (.list [.symbol "def", .symbol "y", .symbol "a"])) := by cbv
    exact frame.2.2.2.2.2.2.1 _ _ _ _ _ rfl (by decide) bound 1 (by decide)

end ContextLisp
