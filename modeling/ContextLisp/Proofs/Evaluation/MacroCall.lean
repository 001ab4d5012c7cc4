/-
# Macro calls as function calls

An expander runs its body on argument expressions as they are written, in a context whose only
parent is the caller's. A function with the same parameters and body, made on the spot and
called with the same expressions quoted, runs the same body on the same values. There are two
differences. The function takes a tag, so that all tags given later are one higher. And its
scope and its caller are the same context, which is therefore listed twice among the parents of
the context in which the body runs. Neither changes what evaluation does.
-/

import ContextLisp.Proofs.Evaluation.Frame
import ContextLisp.Proofs.Evaluation.Tags
import ContextLisp.Proofs.Evaluation.Twins
import ContextLisp.Value.Quotation

namespace ContextLisp

/-! ### The end of both calls -/

/-- The second state is the first under other tags, except that `a`, if it is there, has the
parent `c` once in the first and twice in the second. -/
structure State.SameButTwin (ρ : Nat → Nat) (a c : ContextId) (s t : State) : Prop where
  size : t.store.size = s.store.size
  bindings : ∀ id, t.store.bindingsOf id = (s.store.bindingsOf id).retag ρ
  parents : ∀ id, t.store.parentsOf id = s.store.parentsOf id ∨
    id = a ∧ s.store.parentsOf id = [c] ∧ t.store.parentsOf id = [c, c]
  calls : t.calls = s.calls.map (Call.retag ρ)

theorem State.Twins.sameButTwin {ρ : Nat → Nat} {a c : ContextId} {s t : State}
    (twins : s.Twins ρ a c t) : s.SameButTwin ρ a c t where
  size := twins.store.size
  bindings := twins.store.bindings
  parents id := by
    by_cases twin : id = a
    · subst twin
      exact .inr ⟨rfl, twins.store.once, twins.store.twice⟩
    · exact .inl (twins.store.parents id twin)
  calls := twins.calls

namespace State.TagsGiven

variable {s : State}

theorem bindings_retag (given : s.TagsGiven) (id : ContextId) :
    (s.store.bindingsOf id).retag (passOver s.nextTag) = s.store.bindingsOf id := by
  have same : ∀ entry ∈ s.store.bindingsOf id,
      (entry.1, entry.2.retag (passOver s.nextTag)) = entry := fun entry member => by
    rw [Value.tagsBelow_iff.mp (given.store id entry member)]
  exact (List.map_congr_left same).trans (List.map_id' _)

theorem calls_retag (given : s.TagsGiven) :
    s.calls.map (Call.retag (passOver s.nextTag)) = s.calls := by
  have same : ∀ call ∈ s.calls, call.retag (passOver s.nextTag) = call := fun call member => by
    rw [Call.retag, map_retag_passOver (given.calls call member)]
  exact (Array.map_congr_left same).trans (Array.map_id' _)

theorem sameButTwin (given : s.TagsGiven) (a c : ContextId) :
    s.SameButTwin (passOver s.nextTag) a c s where
  size := rfl
  bindings id := (given.bindings_retag id).symm
  parents _ := .inl rfl
  calls := given.calls_retag.symm

/-- Making the context with its parent once, and with its parent twice after a tag was
taken, leaves twins. -/
theorem twins_create (given : s.TagsGiven) (c : ContextId) :
    State.Twins (passOver s.nextTag) s.store.size c
      { s with store := (s.store.create [c]).2 }
      { s with store := (s.store.create [c, c]).2, nextTag := s.nextTag + 1 } where
  store := {
    size := by simp
    exists_twin := by simp
    bindings := fun id => by simpa using (given.bindings_retag id).symm
    parents := fun id apart => by
      simp only [Store.parentsOf_create, if_neg apart]
    once := by simp [Store.parentsOf_create]
    twice := by simp [Store.parentsOf_create] }
  tags := passOver_add s.nextTag
  calls := given.calls_retag.symm

end State.TagsGiven

/-! ### Both calls -/

/-- `(quote e)`. -/
def Value.quoteForm (e : Value) : Value := .list [.symbol SpecialForm.quote.name, e]

/-- `(fn (param ...) body)`. -/
def Value.lambdaForm (params : List String) (body : Value) : Value :=
  .list [.symbol SpecialForm.lambda.name, paramList params, body]

theorem parameterNames_paramList (form : String) (params : List String) :
    parameterNames form (Value.paramList params) = .ok params := by
  rw [Value.paramList, parameterNames]
  induction params with
  | nil => rfl
  | cons name params ih => rw [List.map_cons, parameterNames.go, ih, Except.map]

/-- A depth passes, or the error that refuses it shows no tag. -/
theorem checkDepth_eq (limit : Option Int) (depth : Int) (ρ : Nat → Nat) :
    checkDepth limit depth = pure () ∨
      ∃ e : Error, checkDepth limit depth = throw e ∧ e.retag ρ = e := by
  cases limit with
  | none => exact .inl rfl
  | some most =>
    simp only [checkDepth]
    split
    · exact .inr ⟨_, rfl, (Error.settle_retag (.tooDeep depth most)).symm⟩
    · exact .inl rfl

/-- Two computations after the same depth check. -/
theorem alike_checkDepth {R : State → State → Prop} {ρ : Nat → Nat} {f : Value → Value}
    {limit : Option Int} {depth : Int} {s : State} {m₁ m₂ : Eval Value} (unchanged : R s s)
    (later : checkDepth limit depth = pure () → Alike R ρ f (m₁ s) (m₂ s)) :
    Alike R ρ f ((checkDepth limit depth >>= fun _ => m₁) s)
      ((checkDepth limit depth >>= fun _ => m₂) s) := by
  rcases checkDepth_eq limit depth ρ with passed | ⟨e, failed, same⟩
  · rw [passed, pure_bind]
    exact later passed
  · rw [failed]
    have alike : Alike R ρ f (.error e s) (.error (e.retag ρ) s) := .error unchanged
    rw [same] at alike
    exact alike

theorem evalWithin_quoteForm (host : Host) {limit : Option Int} {depth : Int}
    (passed : checkDepth limit depth = pure ()) (room : Nat) (e : Value) (c : ContextId) :
    evalWithin host limit (room + 1) e.quoteForm c depth = pure e := by
  have opened : evalWithin host limit (room + 1) e.quoteForm c depth =
      checkDepth limit depth >>= fun _ => pure e := rfl
  rw [opened, passed, pure_bind]

/-- Quoted expressions evaluate to themselves. -/
theorem evalEach_quoteForm (host : Host) {limit : Option Int} {depth : Int}
    (passed : checkDepth limit depth = pure ()) (room : Nat) (es : List Value) (c : ContextId) :
    evalEach (evalWithin host limit (room + 1)) c depth (es.map Value.quoteForm) = pure es := by
  induction es with
  | nil => rfl
  | cons e es ih =>
    rw [List.map_cons, evalEach, evalWithin_quoteForm host passed, pure_bind, ih, pure_bind]

/-- The body of an expander in its context, and the same body in the context that a function
runs it in. -/
theorem alike_body {host : Host} {s : State} (oblivious : host.Oblivious s.nextTag)
    (limit : Option Int) (room : Nat) (given : s.TagsGiven) (c : ContextId)
    (params : List String) {body : Value}
    (bodyGiven : body.TagsBelow s.nextTag) {args : List Value}
    (argsGiven : ∀ e ∈ args, e.TagsBelow s.nextTag) (depth : Int) :
    Alike (State.Twins (passOver s.nextTag) s.store.size c) (passOver s.nextTag)
      (Value.retag (passOver s.nextTag))
      ((extend [c] params args >>= fun inner => evalWithin host limit room body inner depth) s)
      ((extend [c, c] params args >>= fun inner => evalWithin host limit room body inner depth)
        { s with nextTag := s.nextTag + 1 }) := by
  have commutes := commutes_twins (a := s.store.size) (c := c) oblivious
    (passOver_injective s.nextTag) fun t below => passOver_eq_self_iff.mpr below
  have bound := commutes.defineAll_symbols s.store.size params args
  have run := commutes.evalWithin limit room body s.store.size depth
  rw [map_retag_passOver argsGiven] at bound
  rw [Value.tagsBelow_iff.mp bodyGiven] at run
  simp only [extend, bind_assoc, pure_bind]
  exact (bound.bind fun _ => run) _ _ (given.twins_create c)

/-! The steps of both calls. -/

/-- A list that is no special form is a call of what its head stands for. -/
theorem evalWithin_call (host : Host) (limit : Option Int) (room : Nat) {head : Value}
    (ordinary : head.specialForm? = none) (parts : List Value) (c : ContextId) (depth : Int) :
    evalWithin host limit (room + 1) (.list (head :: parts)) c depth =
      checkDepth limit depth >>= fun _ =>
        evalWithin host limit room head c (depth + 1) >>= fun callee =>
          apply host (evalWithin host limit room) callee parts c depth
            (some (.list (head :: parts))) := by
  simp only [evalWithin, evalStep, ordinary]

theorem evalLambda_paramList (c : ContextId) (params : List String) (body : Value) (s : State) :
    evalLambda c [Value.paramList params, body] s =
      .ok (.function s.nextTag params body c) { s with nextTag := s.nextTag + 1 } := by
  simp only [evalLambda, parameterNames_paramList]
  rfl

/-- The call of an expander and the call of a function made on the spot, on the same
expressions quoted, are alike. -/
theorem alike_macroCall {host : Host} {s : State} (oblivious : host.Oblivious s.nextTag)
    (limit : Option Int) (room : Nat) (depth : Int) (c : ContextId) {name : String} {tag : Nat}
    {params : List String} {body : Value} (args : List Value)
    (ordinary : SpecialForm.ofName? name = none)
    (resolves : s.store.resolve? c name = some (.expander tag params body))
    (given : s.TagsGiven) (argsGiven : ∀ e ∈ args, e.TagsBelow s.nextTag) :
    Alike (State.SameButTwin (passOver s.nextTag) s.store.size c) (passOver s.nextTag)
      (Value.retag (passOver s.nextTag))
      (evalWithin host limit room (.list (.symbol name :: args)) c depth s)
      (evalWithin host limit room
        (.list (Value.lambdaForm params body :: args.map Value.quoteForm)) c depth s) := by
  have unchanged := given.sameButTwin s.store.size c
  cases room with
  | zero => exact .error unchanged
  | succ room =>
    have named : (Value.symbol name).specialForm? = none := ordinary
    have unnamed : (Value.lambdaForm params body).specialForm? = none := rfl
    rw [evalWithin_call host limit room named, evalWithin_call host limit room unnamed]
    refine alike_checkDepth unchanged fun _ => ?_
    cases room with
    | zero =>
      exact .error unchanged
    | succ room =>
      have symbol : evalWithin host limit (room + 1) (.symbol name) c (depth + 1) =
          checkDepth limit (depth + 1) >>= fun _ => Eval.resolve c name := rfl
      have lambda : evalWithin host limit (room + 1) (.lambdaForm params body) c (depth + 1) =
          checkDepth limit (depth + 1) >>= fun _ =>
            evalLambda c [Value.paramList params, body] := rfl
      rw [symbol, lambda, bind_assoc, bind_assoc]
      -- The head is one level deeper than the call, and so are the quoted expressions: where the
      -- head passes, they do.
      refine alike_checkDepth unchanged fun passed => ?_
      have bodyGiven : body.TagsBelow s.nextTag := fun t member =>
        given.store.resolve? resolves t (List.mem_cons_of_mem tag member)
      have bodies := alike_body oblivious limit (room + 1) given c params bodyGiven argsGiven
        (depth + 1)
      have expansion (form : Option Value) :
          apply host (evalWithin host limit (room + 1)) (.expander tag params body) args c depth
            form = extend [c] params args >>= fun inner =>
              evalWithin host limit (room + 1) body inner (depth + 1) := rfl
      have application (made : Nat) (form : Option Value) :
          apply host (evalWithin host limit (room + 1)) (.function made params body c)
            (args.map Value.quoteForm) c depth form = extend [c, c] params args >>= fun inner =>
              evalWithin host limit (room + 1) body inner (depth + 1) := by
        simp only [apply, evalEach_quoteForm host passed, pure_bind]
        rfl
      simp only [bind, EStateM.bind, resolve_apply, resolves, evalLambda_paramList]
      simp only [expansion, application]
      exact bodies.imp fun _ _ twins => twins.sameButTwin

/-- Let a name that heads no special form stand for an expander. Then the call of the expander,
and the call of a function with the same parameters and body, made on the spot, on the same
expressions quoted, end alike at every depth and under every limit: in the same value or the
same error, with the same message, with the same bindings in every context and the same calls of
primitives. The function made on the spot takes one tag, so that all tags given later are one
higher. The context that the body runs in, the first that is made, has the caller's context
once or twice for its parents. Tags that occur in the state or in the expressions, or that the
host holds already, are assumed to have been given, which evaluation keeps true. -/
theorem macro_call_is_call_on_quoted_arguments {host : Host} {start : State}
    (oblivious : host.Oblivious start.nextTag) (limit : Option Int) (room : Nat) (depth : Int)
    (given : start.TagsGiven) (c : ContextId) {name : String}
    (ordinary : SpecialForm.ofName? name = none) {tag : Nat} {params : List String} {body : Value}
    (resolves : start.store.resolve? c name = some (.expander tag params body))
    {args : List Value} (argsGiven : ∀ e ∈ args, e.TagsBelow start.nextTag) :
    match evalWithin host limit room (.list (.symbol name :: args)) c depth start,
      evalWithin host limit room
        (.list (Value.lambdaForm params body :: args.map Value.quoteForm)) c depth start with
    | .ok v s, .ok w t =>
      w = v.retag (passOver start.nextTag) ∧
        s.SameButTwin (passOver start.nextTag) start.store.size c t
    | .error e s, .error f t =>
      f = e.retag (passOver start.nextTag) ∧ f.message? = e.message? ∧
        s.SameButTwin (passOver start.nextTag) start.store.size c t
    | _, _ => False := by
  have alike := alike_macroCall oblivious limit room depth c args ordinary resolves given argsGiven
  generalize evalWithin host limit room (.list (.symbol name :: args)) c depth start = r₁ at alike ⊢
  generalize evalWithin host limit room
    (.list (Value.lambdaForm params body :: args.map Value.quoteForm)) c depth start = r₂ at alike ⊢
  cases alike with
  | ok same => exact ⟨rfl, same⟩
  | error same => exact ⟨rfl, Error.message?_retag _, same⟩

/-- A function that a host made before. -/
def ownFunction : Value := .function 1 ["x"] (.symbol "x") 0

/-- What `makingHost` does. -/
def makingAction (c : ContextId) : List Value → HostAction
  | [] => .give ownFunction
  | given :: rest =>
    match given.bindingName? with
    | some name =>
      .define c name (.list rest) (.fresh fun tag => .give (.function tag [] (.list rest) c))
    | none => .raise (Error.invalidName (.binding given)).settle

/-- A host with one primitive. Given nothing, it hands out its own function. Given a name, it
binds the other arguments to it where it is called, and makes a function of them. -/
def makingHost : Host := fun _ c args => (makingAction c args).run

theorem makingHost_oblivious : makingHost.Oblivious 2 := by
  refine ⟨fun _ c args => makingAction c args, fun _ _ _ => rfl, fun ρ _ fixes h c args => ?_⟩
  cases args with
  | nil =>
    have own : ownFunction.retag ρ = ownFunction :=
      Value.retag_eq_self_iff.mpr fun t member => fixes t (by simp_all [ownFunction, Value.tags])
    have given := HostAction.Retagged.give (ρ := ρ) ownFunction
    rwa [own] at given
  | cons given rest =>
    have name : (given.retag ρ).bindingName? = given.bindingName? := by cases given <;> rfl
    simp only [List.map_cons, makingAction, name]
    cases given.bindingName? with
    | some name =>
      have made : (HostAction.fresh fun tag => .give (.function tag [] (.list rest) c)).Retagged ρ
          (.fresh fun tag => .give (.function tag [] ((Value.list rest).retag ρ) c)) :=
        .fresh fun tag => .give (.function tag [] (.list rest) c)
      rw [← Value.retag_list]
      exact .define made
    | none =>
      have refused := HostAction.Retagged.raise (ρ := ρ)
        (Error.invalidName (.binding given)).settle
      rwa [← Error.settle_retag] at refused

/-- `(let (f (fn (x) (eval e))) (f 5))`. -/
def deferringBody : Value :=
  .list [.symbol "let",
    .list [.symbol "f", .lambdaForm ["x"] (.list [.symbol "eval", .symbol "e"])],
    .list [.symbol "f", .int 5]]

/-- One context, which binds the primitive of `makingHost` and an expander with this body. The
host has made one function before. -/
def deferringState : State :=
  ⟨⟨#[⟨[("make", .primitive (.host ⟨"make", "make"⟩)), ("defer", .expander 0 ["e"] deferringBody)],
    []⟩]⟩, 2, #[]⟩

theorem deferringState_tagsGiven : deferringState.TagsGiven where
  store := by
    intro id entry member
    cases id with
    | zero =>
      have entries : entry = ("make", .primitive (.host ⟨"make", "make"⟩)) ∨
          entry = ("defer", .expander 0 ["e"] deferringBody) := by
        simpa [deferringState, Store.bindingsOf, Store.get?] using member
      rcases entries with rfl | rfl
      · decide
      · decide
    | succ id =>
      rw [Store.bindingsOf_of_size_le (Nat.le_add_left 1 id)] at member
      cases member
  calls := by simp [deferringState]

/-- `(make (quote y) (make) x)`. -/
def deferredCall : Value :=
  .list [.symbol "make", .quoteForm (.symbol "y"), .list [.symbol "make"], .symbol "x"]

/-- `(defer (make (quote y) (make) x))` binds `y` where the function `f` is called, and so does
the call of a function made on the spot. The function that the host makes has the tag 3 in the
one case and the tag 4 in the other. The one that it made before is the same. -/
theorem deferred_call_runs_alike :
    ∃ s t,
      evalWithin makingHost (some 9) 8 (.list [.symbol "defer", deferredCall]) 0 0
        deferringState = .ok (.function 3 [] (.list [ownFunction, .int 5]) 3) s ∧
      evalWithin makingHost (some 9) 8
        (.list [.lambdaForm ["e"] deferringBody, deferredCall.quoteForm]) 0 0
        deferringState = .ok (.function 4 [] (.list [ownFunction, .int 5]) 3) t ∧
      s.store.bindingsOf 3 = [("x", .int 5), ("y", .list [ownFunction, .int 5])] ∧
      s.SameButTwin (passOver 2) 1 0 t := by
  obtain ⟨s, expansion, bound⟩ : ∃ s,
      evalWithin makingHost (some 9) 8 (.list [.symbol "defer", deferredCall]) 0 0
        deferringState = .ok (.function 3 [] (.list [ownFunction, .int 5]) 3) s ∧
      s.store.bindingsOf 3 = [("x", .int 5), ("y", .list [ownFunction, .int 5])] :=
    ⟨stateAfter (evalWithin makingHost (some 9) 8
      (.list [.symbol "defer", deferredCall]) 0 0) deferringState, by cbv, by cbv⟩
  have resolves : deferringState.store.resolve? 0 "defer" =
      some (.expander 0 ["e"] deferringBody) := by cbv
  have argsGiven : ∀ e ∈ [deferredCall], e.TagsBelow deferringState.nextTag := by decide
  have alike := macro_call_is_call_on_quoted_arguments makingHost_oblivious (some 9) 8 0
    deferringState_tagsGiven 0 (by decide) resolves argsGiven
  rw [expansion] at alike
  cases application : evalWithin makingHost (some 9) 8
      (.list [.lambdaForm ["e"] deferringBody, deferredCall.quoteForm]) 0 0 deferringState with
  | ok w t =>
    rw [List.map_singleton, application] at alike
    obtain ⟨rfl, same⟩ := alike
    exact ⟨s, t, expansion, rfl, bound, same⟩
  | error f t =>
    rw [List.map_singleton, application] at alike
    exact alike.elim

end ContextLisp
