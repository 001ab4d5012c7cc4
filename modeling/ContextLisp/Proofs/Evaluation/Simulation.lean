/-
# Evaluation under other tags

Two evaluations of the same form, under two sets of tags and in two states that are related in
some way, stay related and end alike: with the same value or the same error, under the other
tags. This needs to be known of the operations on the state and of calls of primitives only. The
rules of evaluation look at tags nowhere and pass them on.
-/

import ContextLisp.Proofs.Evaluation.Relational
import ContextLisp.Proofs.Retagging

namespace ContextLisp

/-! ### Computations that run alike -/

/-- Two results are the same, the second under other tags and in a related state. -/
inductive Alike {α : Type} (R : State → State → Prop) (ρ : Nat → Nat) (f : α → α) :
    EStateM.Result Error State α → EStateM.Result Error State α → Prop
  | ok {a : α} {s t : State} (related : R s t) : Alike R ρ f (.ok a s) (.ok (f a) t)
  | error {e : Error} {s t : State} (related : R s t) :
    Alike R ρ f (.error e s) (.error (e.retag ρ) t)

theorem Alike.imp {α : Type} {R R' : State → State → Prop} {ρ : Nat → Nat} {f : α → α}
    {r₁ r₂ : EStateM.Result Error State α} (weaker : ∀ s t, R s t → R' s t)
    (alike : Alike R ρ f r₁ r₂) : Alike R' ρ f r₁ r₂ := by
  cases alike with
  | ok related => exact .ok (weaker _ _ related)
  | error related => exact .error (weaker _ _ related)

/-- From related states two computations come to the same result. -/
def Follows {α : Type} (R : State → State → Prop) (ρ : Nat → Nat) (f : α → α)
    (m₁ m₂ : Eval α) : Prop :=
  ∀ s t, R s t → Alike R ρ f (m₁ s) (m₂ t)

/-- The operations on the state and calls of primitives run alike. -/
structure Commutes (host : Host) (ρ : Nat → Nat) (R : State → State → Prop) : Prop where
  create (parents : List ContextId) :
    Follows R ρ id (Eval.create parents) (Eval.create parents)
  define (c : ContextId) (name : String) (v : Value) :
    Follows R ρ id (Eval.define c name v) (Eval.define c name (v.retag ρ))
  resolve (c : ContextId) (name : String) :
    Follows R ρ (Value.retag ρ) (Eval.resolve c name) (Eval.resolve c name)
  freshTag : Follows R ρ ρ Eval.freshTag Eval.freshTag
  call (p : Primitive) (c : ContextId) (args : List Value) :
    Follows R ρ (Value.retag ρ) (callPrimitive host p c args)
      (callPrimitive host p c (args.map (Value.retag ρ)))

/-- An evaluator runs alike on an expression and on the same under other tags. -/
def Equivariant (R : State → State → Prop) (ρ : Nat → Nat) (eval : Evaluator) : Prop :=
  ∀ e c depth, Follows R ρ (Value.retag ρ) (eval e c depth) (eval (e.retag ρ) c depth)

section

variable {R : State → State → Prop} {ρ : Nat → Nat}

theorem follows_pure {α : Type} {f : α → α} (a : α) : Follows R ρ f (pure a) (pure (f a)) :=
  fun _ _ related => .ok related

theorem follows_throw {α : Type} {f : α → α} (e : Error) :
    Follows R ρ f (throw e) (throw (e.retag ρ)) :=
  fun _ _ related => .error related

theorem follows_fail {α : Type} {f : α → α} (e : Error) :
    Follows R ρ f (Eval.fail e) (Eval.fail (e.retag ρ)) := by
  rw [Eval.fail, Eval.fail, Error.settle_retag]
  exact follows_throw e.settle

theorem Follows.bind {α β : Type} {f : α → α} {g : β → β} {m₁ m₂ : Eval α}
    {k₁ k₂ : α → Eval β} (first : Follows R ρ f m₁ m₂)
    (rest : ∀ a, Follows R ρ g (k₁ a) (k₂ (f a))) :
    Follows R ρ g (m₁ >>= k₁) (m₂ >>= k₂) := by
  intro s t related
  have alike := first s t related
  simp only [Bind.bind, EStateM.bind]
  generalize m₁ s = result₁ at alike ⊢
  generalize m₂ t = result₂ at alike ⊢
  cases alike with
  | ok related => exact rest _ _ _ related
  | error related => exact .error related

theorem follows_ofExcept {α : Type} {f : α → α} (x : Except Error α) :
    Follows R ρ f (Eval.ofExcept x) (Eval.ofExcept (retagOutcome f ρ x)) := by
  cases x with
  | ok a => exact follows_pure a
  | error e => exact follows_throw e

end

namespace Commutes

variable {host : Host} {R : State → State → Prop} {ρ : Nat → Nat} {eval : Evaluator}

/-! ### Application -/

theorem evalEach (deeper : Equivariant R ρ eval) (c : ContextId) (depth : Int)
    (es : List Value) :
    Follows R ρ (List.map (Value.retag ρ)) (evalEach eval c depth es)
      (evalEach eval c depth (es.map (Value.retag ρ))) := by
  induction es with
  | nil => exact follows_pure []
  | cons e es ih =>
    apply (deeper e c depth).bind
    intro v
    exact ih.bind fun vs => follows_pure (v :: vs)

/-- Parameters are bound one by one to the arguments under other tags. -/
theorem defineEach_symbols (commutes : Commutes host ρ R) (c : ContextId) (params : List String)
    (args : List Value) :
    Follows R ρ id (Eval.defineEach c ((params.map Value.symbol).zip args))
      (Eval.defineEach c ((params.map Value.symbol).zip (args.map (Value.retag ρ)))) := by
  induction params generalizing args with
  | nil => exact follows_pure ()
  | cons name params ih =>
    cases args with
    | nil => exact follows_pure ()
    | cons v args => exact (commutes.define c name v).bind fun _ => ih args

theorem defineAll_symbols (commutes : Commutes host ρ R) (c : ContextId) (params : List String)
    (args : List Value) :
    Follows R ρ id (Eval.defineAll c (params.map Value.symbol) args)
      (Eval.defineAll c (params.map Value.symbol) (args.map (Value.retag ρ))) := by
  simp only [Eval.defineAll, List.length_map]
  split
  · exact commutes.defineEach_symbols c params args
  · have refused := follows_fail (R := R) (ρ := ρ) (f := @id Unit)
      (.arity (.arguments (params.map .symbol) args.length))
    simpa [Error.retag, ArityFault.retag, Function.comp_def] using refused

theorem extend (commutes : Commutes host ρ R) (parents : List ContextId)
    (params : List String) (args : List Value) :
    Follows R ρ id (extend parents params args)
      (extend parents params (args.map (Value.retag ρ))) := by
  apply (commutes.create parents).bind
  intro inner
  exact (commutes.defineAll_symbols inner params args).bind fun _ => follows_pure inner

theorem apply (commutes : Commutes host ρ R) (deeper : Equivariant R ρ eval) (callee : Value)
    (args : List Value) (c : ContextId) (depth : Int) (form : Option Value) :
    Follows R ρ (Value.retag ρ) (apply host eval callee args c depth form)
      (apply host eval (callee.retag ρ) (args.map (Value.retag ρ)) c depth
        (form.map (Value.retag ρ))) := by
  cases callee with
  | function tag params body scope =>
    apply (evalEach deeper c (depth + 1) args).bind
    intro values
    exact (commutes.extend [scope, c] params values).bind fun inner =>
      deeper body inner (depth + 1)
  | expander tag params body =>
    exact (commutes.extend [c] params args).bind fun inner => deeper body inner (depth + 1)
  | primitive p =>
    exact (evalEach deeper c (depth + 1) args).bind fun values => commutes.call p c values
  | _ => exact follows_fail (.notCallable _ form)

/-! ### Special forms -/

theorem parameterNames_retag (form : String) (params : Value) :
    parameterNames form (params.retag ρ) = retagOutcome id ρ (parameterNames form params) := by
  cases params with
  | list items =>
    rw [Value.retag_list, parameterNames, parameterNames]
    induction items with
    | nil => rfl
    | cons item items ih =>
      cases item with
      | symbol name =>
        rw [List.map_cons, Value.retag_symbol, parameterNames.go, parameterNames.go, ih]
        cases parameterNames.go form items <;> rfl
      | _ => exact congrArg Except.error (Error.settle_retag (.invalidName (.parameter form _)))
  | _ => exact congrArg Except.error (Error.settle_retag (.wrongKind (.parameterList form _)))

theorem parameterNames (form : String) (params : Value) :
    Follows R ρ id (Eval.ofExcept (parameterNames form params))
      (Eval.ofExcept (ContextLisp.parameterNames form (params.retag ρ))) := by
  rw [parameterNames_retag]
  exact follows_ofExcept _

theorem badForm {f : Value → Value} (form : SpecialForm) :
    Follows R ρ f (badForm form) (ContextLisp.badForm form) :=
  follows_fail (.arity (.specialForm form))

theorem evalDefine (commutes : Commutes host ρ R) (deeper : Equivariant R ρ eval)
    (c : ContextId) (depth : Int) (parts : List Value) :
    Follows R ρ (Value.retag ρ) (evalDefine eval c depth parts)
      (evalDefine eval c depth (parts.map (Value.retag ρ))) := by
  rcases parts with _ | ⟨given, _ | ⟨e, _ | ⟨_, _⟩⟩⟩
  · exact badForm .define
  · cases given <;> exact badForm .define
  · cases given with
    | symbol name =>
      apply (deeper e c (depth + 1)).bind
      intro v
      exact (commutes.define c name v).bind fun _ => follows_pure Value.nil
    | _ => exact follows_fail (.invalidName (.definition _))
  · cases given <;> exact badForm .define

theorem evalDefineMacro (commutes : Commutes host ρ R) (c : ContextId) (parts : List Value) :
    Follows R ρ (Value.retag ρ) (evalDefineMacro c parts)
      (evalDefineMacro c (parts.map (Value.retag ρ))) := by
  rcases parts with _ | ⟨given, _ | ⟨params, _ | ⟨body, _ | ⟨_, _⟩⟩⟩⟩
  · exact badForm .defineMacro
  · cases given <;> exact badForm .defineMacro
  · cases given <;> exact badForm .defineMacro
  · cases given with
    | symbol name =>
      apply (parameterNames _ params).bind
      intro names
      apply commutes.freshTag.bind
      intro tag
      exact (commutes.define c name (.expander tag names body)).bind fun _ => follows_pure Value.nil
    | _ => exact follows_fail (.invalidName (.macroName _))
  · cases given <;> exact badForm .defineMacro

theorem evalLambda (commutes : Commutes host ρ R) (c : ContextId) (parts : List Value) :
    Follows R ρ (Value.retag ρ) (evalLambda c parts)
      (evalLambda c (parts.map (Value.retag ρ))) := by
  rcases parts with _ | ⟨params, _ | ⟨body, _ | ⟨_, _⟩⟩⟩
  · exact badForm .lambda
  · exact badForm .lambda
  · apply (parameterNames _ params).bind
    intro names
    exact commutes.freshTag.bind fun tag => follows_pure (Value.function tag names body c)
  · exact badForm .lambda

theorem evalBranch (deeper : Equivariant R ρ eval) (c : ContextId) (depth : Int)
    (parts : List Value) :
    Follows R ρ (Value.retag ρ) (evalBranch eval c depth parts)
      (evalBranch eval c depth (parts.map (Value.retag ρ))) := by
  rcases parts with _ | ⟨condition, _ | ⟨yes, _ | ⟨no, _ | ⟨_, _⟩⟩⟩⟩
  · exact badForm .branch
  · exact badForm .branch
  · apply (deeper condition c (depth + 1)).bind
    intro v
    rw [Value.isTruthy_retag]
    split
    · exact deeper yes c (depth + 1)
    · exact follows_pure Value.nil
  · apply (deeper condition c (depth + 1)).bind
    intro v
    rw [Value.isTruthy_retag]
    split
    · exact deeper yes c (depth + 1)
    · exact deeper no c (depth + 1)
  · exact badForm .branch

theorem bindPairs (commutes : Commutes host ρ R) (deeper : Equivariant R ρ eval)
    (c : ContextId) (depth : Int) (bindings : List Value) :
    Follows R ρ id (bindPairs eval c depth bindings)
      (bindPairs eval c depth (bindings.map (Value.retag ρ))) := by
  fun_induction ContextLisp.bindPairs eval c depth bindings with
  | case1 name e rest ih =>
    apply (deeper e c depth).bind
    intro v
    exact (commutes.define c name v).bind fun _ => ih
  | case2 given e rest notSymbol =>
    cases given with
    | symbol name => exact absurd rfl (notSymbol name)
    | _ => exact follows_fail (.invalidName (.letBinding _))
  | case3 bindings notPair notGiven =>
    rcases bindings with _ | ⟨given, _ | ⟨e, rest⟩⟩
    · exact follows_pure ()
    · cases given <;> exact follows_pure ()
    · exact absurd rfl (notGiven given e rest)

theorem evalLast (deeper : Equivariant R ρ eval) (c : ContextId) (depth : Int) (last : Value)
    (body : List Value) :
    Follows R ρ (Value.retag ρ) (evalLast eval c depth last body)
      (evalLast eval c depth (last.retag ρ) (body.map (Value.retag ρ))) := by
  induction body generalizing last with
  | nil => exact follows_pure last
  | cons e es ih => exact (deeper e c depth).bind ih

theorem evalBind (commutes : Commutes host ρ R) (deeper : Equivariant R ρ eval)
    (c : ContextId) (depth : Int) (parts : List Value) :
    Follows R ρ (Value.retag ρ) (evalBind eval c depth parts)
      (evalBind eval c depth (parts.map (Value.retag ρ))) := by
  rcases parts with _ | ⟨given, body⟩
  · exact badForm .bind
  · cases given with
    | list bindings =>
      simp only [List.map_cons, Value.retag_list, ContextLisp.evalBind, List.length_map]
      split
      · apply (commutes.create [c]).bind
        intro inner
        exact (commutes.bindPairs deeper inner (depth + 1) bindings).bind fun _ =>
          evalLast deeper inner (depth + 1) .nil body
      · exact follows_fail (.arity (.oddBindings bindings.length))
    | _ => exact follows_fail (.wrongKind (.letBindings _))

theorem evalQuote (parts : List Value) :
    Follows R ρ (Value.retag ρ) (evalQuote parts) (evalQuote (parts.map (Value.retag ρ))) := by
  rcases parts with _ | ⟨v, _ | ⟨_, _⟩⟩
  · exact badForm .quote
  · exact follows_pure v
  · exact badForm .quote

theorem evalEvaluate (deeper : Equivariant R ρ eval) (c : ContextId) (depth : Int)
    (parts : List Value) :
    Follows R ρ (Value.retag ρ) (evalEvaluate eval c depth parts)
      (evalEvaluate eval c depth (parts.map (Value.retag ρ))) := by
  rcases parts with _ | ⟨e, _ | ⟨_, _⟩⟩
  · exact badForm .evaluate
  · exact (deeper e c (depth + 1)).bind fun code => deeper code c (depth + 1)
  · exact badForm .evaluate

theorem evalForm (commutes : Commutes host ρ R) (deeper : Equivariant R ρ eval)
    (c : ContextId) (depth : Int) (parts : List Value) (form : SpecialForm) :
    Follows R ρ (Value.retag ρ) (evalForm eval c depth parts form)
      (evalForm eval c depth (parts.map (Value.retag ρ)) form) := by
  cases form with
  | define => exact commutes.evalDefine deeper c depth parts
  | defineMacro => exact commutes.evalDefineMacro c parts
  | lambda => exact commutes.evalLambda c parts
  | branch => exact evalBranch deeper c depth parts
  | bind => exact commutes.evalBind deeper c depth parts
  | quote => exact evalQuote parts
  | evaluate => exact evalEvaluate deeper c depth parts

/-! ### Evaluation -/

theorem checkDepth (limit : Option Int) (depth : Int) :
    Follows R ρ id (checkDepth limit depth) (ContextLisp.checkDepth limit depth) := by
  cases limit with
  | none => exact follows_pure ()
  | some most =>
    simp only [ContextLisp.checkDepth]
    split
    · exact follows_fail (.tooDeep depth most)
    · exact follows_pure ()

theorem specialForm?_retag (v : Value) : (v.retag ρ).specialForm? = v.specialForm? := by
  cases v <;> rfl

/-- One step runs alike if what lies deeper does. -/
theorem evalStep (commutes : Commutes host ρ R) (limit : Option Int)
    (deeper : Equivariant R ρ eval) : Equivariant R ρ (evalStep host limit eval) := by
  intro e c depth
  apply (checkDepth limit depth).bind
  intro _
  cases e with
  | symbol name => exact commutes.resolve c name
  | list items =>
    cases items with
    | nil => exact follows_pure (Value.list [])
    | cons head parts =>
      simp only [Value.retag_list, List.map_cons, specialForm?_retag]
      cases head.specialForm? with
      | some form => exact commutes.evalForm deeper c depth parts form
      | none =>
        apply (deeper head c (depth + 1)).bind
        intro callee
        simpa using commutes.apply deeper callee parts c depth (some (.list (head :: parts)))
  | _ => exact follows_pure _

theorem evalWithin (commutes : Commutes host ρ R) (limit : Option Int) (room : Nat) :
    Equivariant R ρ (evalWithin host limit room) := by
  induction room with
  | zero => exact fun _ _ _ => follows_throw .stackOverflow
  | succ room ih => exact commutes.evalStep limit ih

end Commutes

end ContextLisp
