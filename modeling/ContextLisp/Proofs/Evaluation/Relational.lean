/-
# Relations that evaluation respects

Evaluation is put together from a few operations on the state and from
sequencing. A relation between computations that holds of each operation and
itself, and that sequencing carries along, holds between two evaluations of a form
as soon as it holds between what the two evaluate one level deeper. Nothing about
the rules of evaluation has to be looked at again for another relation.

The relation may depend on the context in which a computation runs. The rules leave
a context in one way only: they make a new one, with the old one among its parents,
and run the rest there.

A property of single computations is a relation that ignores its second side.
-/

import ContextLisp.Evaluation.Evaluator
import Mathlib

namespace ContextLisp

/-! ### Operations that only look -/

/-- A name has the value that the search finds, or is an error that tells where the
search began. -/
theorem resolve_apply (c : ContextId) (name : String) (s : State) :
    Eval.resolve c name s = match s.store.resolve? c name with
      | some v => .ok v s
      | none => .error (.unbound name c) s := by
  cases found : s.store.resolve? c name <;>
    simp [Eval.resolve, bind, EStateM.bind, get, getThe, MonadStateOf.get, EStateM.get,
      found, pure, EStateM.pure, throw, throwThe, MonadExceptOf.throw, EStateM.throw]

/-- The depth check passes or fails, and touches nothing. -/
theorem checkDepth_cases (limit : Option Int) (depth : Int) (s : State) :
    checkDepth limit depth s = .ok () s ∨ ∃ e, checkDepth limit depth s = .error e s := by
  unfold checkDepth
  split
  · exact .inl rfl
  · split
    · exact .inr ⟨_, rfl⟩
    · exact .inl rfl

/-! ### Relations between computations -/

/-- The errors by which the rules of evaluation themselves refuse a form. What a call
blames is nothing that can be called, and the form it shows is a list that no special
form heads. -/
inductive Rejection : Error → Prop
  | arity (fault : ArityFault) : Rejection (.arity fault)
  | invalidName (fault : NameFault) : Rejection (.invalidName fault)
  | wrongKind (fault : KindFault) : Rejection (.wrongKind fault)
  | notCallable {callee head : Value} (parts : List Value)
      (uncallable : callee.isCallable = false) (ordinary : head.specialForm? = none) :
      Rejection (.notCallable callee (some (.list (head :: parts))))

/-- A relation between computations, for each context that they run in. -/
abbrev EvalRelation := ContextId → (α : Type) → Eval α → Eval α → Prop

/-- Every operation of evaluation is related to itself, and sequencing keeps
computations related. -/
structure Respectful (host : Host) (R : EvalRelation) : Prop where
  pure (c : ContextId) {α : Type} (a : α) : R c α (pure a) (pure a)
  bind {c : ContextId} {α β : Type} {m₁ m₂ : Eval α} {f₁ f₂ : α → Eval β} :
    R c α m₁ m₂ → (∀ a, R c β (f₁ a) (f₂ a)) → R c β (m₁ >>= f₁) (m₂ >>= f₂)
  /-- What runs in a new context is related there. -/
  enter {c : ContextId} {parents : List ContextId} {α : Type} {f₁ f₂ : ContextId → Eval α} :
    c ∈ parents → (∀ inner, R inner α (f₁ inner) (f₂ inner)) →
      R c α (Eval.create parents >>= f₁) (Eval.create parents >>= f₂)
  reject (c : ContextId) {α : Type} {e : Error} :
    Rejection e → R c α (Eval.fail e) (Eval.fail e)
  define (c : ContextId) (name : String) (v : Value) :
    R c Unit (Eval.define c name v) (Eval.define c name v)
  resolve (c : ContextId) (name : String) :
    R c Value (Eval.resolve c name) (Eval.resolve c name)
  freshTag (c : ContextId) : R c Nat Eval.freshTag Eval.freshTag
  call (c : ContextId) (p : Primitive) (args : List Value) :
    R c Value (callPrimitive host p c args) (callPrimitive host p c args)

/-- Two evaluators are related at a depth if they are on every expression, in every
context. -/
def RelatedAt (R : EvalRelation) (depth : Int) (eval₁ eval₂ : Evaluator) : Prop :=
  ∀ e c, R c Value (eval₁ e c depth) (eval₂ e c depth)

namespace Respectful

variable {host : Host} {R : EvalRelation} {eval₁ eval₂ : Evaluator} {depth : Int}

/-! ### Application -/

theorem evalEach (respects : Respectful host R) (same : RelatedAt R depth eval₁ eval₂)
    (c : ContextId) (es : List Value) :
    R c (List Value) (evalEach eval₁ c depth es) (evalEach eval₂ c depth es) := by
  induction es with
  | nil => exact respects.pure c []
  | cons e es ih =>
    apply respects.bind (same e c)
    intro v
    exact respects.bind ih fun vs => respects.pure c (v :: vs)

/-- Binding symbols one by one binds nothing elsewhere. -/
theorem defineEach_symbols (respects : Respectful host R) (c : ContextId)
    (params : List String) (args : List Value) :
    R c Unit (Eval.defineEach c ((params.map Value.symbol).zip args))
      (Eval.defineEach c ((params.map Value.symbol).zip args)) := by
  induction params generalizing args with
  | nil => exact respects.pure c ()
  | cons name params ih =>
    cases args with
    | nil => exact respects.pure c ()
    | cons v args => exact respects.bind (respects.define c name v) fun _ => ih args

theorem defineAll_symbols (respects : Respectful host R) (c : ContextId)
    (params : List String) (args : List Value) :
    R c Unit (Eval.defineAll c (params.map Value.symbol) args)
      (Eval.defineAll c (params.map Value.symbol) args) := by
  unfold Eval.defineAll
  split
  · exact respects.defineEach_symbols c params args
  · exact respects.reject c (.arity _)

/-- A body that runs in a new context with its parameters bound. -/
theorem extend (respects : Respectful host R) (same : RelatedAt R depth eval₁ eval₂)
    {c : ContextId} {parents : List ContextId} (inherits : c ∈ parents)
    (params : List String) (args : List Value) (body : Value) :
    R c Value (extend parents params args >>= fun inner => eval₁ body inner depth)
      (extend parents params args >>= fun inner => eval₂ body inner depth) := by
  simp only [ContextLisp.extend, bind_assoc, pure_bind]
  apply respects.enter inherits
  intro inner
  exact respects.bind (respects.defineAll_symbols inner params args) fun _ => same body inner

theorem apply (respects : Respectful host R) (deeper : RelatedAt R (depth + 1) eval₁ eval₂)
    (callee : Value) (args : List Value) (c : ContextId) {form : Option Value}
    (blamed : callee.isCallable = false → Rejection (.notCallable callee form)) :
    R c Value (apply host eval₁ callee args c depth form)
      (apply host eval₂ callee args c depth form) := by
  cases callee with
  | function tag params body scope =>
    apply respects.bind (respects.evalEach deeper c args)
    intro values
    exact respects.extend deeper (by simp) params values body
  | expander tag params body => exact respects.extend deeper (by simp) params args body
  | primitive p =>
    exact respects.bind (respects.evalEach deeper c args) fun values => respects.call c p values
  | _ => exact respects.reject c (blamed rfl)

/-! ### Special forms -/

/-- A parameter list gives its names or is refused. -/
theorem parameterNames (respects : Respectful host R) (c : ContextId) (form : String)
    (params : Value) :
    R c (List String) (Eval.ofExcept (parameterNames form params))
      (Eval.ofExcept (parameterNames form params)) := by
  cases params with
  | list items =>
    simp only [ContextLisp.parameterNames]
    induction items with
    | nil => exact respects.pure c []
    | cons item items ih =>
      cases item with
      | symbol name =>
        simp only [parameterNames.go]
        cases rest : parameterNames.go form items with
        | ok names => exact respects.pure c (name :: names)
        | error e =>
          rw [rest] at ih
          have passed : (Eval.ofExcept (.error e) : Eval (List String)) =
              Eval.ofExcept (Except.map (name :: ·) (.error e)) := rfl
          exact passed ▸ ih
      | _ => exact respects.reject c (.invalidName _)
  | _ => exact respects.reject c (.wrongKind _)

theorem evalDefine (respects : Respectful host R)
    (deeper : RelatedAt R (depth + 1) eval₁ eval₂) (c : ContextId) (parts : List Value) :
    R c Value (evalDefine eval₁ c depth parts) (evalDefine eval₂ c depth parts) := by
  unfold ContextLisp.evalDefine
  split
  · apply respects.bind (deeper _ c)
    intro v
    exact respects.bind (respects.define c _ v) fun _ => respects.pure c _
  · exact respects.reject c (.invalidName _)
  · exact respects.reject c (.arity _)

theorem evalDefineMacro (respects : Respectful host R) (c : ContextId) (parts : List Value) :
    R c Value (evalDefineMacro c parts) (evalDefineMacro c parts) := by
  unfold ContextLisp.evalDefineMacro
  split
  · apply respects.bind (respects.parameterNames c _ _)
    intro names
    apply respects.bind (respects.freshTag c)
    intro tag
    exact respects.bind (respects.define c _ _) fun _ => respects.pure c _
  · exact respects.reject c (.invalidName _)
  · exact respects.reject c (.arity _)

theorem evalLambda (respects : Respectful host R) (c : ContextId) (parts : List Value) :
    R c Value (evalLambda c parts) (evalLambda c parts) := by
  unfold ContextLisp.evalLambda
  split
  · apply respects.bind (respects.parameterNames c _ _)
    intro names
    exact respects.bind (respects.freshTag c) fun tag => respects.pure c _
  · exact respects.reject c (.arity _)

theorem evalBranch (respects : Respectful host R)
    (deeper : RelatedAt R (depth + 1) eval₁ eval₂) (c : ContextId) (parts : List Value) :
    R c Value (evalBranch eval₁ c depth parts) (evalBranch eval₂ c depth parts) := by
  unfold ContextLisp.evalBranch
  split
  · apply respects.bind (deeper _ c)
    intro v
    split
    · exact deeper _ c
    · exact respects.pure c _
  · apply respects.bind (deeper _ c)
    intro v
    split
    · exact deeper _ c
    · exact deeper _ c
  · exact respects.reject c (.arity _)

theorem bindPairs (respects : Respectful host R) (same : RelatedAt R depth eval₁ eval₂)
    (c : ContextId) (bindings : List Value) :
    R c Unit (bindPairs eval₁ c depth bindings) (bindPairs eval₂ c depth bindings) := by
  fun_induction ContextLisp.bindPairs eval₁ c depth bindings with
  | case1 name e rest ih =>
    apply respects.bind (same e c)
    intro v
    exact respects.bind (respects.define c name v) fun _ => ih
  | case2 given e rest notSymbol =>
    rw [ContextLisp.bindPairs]
    · exact respects.reject c (.invalidName _)
    · exact notSymbol
  | case3 bindings notPair notGiven =>
    rw [ContextLisp.bindPairs]
    · exact respects.pure c ()
    · exact notPair
    · exact notGiven

theorem evalLast (respects : Respectful host R) (same : RelatedAt R depth eval₁ eval₂)
    (c : ContextId) (last : Value) (body : List Value) :
    R c Value (evalLast eval₁ c depth last body) (evalLast eval₂ c depth last body) := by
  induction body generalizing last with
  | nil => exact respects.pure c last
  | cons e es ih => exact respects.bind (same e c) fun v => ih v

theorem evalBind (respects : Respectful host R)
    (deeper : RelatedAt R (depth + 1) eval₁ eval₂) (c : ContextId) (parts : List Value) :
    R c Value (evalBind eval₁ c depth parts) (evalBind eval₂ c depth parts) := by
  unfold ContextLisp.evalBind
  split
  · split
    · apply respects.enter (by simp)
      intro inner
      apply respects.bind (respects.bindPairs deeper inner _)
      intro _
      exact respects.evalLast deeper inner _ _
    · exact respects.reject c (.arity _)
  · exact respects.reject c (.wrongKind _)
  · exact respects.reject c (.arity _)

theorem evalQuote (respects : Respectful host R) (c : ContextId) (parts : List Value) :
    R c Value (evalQuote parts) (evalQuote parts) := by
  unfold ContextLisp.evalQuote
  split
  · exact respects.pure c _
  · exact respects.reject c (.arity _)

theorem evalEvaluate (respects : Respectful host R)
    (deeper : RelatedAt R (depth + 1) eval₁ eval₂) (c : ContextId) (parts : List Value) :
    R c Value (evalEvaluate eval₁ c depth parts) (evalEvaluate eval₂ c depth parts) := by
  unfold ContextLisp.evalEvaluate
  split
  · exact respects.bind (deeper _ c) fun code => deeper code c
  · exact respects.reject c (.arity _)

theorem evalForm (respects : Respectful host R)
    (deeper : RelatedAt R (depth + 1) eval₁ eval₂) (c : ContextId) (parts : List Value)
    (form : SpecialForm) :
    R c Value (evalForm eval₁ c depth parts form) (evalForm eval₂ c depth parts form) := by
  cases form with
  | define => exact respects.evalDefine deeper c parts
  | defineMacro => exact respects.evalDefineMacro c parts
  | lambda => exact respects.evalLambda c parts
  | branch => exact respects.evalBranch deeper c parts
  | bind => exact respects.evalBind deeper c parts
  | quote => exact respects.evalQuote c parts
  | evaluate => exact respects.evalEvaluate deeper c parts

/-! ### One step of evaluation -/

/-- Two steps of evaluation are related if their depth checks are and if what they
evaluate one level deeper is. -/
theorem evalStep (respects : Respectful host R) {limit₁ limit₂ : Option Int}
    (deeper : RelatedAt R (depth + 1) eval₁ eval₂)
    (checks : ∀ c, R c Unit (checkDepth limit₁ depth) (checkDepth limit₂ depth)) :
    RelatedAt R depth (evalStep host limit₁ eval₁) (evalStep host limit₂ eval₂) := by
  intro e c
  apply respects.bind (checks c)
  intro _
  cases e with
  | symbol name => exact respects.resolve c name
  | list items =>
    cases items with
    | nil => exact respects.pure c _
    | cons head parts =>
      cases special : head.specialForm? with
      | some form =>
        simp only [special]
        exact respects.evalForm deeper c parts form
      | none =>
        simp only [special]
        apply respects.bind (deeper head c)
        intro callee
        exact respects.apply deeper callee parts c fun h => .notCallable parts h special
  | _ => exact respects.pure c _

end Respectful

end ContextLisp
