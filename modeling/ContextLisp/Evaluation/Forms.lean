/-
# Evaluation rules of the special forms

Each rule takes the expressions after the head. Whatever a rule evaluates, it
evaluates one level deeper than the form itself. A definition binds in the
current context only; a binding form makes a context of its own, in which each
expression already sees the names bound before it.
-/

import ContextLisp.Evaluation.Application

namespace ContextLisp

/-- The names of a parameter list, for the form that asks for them. -/
def parameterNames (form : String) : Value → Except Error (List String)
  | .list items => go items
  | v => Error.fail (.wrongKind (.parameterList form v))
where
  /-- The names of the items, or an error for the first that is no symbol. -/
  go : List Value → Except Error (List String)
    | [] => .ok []
    | .symbol name :: rest => (go rest).map (name :: ·)
    | v :: _ => Error.fail (.invalidName (.parameter form v))

/-- Fail because a special form has the wrong number of parts. -/
def badForm {α : Type} (form : SpecialForm) : Eval α :=
  Eval.fail (.arity (.specialForm form))

/-- The rule of `(def name value)`. -/
def evalDefine (eval : Evaluator) (context : ContextId) (depth : Int) : List Value → Eval Value
  | [.symbol name, e] => do
    let v ← eval e context (depth + 1)
    Eval.define context name v
    return .nil
  | [given, _] => Eval.fail (.invalidName (.definition given))
  | _ => badForm .define

/-- The rule of `(defmacro name (param ...) body)`. -/
def evalDefineMacro (context : ContextId) : List Value → Eval Value
  | [.symbol name, params, body] => do
    let names ← Eval.ofExcept (parameterNames SpecialForm.defineMacro.name params)
    let tag ← Eval.freshTag
    Eval.define context name (.expander tag names body)
    return .nil
  | [given, _, _] => Eval.fail (.invalidName (.macroName given))
  | _ => badForm .defineMacro

/-- The rule of `(fn (param ...) body)`. -/
def evalLambda (context : ContextId) : List Value → Eval Value
  | [params, body] => do
    let names ← Eval.ofExcept (parameterNames SpecialForm.lambda.name params)
    let tag ← Eval.freshTag
    return .function tag names body context
  | _ => badForm .lambda

/-- The rule of `(if condition then)` and of `(if condition then else)`; without an
else-expression a failed condition gives nil. -/
def evalBranch (eval : Evaluator) (context : ContextId) (depth : Int) : List Value → Eval Value
  | [condition, yes] => do
    let v ← eval condition context (depth + 1)
    if v.isTruthy then eval yes context (depth + 1) else return .nil
  | [condition, yes, no] => do
    let v ← eval condition context (depth + 1)
    if v.isTruthy then eval yes context (depth + 1) else eval no context (depth + 1)
  | _ => badForm .branch

/-- Bind names to the values of the expressions that follow them, one by one. -/
def bindPairs (eval : Evaluator) (context : ContextId) (depth : Int) : List Value → Eval Unit
  | .symbol name :: e :: rest => do
    let v ← eval e context depth
    Eval.define context name v
    bindPairs eval context depth rest
  | given :: _ :: _ => Eval.fail (.invalidName (.letBinding given))
  | _ => pure ()

/-- Evaluate expressions in order, for the value of the last one. -/
def evalLast (eval : Evaluator) (context : ContextId) (depth : Int) (last : Value) :
    List Value → Eval Value
  | [] => pure last
  | e :: es => do
    let v ← eval e context depth
    evalLast eval context depth v es

/-- The rule of `(let (name value ...) body ...)`: the value of the last body form,
or nil. -/
def evalBind (eval : Evaluator) (context : ContextId) (depth : Int) : List Value → Eval Value
  | .list bindings :: body =>
    if bindings.length % 2 = 0 then do
      let inner ← Eval.create [context]
      bindPairs eval inner (depth + 1) bindings
      evalLast eval inner (depth + 1) .nil body
    else Eval.fail (.arity (.oddBindings bindings.length))
  | given :: _ => Eval.fail (.wrongKind (.letBindings given))
  | [] => badForm .bind

/-- The rule of `(quote form)`: the form itself. -/
def evalQuote : List Value → Eval Value
  | [v] => pure v
  | _ => badForm .quote

/-- The rule of `(eval form)`: the value of the form is run as code where it stands. -/
def evalEvaluate (eval : Evaluator) (context : ContextId) (depth : Int) :
    List Value → Eval Value
  | [e] => do
    let code ← eval e context (depth + 1)
    eval code context (depth + 1)
  | _ => badForm .evaluate

/-- Evaluate a special form, given the expressions after its head. -/
def evalForm (eval : Evaluator) (context : ContextId) (depth : Int) (parts : List Value) :
    SpecialForm → Eval Value
  | .define => evalDefine eval context depth parts
  | .defineMacro => evalDefineMacro context parts
  | .lambda => evalLambda context parts
  | .branch => evalBranch eval context depth parts
  | .bind => evalBind eval context depth parts
  | .quote => evalQuote parts
  | .evaluate => evalEvaluate eval context depth parts

end ContextLisp
