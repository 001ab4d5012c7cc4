/-
# Application

What a call does depends on its head. A function gets its arguments evaluated,
left to right, in the context of the call; its body runs in a context of its own
that is searched first, then the one the function was made in, then the caller's.
An expander gets its arguments as they are written, and its body runs in a
context whose only parent is the caller's. A primitive gets the caller's context
and the evaluated arguments.
-/

import ContextLisp.Builtin
import ContextLisp.Evaluation.State

namespace ContextLisp

/-- Evaluates an expression in a context at a depth. -/
abbrev Evaluator := Value → ContextId → Int → Eval Value

/-- What the host's primitives do, given the caller's context and the arguments. -/
abbrev Host := HostPrimitive → ContextId → List Value → EStateM Error HostState Value

/-- Evaluate expressions from left to right. -/
def evalEach (eval : Evaluator) (context : ContextId) (depth : Int) :
    List Value → Eval (List Value)
  | [] => pure []
  | e :: es => do
    let v ← eval e context depth
    let vs ← evalEach eval context depth es
    return v :: vs

/-- A new context with parameters bound to arguments. -/
def extend (parents : List ContextId) (params : List String) (args : List Value) :
    Eval ContextId := do
  let id ← Eval.create parents
  Eval.defineAll id (params.map .symbol) args
  return id

/-- The context in which a callee's body runs. -/
def Value.enter (callee : Value) (args : List Value) (caller : ContextId) : Eval ContextId :=
  match callee with
  | .function _ params _ scope => extend [scope, caller] params args
  | .expander _ params _ => extend [caller] params args
  | _ => Eval.fail (.notCallable callee none)

/-- Call a primitive. -/
def callPrimitive (host : Host) (p : Primitive) (caller : ContextId) (args : List Value) :
    Eval Value := do
  Eval.record ⟨p, args⟩
  match p with
  | .builtin b => Eval.ofExcept (b.run args)
  | .host h => Eval.lend (host h caller args)

/-- Apply an evaluated head to argument expressions. -/
def apply (host : Host) (eval : Evaluator) (callee : Value) (args : List Value)
    (caller : ContextId) (depth : Int) (form : Option Value) : Eval Value :=
  match callee with
  | .function _ _ body _ => do
    let values ← evalEach eval caller (depth + 1) args
    let inner ← callee.enter values caller
    eval body inner (depth + 1)
  | .expander _ _ body => do
    let inner ← callee.enter args caller
    eval body inner (depth + 1)
  | .primitive p => do
    let values ← evalEach eval caller (depth + 1) args
    callPrimitive host p caller values
  | _ => Eval.fail (.notCallable callee form)

end ContextLisp
