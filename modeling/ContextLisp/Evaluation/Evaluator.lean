/-
# The evaluator

One evaluation step looks at an expression and asks for the values of others,
one level deeper. Symbols stand for the values they are bound to; a list headed
by the name of a special form follows that form's rule; any other list with items
is a call; everything else is its own value.

Two bounds hold evaluation in. The depth limit is part of the language: an
expression at a greater depth is an error that tells depth and limit. The stack
is the machine's: `evalWithin n` nests at most `n` steps and fails beyond that.
-/

import ContextLisp.Evaluation.Forms

namespace ContextLisp

/-- The special form that a list with this head is. -/
def Value.specialForm? : Value → Option SpecialForm
  | .symbol name => SpecialForm.ofName? name
  | _ => none

/-- Fail at a depth beyond the limit; without a limit no depth is. -/
def checkDepth (limit : Option Int) (depth : Int) : Eval Unit :=
  match limit with
  | none => pure ()
  | some most => if most < depth then Eval.fail (.tooDeep depth most) else pure ()

/-- One step of evaluation, on top of an evaluator for what lies deeper. -/
def evalStep (host : Host) (limit : Option Int) (eval : Evaluator) : Evaluator :=
  fun e context depth => do
    checkDepth limit depth
    match e with
    | .symbol name => Eval.resolve context name
    | .list [] => return .list []
    | .list (head :: parts) =>
      match head.specialForm? with
      | some form => evalForm eval context depth parts form
      | none => do
        let callee ← eval head context (depth + 1)
        apply host eval callee parts context depth (some e)
    | v => return v

/-- Evaluation with room for a number of nested steps. -/
def evalWithin (host : Host) (limit : Option Int) : Nat → Evaluator
  | 0 => fun _ _ _ => throw .stackOverflow
  | room + 1 => evalStep host limit (evalWithin host limit room)

end ContextLisp
