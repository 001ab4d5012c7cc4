/-
# Values as code

A run-time value can be put back into code: a function becomes the form that
made it, without its context, and an expander the like form headed by `macro`,
which reads back as data only. A primitive has no such form.
-/

import ContextLisp.Value

namespace ContextLisp.Value

/-- A parameter list as code. -/
def paramList (params : List String) : Value :=
  .list (params.map .symbol)

mutual

/-- The code of a value, or the first primitive met outside function bodies. -/
def toCode : Value → Except Primitive Value
  | .function _ params body _ => .ok (.list [.symbol "fn", paramList params, body])
  | .expander _ params body => .ok (.list [.symbol "macro", paramList params, body])
  | .list items => (toCodeItems items).map .list
  | .primitive p => .error p
  | v => .ok v

/-- The code of several values. -/
def toCodeItems : List Value → Except Primitive (List Value)
  | [] => .ok []
  | v :: vs => do
    let code ← v.toCode
    let codes ← toCodeItems vs
    return code :: codes

end

end ContextLisp.Value
