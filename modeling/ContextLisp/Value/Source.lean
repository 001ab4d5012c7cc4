/-
# Source text of a value

Source text is what a program would write for a value. Lists, atoms, functions
and expanders that hold only readable names can be read again; primitives and
texts are shown but not readable. No text exists for a value that holds an
integer too long to be written.
-/

import ContextLisp.Numeral
import ContextLisp.Text.Quoted
import ContextLisp.Value

namespace ContextLisp.Value

/-- The text of a callable with parameters, given the text of its body. -/
def signature (head : String) (params : List String) (body : String) : String :=
  "(" ++ head ++ " (" ++ " ".intercalate params ++ ") " ++ body ++ ")"

mutual

/-- The source text of a value, if all its integers can be written. -/
def source? : Value → Option String
  | .int n => Numeral.write? n
  | .bool b => some (if b then "true" else "false")
  | .nil => some "nil"
  | .symbol name => some name
  | .keyword name => some (":" ++ name)
  | .text content => some (Text.quoted content)
  | .list items => (sourceItems? items).map fun parts => "(" ++ " ".intercalate parts ++ ")"
  | .function _ params body _ => body.source?.map (signature "fn" params)
  | .expander _ params body => body.source?.map (signature "macro" params)
  | .primitive p => some ("#<builtin " ++ p.label ++ ">")

/-- The source texts of several values. -/
def sourceItems? : List Value → Option (List String)
  | [] => some []
  | v :: vs => do
    let text ← v.source?
    let texts ← sourceItems? vs
    return text :: texts

end

end ContextLisp.Value
