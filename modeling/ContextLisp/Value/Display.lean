/-
# Diagnostic text of a value

Error messages and context listings show values so that their kinds can be told
apart: names are quoted and tagged with their kind, booleans are capitalised,
lists stand in brackets. Functions and expanders show their source text.
-/

import ContextLisp.Value.Source

namespace ContextLisp.Value

mutual

/-- The diagnostic text of a value, if all its integers can be written. -/
def inspect? : Value → Option String
  | .int n => Numeral.write? n
  | .bool b => some (if b then "True" else "False")
  | .nil => some "nil"
  | .symbol name => some ("Symbol(" ++ Text.quoted name ++ ")")
  | .keyword name => some ("Keyword(" ++ Text.quoted name ++ ")")
  | .text content => some (Text.quoted content)
  | .list items => (inspectItems? items).map fun parts => "[" ++ ", ".intercalate parts ++ "]"
  | .primitive p => some p.display
  | v => v.source?

/-- The diagnostic texts of several values. -/
def inspectItems? : List Value → Option (List String)
  | [] => some []
  | v :: vs => do
    let text ← v.inspect?
    let texts ← inspectItems? vs
    return text :: texts

end

/-- The plain text of a value: names and texts as they are, anything else as in
diagnostics. -/
def display? : Value → Option String
  | .symbol name => some name
  | .keyword name => some (":" ++ name)
  | .text content => some content
  | v => v.inspect?

end ContextLisp.Value
