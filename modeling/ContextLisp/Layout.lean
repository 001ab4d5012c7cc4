/-
# Layout of values

A layout is a readable view of a value. A list stands on one line if it fits, and
otherwise has one item to a line, each indented two columns deeper than the list.
Values below the greatest depth are left out and shown as an ellipsis. Atoms may
be coloured by terminal escape sequences, which count towards the width.
-/

import ContextLisp.Layout.Style

namespace ContextLisp

/-- A text between the escape sequences for a colour and for no colour. -/
def paint (code text : String) : String :=
  "\x1b[" ++ code ++ "m" ++ text ++ "\x1b[0m"

/-- The colour code of a value, if the style colours it. -/
def Style.colorOf? (style : Style) : Value → Option String
  | .symbol name =>
    if (SpecialForm.ofName? name).isSome && style.colorSpecialForms then some "90"
    else if style.colorSymbols then some "94" else none
  | .keyword _ => if style.colorKeywords then some "96" else none
  | .function .. => if style.colorFunctions then some "92" else none
  | .expander .. => if style.colorExpanders then some "93" else none
  | .primitive _ => if style.colorPrimitives then some "95" else none
  | _ => none

/-- The source text of a value, coloured by its kind. -/
def colorize (style : Style) (v : Value) : Except Error String :=
  match v.source? with
  | none => .error .numeral
  | some text =>
    match style.colorOf? v with
    | none => .ok text
    | some code => .ok (paint code text)

/-- Items on one line. -/
def oneLine (parts : List String) : String :=
  "(" ++ " ".intercalate parts ++ ")"

/-- The spaces in front of an item of a list at an indentation. -/
def margin (indent : Int) : String :=
  String.ofList (List.replicate (2 * (indent + 1).toNat) ' ')

/-- Items with a line each. -/
def manyLines (indent : Int) (parts : List String) : String :=
  "(" ++ ("\n" ++ margin indent).intercalate parts ++ ")"

/-- Items on one line if that is short enough, else with a line each. -/
def arrange (style : Style) (indent : Int) (parts : List String) : Except Error String :=
  match style.maxLineLength with
  | none => .error .notANumber
  | some width =>
    if width.admits ((oneLine parts).length + indent * 2) then .ok (oneLine parts)
    else .ok (manyLines indent parts)

mutual

/-- The layout of a value at an indentation and a depth. -/
def layout (style : Style) (indent depth : Int) (v : Value) : Except Error String :=
  match style.maxDepth with
  | none => .error .notANumber
  | some deepest =>
    if deepest.reachedBy depth then .ok "…"
    else
      match v with
      | .list [] => .ok "()"
      | .list (first :: rest) => do
        let head ← layout style (indent + 1) (depth + 1) first
        let others ← layoutItems style (indent + 1) (depth + 1) rest
        arrange style indent (head :: others)
      | v => colorize style v

/-- The layouts of several values. -/
def layoutItems (style : Style) (indent depth : Int) : List Value → Except Error (List String)
  | [] => .ok []
  | v :: vs => do
    let text ← layout style indent depth v
    let texts ← layoutItems style indent depth vs
    return text :: texts

end

end ContextLisp
