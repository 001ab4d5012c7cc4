/-
# Decimal numerals

Integers are unbounded, but their decimal text is not: a numeral of more than
`digitLimit` digits is neither read nor written. Reading accepts the digits of
every script, an optional sign, and single underscores between digits; leading
zeros count towards the limit, the sign and the underscores do not.
-/

import ContextLisp.Text.Blank
import ContextLisp.Text.Digit

namespace ContextLisp.Numeral

/-- The most digits a numeral may have. -/
def digitLimit : Nat := 4300

/-- The decimal text of an integer, or `none` if it is longer than the limit. -/
def write? (n : Int) : Option String :=
  if n.natAbs < Nat.pow 10 digitLimit then
    let digits := Nat.toDigits 10 n.natAbs
    some (String.ofList (if n < 0 then '-' :: digits else digits))
  else
    none

/-- The values of a non-empty run of digits, in which one underscore may stand
between two digits. -/
def digitRun? : List Char → Option (List Nat)
  | [] => none
  | [c] => (Text.digitValue? c).map fun d => [d]
  | c :: '_' :: rest => do
    let d ← Text.digitValue? c
    let ds ← digitRun? rest
    return d :: ds
  | c :: rest => do
    let d ← Text.digitValue? c
    let ds ← digitRun? rest
    return d :: ds

/-- The number that a sequence of digit values stands for, most significant
first. -/
def ofDigits (ds : List Nat) : Nat :=
  ds.foldl (fun n d => 10 * n + d) 0

/-- The number written by an unsigned numeral within the limit. -/
def readNat? (cs : List Char) : Option Nat := do
  let ds ← digitRun? cs
  if ds.length ≤ digitLimit then some (ofDigits ds) else none

/-- The number written by a numeral with an optional sign. -/
def read? : List Char → Option Int
  | '-' :: cs => (readNat? cs).map fun n => -(n : Int)
  | '+' :: cs => (readNat? cs).map Int.ofNat
  | cs => (readNat? cs).map Int.ofNat

/-- Blank characters that may surround a numeral: all but the separators. -/
def isPadding (c : Char) : Bool :=
  Text.isBlank c && !Text.isSeparator c

/-- The number written by a text that holds one numeral and padding. -/
def ofText? (text : String) : Option Int :=
  read? (Text.strip isPadding text.toList)

end ContextLisp.Numeral
