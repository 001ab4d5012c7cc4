/-
# Settings as JSON

Layout settings can be written as JSON. Reading stops at the first fault. Two
faults are told apart from malformed text: an integer beyond the numeral limit,
and nesting beyond what the stack allows. Of two fields with one name the later
counts. Only space, tab, line feed and carriage return are blank here.
-/

import ContextLisp.Binary64
import ContextLisp.Error

namespace ContextLisp

/-- A JSON value. A number with a fraction or an exponent is a floating-point
number. -/
inductive Json where
  | null
  | bool (b : Bool)
  | int (n : Int)
  | real (r : Binary64)
  | string (content : String)
  | array (items : List Json)
  | object (fields : List (String × Json))
  deriving Inhabited

namespace Json

/-- Why a text could not be read. -/
inductive Fault where
  | malformed
  | numeral
  | tooDeep
  deriving DecidableEq, Repr

/-- How deep values may nest. -/
def nestingLimit : Nat := 980

/-- A text without the blanks in front. -/
def skipBlanks (cs : List Char) : List Char :=
  cs.dropWhile fun c => c == ' ' || c == '\t' || c == '\n' || c == '\r'

/-- The value of a hexadecimal digit. -/
def hexValue? (c : Char) : Option Nat :=
  if c.isDigit then some (c.toNat - '0'.toNat)
  else if 'a' ≤ c && c ≤ 'f' then some (c.toNat - 'a'.toNat + 10)
  else if 'A' ≤ c && c ≤ 'F' then some (c.toNat - 'A'.toNat + 10)
  else none

/-- The code that four hexadecimal digits write. -/
def readUnit (cs : List Char) : Except Fault (Nat × List Char) :=
  match cs with
  | a :: b :: c :: d :: rest =>
    match hexValue? a, hexValue? b, hexValue? c, hexValue? d with
    | some a, some b, some c, some d => .ok (((a * 16 + b) * 16 + c) * 16 + d, rest)
    | _, _, _, _ => .error .malformed
  | _ => .error .malformed

/-- The character of a code. Half of a surrogate pair is none, and is read as the
replacement character. -/
def charOf (code : Nat) : Char :=
  if 0xd800 ≤ code && code < 0xe000 then '\ufffd' else Char.ofNat code

/-- The character written by an escape with a code, the `\u` of it being gone. A
pair of surrogates writes one character. -/
def readCode (cs : List Char) : Except Fault (Char × List Char) := do
  let (high, rest) ← readUnit cs
  if 0xd800 ≤ high && high < 0xdc00 then
    match rest with
    | '\\' :: 'u' :: more =>
      let (low, after) ← readUnit more
      if 0xdc00 ≤ low && low < 0xe000 then
        return (Char.ofNat (0x10000 + (high - 0xd800) * 0x400 + (low - 0xdc00)), after)
      else return (charOf high, rest)
    | _ => return (charOf high, rest)
  else return (charOf high, rest)

/-- The character written by an escape with one letter. -/
def simpleEscape? : Char → Option Char
  | '"' => some '"'
  | '\\' => some '\\'
  | '/' => some '/'
  | 'b' => some '\x08'
  | 'f' => some '\x0c'
  | 'n' => some '\n'
  | 'r' => some '\r'
  | 't' => some '\t'
  | _ => none

/-- The rest of a string, its opening quote being gone. `fuel` bounds its
characters, and `before` holds those read so far, the last first. -/
def readString : Nat → List Char → List Char → Except Fault (String × List Char)
  | 0, _, _ => .error .malformed
  | fuel + 1, before, cs =>
    match cs with
    | '"' :: rest => .ok (String.ofList before.reverse, rest)
    | '\\' :: 'u' :: rest =>
      match readCode rest with
      | .error fault => .error fault
      | .ok (c, rest) => readString fuel (c :: before) rest
    | '\\' :: letter :: rest =>
      match simpleEscape? letter with
      | none => .error .malformed
      | some c => readString fuel (c :: before) rest
    | c :: rest =>
      if c.toNat < 0x20 then .error .malformed else readString fuel (c :: before) rest
    | [] => .error .malformed

/-- The number that ASCII digits write. -/
def digitsValue (cs : List Char) : Nat :=
  Numeral.ofDigits (cs.map fun c => c.toNat - '0'.toNat)

/-- The digits of the fraction at the front of a text, which begins with a point;
none if no digit follows the point. -/
def spanFraction : List Char → List Char × List Char
  | '.' :: cs =>
    match cs.span Char.isDigit with
    | ([], _) => ([], '.' :: cs)
    | found => found
  | cs => ([], cs)

/-- The sign at the front of a text. -/
def spanSign : List Char → Bool × List Char
  | '+' :: cs => (false, cs)
  | '-' :: cs => (true, cs)
  | cs => (false, cs)

/-- The exponent at the front of a text: its mark, a sign or none, and at least
one digit. -/
def spanExponent (cs : List Char) : Option Int × List Char :=
  match cs with
  | mark :: more =>
    if mark == 'e' || mark == 'E' then
      let (negative, more) := spanSign more
      match more.span Char.isDigit with
      | ([], _) => (none, cs)
      | (digits, rest) => (some (Binary64.signed negative (digitsValue digits)), rest)
    else (none, cs)
  | [] => (none, [])

/-- The number that begins with given digits: an integer, unless a fraction or an
exponent follows. -/
def finishNumber (negative : Bool) (digits cs : List Char) : Except Fault (Json × List Char) :=
  match spanFraction cs with
  | (fraction, rest) =>
    match fraction, spanExponent rest with
    | [], (none, rest) =>
      match Numeral.readNat? digits with
      | some n => .ok (.int (Binary64.signed negative n), rest)
      | none => .error .numeral
    | fraction, (exponent?, rest) =>
      let value := Binary64.ofDecimal negative (digitsValue (digits ++ fraction))
        (exponent?.getD 0 - fraction.length)
      .ok (.real value, rest)

/-- A number without its sign: no zero stands in front of other digits. -/
def readNumber (negative : Bool) : List Char → Except Fault (Json × List Char)
  | '0' :: rest => finishNumber negative ['0'] rest
  | cs =>
    match cs.span Char.isDigit with
    | ([], _) => .error .malformed
    | (digits, rest) => finishNumber negative digits rest

/-- The words with a meaning of their own. -/
def words : List (List Char × Json) :=
  [("null".toList, .null), ("true".toList, .bool true), ("false".toList, .bool false),
   ("NaN".toList, .real .nan), ("Infinity".toList, .real (.infinite false)),
   ("-Infinity".toList, .real (.infinite true))]

/-- The word at the front of a text. -/
def word? (cs : List Char) : Option (Json × List Char) :=
  (words.find? fun (word, _) => word.isPrefixOf cs).map fun (word, v) =>
    (v, cs.drop word.length)

/-- A value that is neither a list nor an object. -/
def readScalar (cs : List Char) : Except Fault (Json × List Char) :=
  match word? cs with
  | some found => .ok found
  | none =>
    match cs with
    | '"' :: rest => do
      let (content, rest) ← readString (rest.length + 1) [] rest
      return (.string content, rest)
    | '-' :: rest => readNumber true rest
    | _ => readNumber false cs

/-- Enter a field: a name that is there already keeps its place and gets the new
value. -/
def setField (name : String) (v : Json) : List (String × Json) → List (String × Json)
  | [] => [(name, v)]
  | (key, old) :: rest =>
    if key = name then (key, v) :: rest else (key, old) :: setField name v rest

mutual

/-- The value at the front of a text. `room` bounds the nesting, `fuel` the
number of values. -/
def readValue (room fuel : Nat) (cs : List Char) : Except Fault (Json × List Char) :=
  match fuel with
  | 0 => .error .malformed
  | fuel + 1 =>
    match cs, room with
    | '[' :: _, 0 => .error .tooDeep
    | '\x7b' :: _, 0 => .error .tooDeep
    | '[' :: rest, room + 1 =>
      match skipBlanks rest with
      | ']' :: rest => .ok (.array [], rest)
      | rest => do
        let (items, rest) ← readItems room fuel rest
        return (.array items, rest)
    | '\x7b' :: rest, room + 1 =>
      match skipBlanks rest with
      | '\x7d' :: rest => .ok (.object [], rest)
      | rest => do
        let (fields, rest) ← readFields room fuel [] rest
        return (.object fields, rest)
    | cs, _ => readScalar cs

/-- The items of a list that has some, up to its closing bracket. -/
def readItems (room fuel : Nat) (cs : List Char) : Except Fault (List Json × List Char) :=
  match fuel with
  | 0 => .error .malformed
  | fuel + 1 => do
    let (v, rest) ← readValue room fuel cs
    match skipBlanks rest with
    | ']' :: rest => return ([v], rest)
    | ',' :: rest =>
      let (more, rest) ← readItems room fuel (skipBlanks rest)
      return (v :: more, rest)
    | _ => .error .malformed

/-- The fields of an object that has some, after those read before, up to its
closing brace. -/
def readFields (room fuel : Nat) (before : List (String × Json)) (cs : List Char) :
    Except Fault (List (String × Json) × List Char) :=
  match fuel with
  | 0 => .error .malformed
  | fuel + 1 =>
    match cs with
    | '"' :: rest => do
      let (name, rest) ← readString (rest.length + 1) [] rest
      match skipBlanks rest with
      | ':' :: rest =>
        let (v, rest) ← readValue room fuel (skipBlanks rest)
        let fields := setField name v before
        match skipBlanks rest with
        | '\x7d' :: rest => return (fields, rest)
        | ',' :: rest => readFields room fuel fields (skipBlanks rest)
        | _ => .error .malformed
      | _ => .error .malformed
    | _ => .error .malformed

end

/-- The value that a text holds, with blanks around it. -/
def parse (text : String) : Except Fault Json := do
  let cs := text.toList
  let (v, rest) ← readValue nestingLimit (2 * cs.length + 2) (skipBlanks cs)
  if (skipBlanks rest).isEmpty then return v else .error .malformed

/-- Whether a value counts as true: all do but null, false, zero and what is
empty. -/
def isTruthy : Json → Bool
  | .null => false
  | .bool b => b
  | .int n => n != 0
  | .real r => !r.isZero
  | .string content => !content.isEmpty
  | .array items => !items.isEmpty
  | .object fields => !fields.isEmpty

end Json

end ContextLisp
