/-
# From text to tokens

At every place the kinds of tokens are tried in a fixed order, and the first
kind that matches at least one character wins; it takes as many characters as it
can. The order matters: `nil?` is the token `nil` and the symbol `?`, because
`nil` is tried before symbols and no longer match is looked for.

Text is cut until no kind matches. What was cut and where the cutting stopped is
a `Lexing`; a text that cannot be cut to its end is refused as a whole by
`tokenize`.
-/

import ContextLisp.Error
import ContextLisp.Token

namespace ContextLisp

/-- Characters that can begin a symbol. -/
def isSymbolStart (c : Char) : Bool :=
  c.isAlpha || ['-', '_', '?', '!', '*', '+', '<', '>', '=', '/'].contains c

/-- Characters that can continue a symbol. -/
def isSymbolPart (c : Char) : Bool :=
  isSymbolStart c || c.isDigit || c == '\''

namespace TokenKind

/-- The kinds that text produces, in the order in which they are tried. -/
def priority : List TokenKind :=
  [.opening, .closing, .blank, .integer, .boolean, .nil, .keyword, .symbol]

/-- The length of a fixed word at the front, zero if another text stands there. -/
def wordLength (word cs : List Char) : Nat :=
  if word.isPrefixOf cs then word.length else 0

/-- The length of the run of ASCII digits at the front. -/
def digitsLength (cs : List Char) : Nat :=
  (cs.takeWhile Char.isDigit).length

/-- The length of the symbol at the front. -/
def symbolLength : List Char → Nat
  | [] => 0
  | c :: cs => if isSymbolStart c then (cs.takeWhile isSymbolPart).length + 1 else 0

/-- How many characters a kind matches at the front of a text, zero if it does
not match. -/
def matchLength : TokenKind → List Char → Nat
  | .opening, '(' :: _ => 1
  | .closing, ')' :: _ => 1
  | .blank, cs => (cs.takeWhile Text.isBlank).length
  | .integer, '-' :: cs => if digitsLength cs = 0 then 0 else digitsLength cs + 1
  | .integer, cs => digitsLength cs
  | .boolean, cs =>
    max (wordLength ['t', 'r', 'u', 'e'] cs) (wordLength ['f', 'a', 'l', 's', 'e'] cs)
  | .nil, cs => wordLength ['n', 'i', 'l'] cs
  | .keyword, ':' :: cs => if symbolLength cs = 0 then 0 else symbolLength cs + 1
  | .symbol, cs => symbolLength cs
  | _, _ => 0

/-- The first of some kinds that matches at the front of a text, and the length
of its match. -/
def firstOf (cs : List Char) : List TokenKind → Option (TokenKind × Nat)
  | [] => none
  | kind :: kinds =>
    if kind.matchLength cs = 0 then firstOf cs kinds else some (kind, kind.matchLength cs)

/-- The kind and the length of the token at the front of a text. -/
def first? (cs : List Char) : Option (TokenKind × Nat) :=
  firstOf cs priority

/-- No token is empty. -/
theorem firstOf_pos {cs : List Char} {kinds : List TokenKind} {kind : TokenKind} {n : Nat}
    (h : firstOf cs kinds = some (kind, n)) : 0 < n := by
  induction kinds with
  | nil => simp [firstOf] at h
  | cons k ks ih =>
    by_cases none : k.matchLength cs = 0
    · simp only [firstOf, none, ↓reduceIte] at h
      exact ih h
    · simp only [firstOf, none, ↓reduceIte, Option.some.injEq, Prod.mk.injEq] at h
      omega

end TokenKind

/-- The tokens cut from the front of a text, and the place and character at
which no token begins, if the text does not end there. -/
structure Lexing where
  tokens : List Token
  stuck : Option (Nat × Char)
  deriving DecidableEq, Repr

namespace Lexing

/-- Cut a text that stands at an offset. -/
def ofChars (offset : Nat) (cs : List Char) : Lexing :=
  match cs with
  | [] => ⟨[], none⟩
  | c :: rest =>
    match _found : TokenKind.first? (c :: rest) with
    | none => ⟨[], some (offset, c)⟩
    | some (kind, n) =>
      let later := ofChars (offset + n) ((c :: rest).drop n)
      ⟨⟨kind, String.ofList ((c :: rest).take n), offset⟩ :: later.tokens, later.stuck⟩
termination_by cs.length
decreasing_by
  have pos := TokenKind.firstOf_pos _found
  simp only [List.length_drop, List.length_cons]
  omega

/-- Cut a whole text. -/
def ofSource (source : String) : Lexing :=
  ofChars 0 source.toList

/-- The fault of a text that could not be cut to its end. -/
def error? (lexing : Lexing) (source : String) : Option SyntaxError :=
  lexing.stuck.map fun (offset, c) => ⟨.badCharacter c, some offset, some source⟩

end Lexing

/-- All tokens of a text, or the fault at the first place where none begins. -/
def tokenize (source : String) : Except SyntaxError (List Token) :=
  let lexing := Lexing.ofSource source
  match lexing.error? source with
  | none => .ok lexing.tokens
  | some e => .error e

end ContextLisp
