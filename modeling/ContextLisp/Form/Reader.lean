/-
# From tokens to forms

The reader takes tokens one by one and keeps the lists that are open, innermost
first. An atom goes into the innermost open list, a closing token ends it, and
the list so completed goes into the next one out. A value completed with no list
open is a form.

`readForm` reads one form and tells what is left of the tokens, also when it
fails: the token at fault is gone, those after it remain. `parse` reads the first
form of a text and `parseAll` all of them.
-/

import ContextLisp.Token.Lexer
import ContextLisp.Token.Stream

namespace ContextLisp

/-- The most lists that may be open at once. -/
def nestingLimit : Nat := 480

/-- What a token means to the reader. -/
inductive TokenRole where
  | blank
  | opening
  | closing
  | atom (v : Value)
  | badNumeral
  | stray

/-- The role of a token, by its kind and text. -/
def Token.role (t : Token) : TokenRole :=
  match t.kind with
  | .opening => .opening
  | .closing => .closing
  | .blank => .blank
  | .integer =>
    match Numeral.ofText? t.text with
    | some n => .atom (.int n)
    | none => .badNumeral
  | .boolean => .atom (.bool (t.text == "true"))
  | .nil => .atom .nil
  | .keyword => .atom (.keyword (String.ofList (t.text.toList.drop 1)))
  | .symbol => .atom (.symbol t.text)
  | .other _ => .stray

/-- A list that is still open: where it began, and its items, the last first. -/
structure OpenList where
  offset : Int
  items : List Value

/-- Why no form could be read. -/
inductive ReadFault where
  | noForm
  | unclosed (offset : Int)
  | unexpected (token : Token)
  | numeral
  | tooDeep
  deriving DecidableEq, Repr

/-- What a token brings about: reading goes on with these open lists, or it
stops. -/
inductive Shift where
  | goOn (stack : List OpenList)
  | stop (outcome : Except ReadFault Value)

/-- A completed value goes into the innermost open list; with no list open it is
the form. -/
def deliver (v : Value) : List OpenList → Shift
  | [] => .stop (.ok v)
  | inner :: outer => .goOn ({ inner with items := v :: inner.items } :: outer)

/-- What one token brings about, given the open lists. -/
def shift (stack : List OpenList) (t : Token) : Shift :=
  match t.role with
  | .blank => .goOn stack
  | .opening =>
    if stack.length < nestingLimit then .goOn (⟨t.offset, []⟩ :: stack)
    else .stop (.error .tooDeep)
  | .closing =>
    match stack with
    | [] => .stop (.error (.unexpected t))
    | inner :: outer => deliver (.list inner.items.reverse) outer
  | .atom v => deliver v stack
  | .badNumeral => .stop (.error .numeral)
  | .stray => .stop (.error (.unexpected t))

/-- The fault of tokens that end too early. -/
def endFault : List OpenList → ReadFault
  | [] => .noForm
  | inner :: _ => .unclosed inner.offset

/-- Read one form with some lists open; with it comes what is left of the
tokens. -/
def readForm (stack : List OpenList) : List Token → Except ReadFault Value × List Token
  | [] => (.error (endFault stack), [])
  | t :: ts =>
    match shift stack t with
    | .goOn stack => readForm stack ts
    | .stop outcome => (outcome, ts)

/-- What is left after reading is a suffix of what there was. -/
theorem readForm_suffix (stack : List OpenList) (ts : List Token) :
    (readForm stack ts).2 <:+ ts := by
  induction ts generalizing stack with
  | nil => exact List.suffix_rfl
  | cons t ts ih =>
    rw [readForm]
    split
    · exact (ih _).trans (List.suffix_cons t ts)
    · exact List.suffix_cons t ts

/-- A form that was read took at least one token. -/
theorem length_lt_of_readForm_ok {stack : List OpenList} {ts rest : List Token} {v : Value}
    (h : readForm stack ts = (.ok v, rest)) : rest.length < ts.length := by
  cases ts with
  | nil => simp [readForm] at h
  | cons t ts =>
    have left : rest = (readForm stack (t :: ts)).2 := by rw [h]
    rw [left, readForm, List.length_cons]
    split
    · exact Nat.lt_succ_of_le (readForm_suffix _ ts).length_le
    · exact Nat.lt_succ_self _

/-- The error of a fault, in a text. -/
def ReadFault.toError (source : String) : ReadFault → Error
  | .noForm => .malformed ⟨.noForm, some source.length, some source⟩
  | .unclosed offset => .malformed ⟨.unclosed, some offset, some source⟩
  | .unexpected t => .malformed ⟨.unexpected t.text, some t.offset, some source⟩
  | .numeral => .numeral
  | .tooDeep => .stackOverflow

/-- The error of a fault in a form whose beginning is known: nesting that is too
deep is blamed on the form as a whole. -/
def ReadFault.toErrorAt (source : String) (start : Int) : ReadFault → Error
  | .tooDeep => .malformed ⟨.tooDeep, some start, some source⟩
  | fault => fault.toError source

/-- Read all forms; a fault comes with the offset at which its form begins. -/
def readAll (ts : List Token) : Except (ReadFault × Int) (List Value) :=
  match _significant : skipBlanks ts with
  | [] => .ok []
  | first :: rest =>
    match _outcome : readForm [] (first :: rest) with
    | (.error fault, _) => .error (fault, first.offset)
    | (.ok v, later) =>
      match readAll later with
      | .error fault => .error fault
      | .ok vs => .ok (v :: vs)
termination_by ts.length
decreasing_by
  have shorter := length_lt_of_readForm_ok _outcome
  rw [← _significant] at shorter
  exact Nat.lt_of_lt_of_le shorter (List.dropWhile_suffix _).length_le

/-- The first form of a text; what follows it need only consist of tokens. -/
def parse (source : String) : Except Error Value :=
  match tokenize source with
  | .error e => .error (.malformed e)
  | .ok tokens =>
    (readForm [] tokens).1.mapError
      (ReadFault.toErrorAt source (Text.leadingBlanks source.toList))

/-- All forms of a text, in order. A fault anywhere refuses the whole text. -/
def parseAll (source : String) : Except Error (List Value) :=
  match tokenize source with
  | .error e => .error (.malformed e)
  | .ok tokens => (readAll tokens).mapError fun (fault, start) => fault.toErrorAt source start

namespace TokenStream

/-- The error of a fault in a stream's text; without an offset it lies at the
end of the text. -/
def error (stream : TokenStream) (fault : SyntaxFault) (offset : Option Int) : SyntaxError :=
  ⟨fault, some (offset.getD stream.source.length), some stream.source⟩

/-- Read on with some lists open, and move the stream to what is left. -/
def readWith (stream : TokenStream) (stack : List OpenList) : Except Error Value × TokenStream :=
  let (outcome, rest) := readForm stack stream.pending
  (outcome.mapError (ReadFault.toError stream.source), stream.advanceTo rest)

/-- Read the next form. -/
def readForm (stream : TokenStream) : Except Error Value × TokenStream :=
  stream.readWith []

/-- Read the rest of a list whose opening token was taken already. -/
def readList (stream : TokenStream) (start : Token) : Except Error Value × TokenStream :=
  stream.readWith [⟨start.offset, []⟩]

end TokenStream

end ContextLisp
