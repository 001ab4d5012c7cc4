/-
# Token streams

A token stream hands out tokens one by one, and takes back a token that was
looked at too early. Tokens pushed back are handed out again, the last one
first, before the stream goes on.
-/

import ContextLisp.Token

namespace ContextLisp

/-- Tokens still to be handed out. -/
structure TokenStream where
  /-- Tokens pushed back, the next one first. -/
  buffer : List Token
  /-- Tokens never handed out. -/
  upcoming : List Token
  /-- The text that errors refer to. -/
  source : String
  deriving Repr

/-- Tokens without the blank ones in front. -/
def skipBlanks (tokens : List Token) : List Token :=
  tokens.dropWhile fun t => t.kind == .blank

namespace TokenStream

/-- The stream of given tokens. -/
def ofTokens (tokens : List Token) (source : String) : TokenStream :=
  ⟨[], tokens, source⟩

/-- All tokens still to come, in order. -/
def pending (stream : TokenStream) : List Token :=
  stream.buffer ++ stream.upcoming

/-- Drop tokens from the front. -/
def advance (stream : TokenStream) (n : Nat) : TokenStream :=
  { stream with
    buffer := stream.buffer.drop n
    upcoming := stream.upcoming.drop (n - stream.buffer.length) }

/-- Drop tokens from the front until as many remain as in a given suffix. -/
def advanceTo (stream : TokenStream) (rest : List Token) : TokenStream :=
  stream.advance (stream.pending.length - rest.length)

/-- Hand a token back. -/
def pushBack (stream : TokenStream) (token : Token) : TokenStream :=
  { stream with buffer := token :: stream.buffer }

/-- The next token, if any, and the stream after it. -/
def next (stream : TokenStream) : Option Token × TokenStream :=
  (stream.pending.head?, stream.advance 1)

/-- The next token that is not blank, if any, and the stream after it. -/
def nextSignificant (stream : TokenStream) : Option Token × TokenStream :=
  match skipBlanks stream.pending with
  | [] => (none, stream.advanceTo [])
  | token :: rest => (some token, stream.advanceTo rest)

/-- Whether only blank tokens are left. If not, the next token that is not blank
is moved to the top of the buffer. -/
def atEnd (stream : TokenStream) : Bool × TokenStream :=
  match stream.nextSignificant with
  | (none, stream) => (true, stream)
  | (some token, stream) => (false, stream.pushBack token)

/-- Hand out everything. -/
def drain (stream : TokenStream) : List Token × TokenStream :=
  (stream.pending, stream.advanceTo [])

/-- Advancing drops tokens from what is pending. -/
@[simp] theorem pending_advance (stream : TokenStream) (n : Nat) :
    (stream.advance n).pending = stream.pending.drop n := by
  simp [pending, advance, List.drop_append]

/-- A token handed back comes next. -/
@[simp] theorem pending_pushBack (stream : TokenStream) (token : Token) :
    (stream.pushBack token).pending = token :: stream.pending := rfl

/-- Advancing to a suffix leaves that suffix pending. -/
theorem pending_advanceTo (stream : TokenStream) {rest : List Token}
    (suffix : rest <:+ stream.pending) : (stream.advanceTo rest).pending = rest := by
  obtain ⟨front, whole⟩ := suffix
  rw [advanceTo, pending_advance, ← whole]
  simp

end TokenStream

end ContextLisp
