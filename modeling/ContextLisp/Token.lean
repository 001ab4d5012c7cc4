/-
# Tokens

A token is a piece of source text, its kind, and its offset in characters.
Blank runs are tokens as well; the reader passes over them. A host may hand the
reader tokens of kinds that no text produces.
-/

namespace ContextLisp

/-- The kinds of tokens. -/
inductive TokenKind where
  | opening
  | closing
  | blank
  | integer
  | boolean
  | nil
  | keyword
  | symbol
  | other (tag : String)
  deriving DecidableEq, Repr

/-- A piece of source text. -/
structure Token where
  kind : TokenKind
  text : String
  offset : Int
  deriving DecidableEq, Repr

end ContextLisp
