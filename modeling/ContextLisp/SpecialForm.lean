/-
# Special forms

A list headed by the name of a special form is evaluated by a rule of its own.
The names are fixed: binding one of them to a value has no effect on the forms
it heads.
-/

namespace ContextLisp

/-- The forms with evaluation rules of their own. -/
inductive SpecialForm where
  | define
  | defineMacro
  | lambda
  | branch
  | bind
  | quote
  | evaluate
  deriving DecidableEq, Repr

namespace SpecialForm

/-- Every special form. -/
def all : List SpecialForm :=
  [.define, .defineMacro, .lambda, .branch, .bind, .quote, .evaluate]

/-- The symbol that heads a special form. -/
def name : SpecialForm → String
  | .define => "def"
  | .defineMacro => "defmacro"
  | .lambda => "fn"
  | .branch => "if"
  | .bind => "let"
  | .quote => "quote"
  | .evaluate => "eval"

/-- The special form that a symbol heads. -/
def ofName? (symbol : String) : Option SpecialForm :=
  all.find? fun form => form.name == symbol

end SpecialForm

end ContextLisp
