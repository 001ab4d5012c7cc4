/-
# Errors

An error is its cause. The causes fall into those that the language reports,
each with a message, and those that only tell which resource or contract outside
the language was exceeded: the length of numerals, the size of a sequence, the
stack, the type of a setting, or the host's own code.

A message may show values. When one of them holds an integer too long to be
written, the message does not exist and the numeral error takes the place of the
error that was to be raised.
-/

import ContextLisp.SpecialForm
import ContextLisp.Value.Display

namespace ContextLisp

/-- Why source text is refused. -/
inductive SyntaxFault where
  /-- No token begins with this character. -/
  | badCharacter (c : Char)
  /-- The tokens end where a form should begin. -/
  | noForm
  /-- The tokens end inside a list. -/
  | unclosed
  /-- A token that neither begins a form nor ends a list stands here. -/
  | unexpected (text : String)
  /-- Lists are nested beyond what can be read. -/
  | tooDeep
  /-- A fault that the host describes. -/
  | described (message : String)
  deriving DecidableEq, Repr

/-- The words for a fault. -/
def SyntaxFault.message : SyntaxFault → String
  | .badCharacter c => "Invalid syntax " ++ Text.quoted (String.singleton c)
  | .noForm => "No tokens to compile for form"
  | .unclosed => "Invalid list form: did not terminate"
  | .unexpected text => "Unexpected token " ++ Text.quoted text
  | .tooDeep => "Form nested too deeply"
  | .described message => message

/-- A fault, where it lies and in which text. -/
structure SyntaxError where
  fault : SyntaxFault
  offset : Option Int
  source : Option String
  deriving DecidableEq, Repr

/-- The words for a fault, and its offset if it has one. -/
def SyntaxError.message? (e : SyntaxError) : Option String :=
  match e.offset with
  | none => some e.fault.message
  | some offset =>
    (Numeral.write? offset).map fun digits => e.fault.message ++ " at offset " ++ digits

/-- Where a value stands that should have been a symbol. -/
inductive NameFault where
  | binding (given : Value)
  | definition (given : Value)
  | macroName (given : Value)
  | parameter (form : String) (given : Value)
  | letBinding (given : Value)

/-- The words for a name that is none. -/
def NameFault.message? : NameFault → Option String
  | .binding v => v.inspect?.map fun t => "Cannot bind " ++ t ++ " as a symbol"
  | .definition v => v.inspect?.map fun t => "Cannot def " ++ t ++ ": not a symbol"
  | .macroName v => v.inspect?.map fun t => "Macro name must be a Symbol, got " ++ t
  | .parameter form v =>
    v.inspect?.map fun t => form ++ " parameter must be a symbol, got " ++ t
  | .letBinding v => v.inspect?.map fun t => "Cannot let-bind " ++ t ++ ": not a symbol"

/-- What has the wrong number of parts. -/
inductive ArityFault where
  /-- A callee with these names got another number of arguments. -/
  | arguments (names : List Value) (given : Nat)
  /-- A comparison got no arguments. -/
  | comparison (name : String)
  | specialForm (form : SpecialForm)
  /-- A binding list of this length has a name without an expression. -/
  | oddBindings (length : Nat)

/-- What a special form asks for. -/
def SpecialForm.requirement : SpecialForm → String
  | .define => "def requires exactly 2 arguments"
  | .defineMacro => "defmacro requires a name, a parameter list and a body"
  | .lambda => "fn requires a parameter list and a single body form"
  | .branch => "if requires a condition, a then-expression and an optional else-expression"
  | .bind => "let requires a binding list"
  | .quote => "quote expects exactly 1 argument"
  | .evaluate => "eval expects exactly one argument"

/-- The plain texts of several values. -/
def Value.displayItems? (vs : List Value) : Option (List String) :=
  vs.mapM Value.display?

/-- The words for a wrong number of parts. -/
def ArityFault.message? : ArityFault → Option String
  | .arguments names given => do
    let shown ← Value.displayItems? names
    return "Expected " ++ Nat.repr names.length ++ " argument(s) for (" ++
      " ".intercalate shown ++ "), got " ++ Nat.repr given
  | .comparison name => some (name ++ " requires at least 1 argument")
  | .specialForm form => some form.requirement
  | .oddBindings n => some ("let bindings must come in pairs, got " ++ Nat.repr n ++ " form(s)")

/-- Which values are of the wrong kind. -/
inductive KindFault where
  /-- A sum or product, by its symbol, met something that is no number. -/
  | notNumbers (symbol : String)
  /-- A comparison met two values without an order. -/
  | incomparable (name : String) (args : List Value)
  | parameterList (form : String) (given : Value)
  | letBindings (given : Value)
  /-- A primitive has no form as code. -/
  | noCode (p : Primitive)

/-- The words for values of the wrong kind. -/
def KindFault.message? : KindFault → Option String
  | .notNumbers symbol => some ("All arguments to " ++ symbol ++ " must be numbers")
  | .incomparable name args =>
    (Value.list args).inspect?.map fun t => "Cannot compare arguments to " ++ name ++ ": " ++ t
  | .parameterList form v =>
    v.inspect?.map fun t => form ++ " parameter list must be a list, got " ++ t
  | .letBindings v => v.inspect?.map fun t => "let bindings must be a list, got " ++ t
  | .noCode p => some ("Cannot embed builtin " ++ p.display ++ " as syntax")

/-- Everything that can go wrong. -/
inductive Error where
  /-- Source text was refused. -/
  | malformed (e : SyntaxError)
  /-- A name has no value in any context reached from `start`. -/
  | unbound (name : String) (start : ContextId)
  /-- The head of a form is nothing that can be called. -/
  | notCallable (callee : Value) (form : Option Value)
  /-- A value stands where a symbol must. -/
  | invalidName (fault : NameFault)
  /-- A wrong number of parts. -/
  | arity (fault : ArityFault)
  /-- Values of the wrong kind. -/
  | wrongKind (fault : KindFault)
  /-- Evaluation nested beyond its limit. -/
  | tooDeep (depth limit : Int)
  /-- Evaluation nested beyond the stack, as a whole evaluation reports it. -/
  | exhausted
  /-- A host primitive gave up. -/
  | raised (message : String)
  /-- A setting is not an integer. -/
  | badSetting (name raw : String)
  /-- A numeral cannot be read, or is too long to be read or written. -/
  | numeral
  /-- A repetition count is beyond machine size. -/
  | countOverflow
  /-- A sequence would not fit into memory. -/
  | outOfMemory
  /-- No comparison has this name. -/
  | unknownComparison (name : String)
  /-- The stack ran out. -/
  | stackOverflow
  /-- A layout setting that must be a number is none. -/
  | notANumber
  /-- Layout settings are not an object. -/
  | notAnObject
  /-- A list cannot be the key of a binding map. -/
  | listAsKey
  /-- The host's own code failed, in a way that it names. -/
  | hostFailure (kind : String)

namespace Error

/-- The words for an error, or `none` if they would show an integer that is too
long to be written. -/
def message? : Error → Option String
  | malformed e => e.message?
  | unbound name _ => some ("Cannot resolve unbound symbol " ++ name)
  | notCallable callee form => do
    let shown ← callee.inspect?
    let formShown ← match form with
      | none => some "None"
      | some f => f.inspect?
    return "Invalid callable value " ++ shown ++ " in form " ++ formShown
  | invalidName fault => fault.message?
  | arity fault => fault.message?
  | wrongKind fault => fault.message?
  | tooDeep _ limit =>
    (Numeral.write? limit).map fun t => "Maximum evaluation depth " ++ t ++ " exceeded"
  | exhausted => some "Python stack exhausted during evaluation"
  | raised message => some message
  | badSetting name raw => some (name ++ " must be an integer, got " ++ Text.quoted raw)
  | numeral => some "integer text cannot be converted"
  | countOverflow => some "repetition count is too large"
  | outOfMemory => some "sequence is too large"
  | unknownComparison name => some ("unknown comparison " ++ name)
  | stackOverflow => some "stack exhausted"
  | notANumber => some "setting must be a number"
  | notAnObject => some "settings must be an object"
  | listAsKey => some "a list cannot be a key"
  | hostFailure kind => some kind

/-- The error that is raised for a cause: the cause itself if its message can be
written, otherwise the numeral error. -/
def settle (e : Error) : Error :=
  if e.message?.isSome then e else .numeral

/-- Fail with an error outside any evaluation. -/
def fail {α : Type} (e : Error) : Except Error α :=
  .error e.settle

/-- Whether the language reports an error itself, with a message. -/
def isReported : Error → Bool
  | malformed _ | unbound .. | notCallable .. | invalidName _ | arity _ | wrongKind _
  | tooDeep .. | exhausted | raised _ => true
  | _ => false

end Error

end ContextLisp
