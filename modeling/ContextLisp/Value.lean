/-
# Values

One type serves for code and for data: the reader produces values, `quote` hands
them to a running program unchanged, and `eval` runs them as code again.
Integers, booleans, nil, symbols, keywords and lists can be written down; texts
come from a host; functions, expanders and primitives arise at run time.

A function remembers the context it was made in, an expander (the value of a
macro definition) does not. Each carries the tag it was made under, which alone
decides whether two of them are the same.
-/

namespace ContextLisp

/-- Names a context of a store by its place in the order of creation. -/
abbrev ContextId := Nat

/-- The relations that the comparison builtins test between neighbours. -/
inductive Comparison where
  | ge | gt | eq | lt | le
  deriving DecidableEq, Repr

/-- Every comparison, in the order in which a standard context binds them. -/
def Comparison.all : List Comparison := [.ge, .gt, .eq, .lt, .le]

/-- How a program writes a comparison. -/
def Comparison.name : Comparison → String
  | .ge => ">="
  | .gt => ">"
  | .eq => "="
  | .lt => "<"
  | .le => "<="

/-- The comparison that a program writes by a name. -/
def Comparison.ofName? (name : String) : Option Comparison :=
  Comparison.all.find? fun c => c.name == name

/-- The primitives that every standard context binds. -/
inductive Builtin where
  | add
  | mul
  | compare (relation : Comparison)
  deriving DecidableEq, Repr

/-- A primitive that the host supplies. It is known by its label, which source
text shows; diagnostics show its display text. -/
structure HostPrimitive where
  label : String
  display : String
  deriving DecidableEq, Repr

/-- What a program can call without a body of its own. -/
inductive Primitive where
  | builtin (b : Builtin)
  | host (h : HostPrimitive)
  deriving DecidableEq, Repr

/-- Code and data. -/
inductive Value where
  | int (n : Int)
  | bool (b : Bool)
  | nil
  | symbol (name : String)
  | keyword (name : String)
  | text (content : String)
  | list (items : List Value)
  | function (tag : Nat) (params : List String) (body : Value) (scope : ContextId)
  | expander (tag : Nat) (params : List String) (body : Value)
  | primitive (p : Primitive)
  deriving Inhabited

namespace Value

/-- Only `false` and `nil` count as false. -/
def isTruthy : Value → Bool
  | .bool false => false
  | .nil => false
  | _ => true

/-- The number a value counts as in arithmetic and comparison; a boolean counts
as zero or one. -/
def number? : Value → Option Int
  | .int n => some n
  | .bool b => some (if b then 1 else 0)
  | _ => none

/-- The name a value stands for where a host gives a name: a symbol or a text. -/
def bindingName? : Value → Option String
  | .symbol name => some name
  | .text name => some name
  | _ => none

/-- Functions, expanders and primitives can head a call. -/
def isCallable : Value → Bool
  | .function .. => true
  | .expander .. => true
  | .primitive _ => true
  | _ => false

end Value

/-- The primitive's name in source text. -/
def Builtin.label : Builtin → String
  | .add => "add"
  | .mul => "mul"
  | .compare c => "compare" ++ c.name

/-- The name a standard context binds a builtin to. -/
def Builtin.symbol : Builtin → String
  | .add => "+"
  | .mul => "*"
  | .compare c => c.name

/-- Every builtin, in the order in which a standard context binds them. -/
def Builtin.all : List Builtin :=
  [.add, .mul] ++ Comparison.all.map .compare

/-- The builtin of a label. -/
def Builtin.ofLabel? (label : String) : Option Builtin :=
  Builtin.all.find? fun b => b.label == label

/-- A builtin in diagnostics. Its address is never shown, and all comparisons
are written alike. -/
def Builtin.display : Builtin → String
  | .compare _ => "<function comparison.<locals>.builtin at 0x?>"
  | b => "<function " ++ b.label ++ " at 0x?>"

/-- A primitive's name in source text. -/
def Primitive.label : Primitive → String
  | .builtin b => b.label
  | .host h => h.label

/-- A primitive in diagnostics. -/
def Primitive.display : Primitive → String
  | .builtin b => b.display
  | .host h => h.display

end ContextLisp
