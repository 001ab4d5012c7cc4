/-
# What the builtins compute

Sums and products run over any number of arguments. A sum takes numbers only. A
product also repeats a list or a text by a number; the count must fit a signed
machine word and the result must fit into memory. Comparisons hold when they hold
between all neighbours.
-/

import ContextLisp.Error
import ContextLisp.Value.Order

namespace ContextLisp

namespace Builtin

/-- The largest count of a signed machine word of 64 bits. -/
def wordMax : Nat := 0x7fffffffffffffff

/-- The most items that a sequence can have, one machine word each. -/
def itemsMax : Nat := wordMax / 8

/-- Whether an integer fits a signed machine word. -/
def fitsWord (n : Int) : Bool :=
  -(wordMax : Int) - 1 ≤ n && n ≤ wordMax

/-- A sequence written several times over. -/
def replicated {α : Type} (n : Nat) (items : List α) : List α :=
  if items.isEmpty then [] else (List.replicate n items).flatten

/-- A list repeated; a count below one gives the empty list. -/
def repeatList (n : Int) (items : List Value) : Except Error Value :=
  if !fitsWord n then .error .countOverflow
  else if itemsMax < items.length * n.toNat then .error .outOfMemory
  else .ok (.list (replicated n.toNat items))

/-- A text repeated; a count below one gives the empty text. The length of the
result must be a count too. -/
def repeatText (n : Int) (content : String) : Except Error Value :=
  if !fitsWord n || wordMax < content.length * n.toNat then .error .countOverflow
  else if itemsMax < content.length * n.toNat then .error .outOfMemory
  else .ok (.text (String.ofList (replicated n.toNat content.toList)))

/-- The sum of two values that must be numbers. -/
def plus (a b : Value) : Except Error Value :=
  match a.number?, b.number? with
  | some m, some n => .ok (.int (m + n))
  | _, _ => .error (.wrongKind (.notNumbers "+"))

/-- A value repeated, if it is a sequence. -/
def repeated (n : Int) : Value → Except Error Value
  | .list items => repeatList n items
  | .text content => repeatText n content
  | _ => .error (.wrongKind (.notNumbers "*"))

/-- The product of two numbers, or a sequence repeated by a number. -/
def times (a b : Value) : Except Error Value :=
  match a.number?, b.number? with
  | some m, some n => .ok (.int (m * n))
  | some m, none => repeated m b
  | none, some n => repeated n a
  | none, none => .error (.wrongKind (.notNumbers "*"))

/-- Combine arguments from the left; the first failure ends it. -/
def combine (op : Value → Value → Except Error Value) : Value → List Value → Except Error Value
  | acc, [] => .ok acc
  | acc, v :: vs =>
    match op acc v with
    | .ok next => combine op next vs
    | .error e => .error e

/-- The sum of all arguments. -/
def sum (args : List Value) : Except Error Value :=
  combine plus (.int 0) args

/-- The product of all arguments. -/
def product (args : List Value) : Except Error Value :=
  combine times (.int 1) args

/-- Whether a comparison holds between all neighbours; it needs an argument. -/
def compareAll (c : Comparison) (args : List Value) : Except Error Value :=
  if args.isEmpty then Error.fail (.arity (.comparison c.name))
  else
    match c.chain? args with
    | some answer => .ok (.bool answer)
    | none => Error.fail (.wrongKind (.incomparable c.name args))

/-- The comparison of a name. Without arguments the name is not looked at. -/
def compareByName (name : String) (args : List Value) : Except Error Value :=
  if args.isEmpty then Error.fail (.arity (.comparison name))
  else
    match Comparison.ofName? name with
    | some c => compareAll c args
    | none => .error (.unknownComparison name)

/-- The value of a builtin on its arguments. -/
def run : Builtin → List Value → Except Error Value
  | .add => sum
  | .mul => product
  | .compare c => compareAll c

end Builtin

end ContextLisp
