/-
# Equality and order of values

Equality never fails. Booleans equal the numbers they count as, lists are equal
item by item, and functions, expanders and primitives only equal themselves.

Order is partial. Numbers, with booleans among them, are ordered by size, texts
by code point. Two lists are ordered by their first unequal items, or by length
if one begins the other. Any other pair has no order.
-/

import ContextLisp.Value

namespace ContextLisp

namespace Value

mutual

/-- Equality of two values. -/
def same : Value → Value → Bool
  | .nil, .nil => true
  | .symbol a, .symbol b => a == b
  | .keyword a, .keyword b => a == b
  | .text a, .text b => a == b
  | .list as, .list bs => sameItems as bs
  | .function s _ _ _, .function t _ _ _ => s == t
  | .expander s _ _, .expander t _ _ => s == t
  | .primitive p, .primitive q => p == q
  | a, b =>
    match a.number?, b.number? with
    | some m, some n => m == n
    | _, _ => false

/-- Equality of two lists, item by item. -/
def sameItems : List Value → List Value → Bool
  | [], [] => true
  | a :: as, b :: bs => same a b && sameItems as bs
  | _, _ => false

end

mutual

/-- How two values stand in order, or `none` if they have none. -/
def order? : Value → Value → Option Ordering
  | .text a, .text b => some (compare a b)
  | .list as, .list bs => orderItems? as bs
  | a, b =>
    match a.number?, b.number? with
    | some m, some n => some (compare m n)
    | _, _ => none

/-- How two lists stand in order: by the first unequal items, else by length. -/
def orderItems? : List Value → List Value → Option Ordering
  | [], [] => some .eq
  | [], _ :: _ => some .lt
  | _ :: _, [] => some .gt
  | a :: as, b :: bs => if same a b then orderItems? as bs else order? a b

end

end Value

namespace Comparison

/-- The orderings that satisfy a comparison. -/
def accepts : Comparison → Ordering → Bool
  | .ge, o => o != .lt
  | .gt, o => o == .gt
  | .eq, o => o == .eq
  | .lt, o => o == .lt
  | .le, o => o != .gt

/-- Whether a comparison holds between two values, or `none` if it asks for an
order that they do not have. -/
def holds? (c : Comparison) (a b : Value) : Option Bool :=
  match c with
  | .eq => some (a.same b)
  | c => (a.order? b).map c.accepts

/-- Whether a comparison holds between all neighbours. The first pair that fails
it decides, so what follows need not be comparable. -/
def chain? (c : Comparison) : List Value → Option Bool
  | a :: b :: rest =>
    match c.holds? a b with
    | some true => c.chain? (b :: rest)
    | answer => answer
  | _ => some true

end Comparison

end ContextLisp
