/-
# Floating-point numbers of 64 bits

A number written with a fraction or an exponent is kept as the nearest binary
floating-point number of 64 bits: a significand of at most 53 bits times a power
of two that is not below `leastExponent`. Of two equally near numbers the one
with the even significand is taken. What is too large for the format is infinite,
and what is nearer to zero than to the least positive number is zero.

All arithmetic is on integers. Only the order against integers is needed here,
and that order is exact.
-/

namespace ContextLisp

/-- A floating-point number of 64 bits. A finite number is its significand times
two to the exponent, with a sign. -/
inductive Binary64 where
  | finite (negative : Bool) (significand : Nat) (exponent : Int)
  | infinite (negative : Bool)
  | nan
  deriving DecidableEq, Repr

namespace Binary64

/-- The bits of a significand. -/
def precision : Nat := 53

/-- The exponent of the least positive number. -/
def leastExponent : Int := -1074

/-- The exponent of the greatest finite numbers. -/
def greatestExponent : Int := 971

/-- A quotient rounded to the nearest integer, a half to the even one. -/
def nearestEven (num den : Nat) : Nat :=
  let whole := num / den
  let twice := 2 * (num % den)
  if twice < den then whole
  else if den < twice then whole + 1
  else whole + whole % 2

/-- Both sides of a quotient scaled so that it is divided by a power of two. -/
def scaled (num den : Nat) (exponent : Int) : Nat × Nat :=
  (num <<< (-exponent).toNat, den <<< exponent.toNat)

/-- The greatest exponent whose power of two is at most a positive quotient. -/
def floorLog2 (num den : Nat) : Int :=
  let guess : Int := num.log2 - den.log2
  let (n, d) := scaled num den guess
  if d ≤ n then guess else guess - 1

/-- The number nearest to a quotient. -/
def ofQuotient (negative : Bool) (num den : Nat) : Binary64 :=
  if num = 0 then .finite negative 0 0
  else
    let exponent := max (floorLog2 num den - (precision - 1)) leastExponent
    let (n, d) := scaled num den exponent
    let significand := nearestEven n d
    -- rounding up may carry into the next power of two
    if greatestExponent < exponent ||
        (exponent == greatestExponent && significand == 1 <<< precision) then
      .infinite negative
    else .finite negative significand exponent

/-- The number nearest to a whole number times a power of ten. Beyond 310 digits
in front of the point it is infinite, and with more than 330 zeros behind the
point it is zero, so no greater power has to be computed. -/
def ofDecimal (negative : Bool) (digits : Nat) (exponent : Int) : Binary64 :=
  let places : Int := (Nat.toDigits 10 digits).length + exponent
  if digits = 0 || places < -330 then .finite negative 0 0
  else if 310 < places then .infinite negative
  else ofQuotient negative (digits * Nat.pow 10 exponent.toNat) (Nat.pow 10 (-exponent).toNat)

/-- Whether a number is zero, of either sign. -/
def isZero : Binary64 → Bool
  | .finite _ significand _ => significand == 0
  | _ => false

/-- The significand with its sign. -/
def signed (negative : Bool) (significand : Nat) : Int :=
  if negative then -(significand : Int) else significand

/-- The greatest integer that is at most an integer times a power of two. -/
def floorScaled (m exponent : Int) : Int :=
  (m * (1 <<< exponent.toNat : Nat)).fdiv (1 <<< (-exponent).toNat : Nat)

/-- Whether a number is at least an integer. -/
def atLeast (n : Int) : Binary64 → Bool
  | .finite negative significand exponent =>
    n ≤ floorScaled (signed negative significand) exponent
  | .infinite negative => !negative
  | .nan => false

/-- Whether a number is at most an integer. -/
def atMost (n : Int) : Binary64 → Bool
  | .finite negative significand exponent =>
    -floorScaled (-signed negative significand) exponent ≤ n
  | .infinite negative => negative
  | .nan => false

end Binary64

end ContextLisp
