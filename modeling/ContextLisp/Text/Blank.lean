/-
# Blank characters

Blank characters separate tokens and surround numerals. They are the ASCII
controls from tab to carriage return, the four information separators, the
space, and the blanks of Unicode.
-/

namespace ContextLisp.Text

/-- The information separators, file to unit: blank between tokens, but not
around a numeral. -/
def isSeparator (c : Char) : Bool :=
  0x1c ≤ c.val && c.val ≤ 0x1f

/-- Every blank character. -/
def isBlank (c : Char) : Bool :=
  c == ' ' || (0x09 ≤ c.val && c.val ≤ 0x0d) || isSeparator c ||
    c.val == 0x85 || c.val == 0xa0 || c.val == 0x1680 ||
    (0x2000 ≤ c.val && c.val ≤ 0x200a) || c.val == 0x2028 || c.val == 0x2029 ||
    c.val == 0x202f || c.val == 0x205f || c.val == 0x3000

/-- Remove the characters of a class from both ends. -/
def strip (cls : Char → Bool) (cs : List Char) : List Char :=
  ((cs.dropWhile cls).reverse.dropWhile cls).reverse

/-- How many blank characters a text begins with. -/
def leadingBlanks (cs : List Char) : Nat :=
  (cs.takeWhile isBlank).length

end ContextLisp.Text
