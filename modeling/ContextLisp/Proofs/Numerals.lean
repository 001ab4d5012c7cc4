/-
# Reading numerals and writing them

An integer below the limit's power of ten can be written, and reading its text gives
the integer back. Whatever numeral is read, in any script and with any underscores,
the number it stands for can be written again. Plain digits are read as the number that
they write in base ten.
-/

import ContextLisp.Numeral
import Mathlib

namespace ContextLisp

/-- Nothing is stripped from a text without characters of the class. -/
theorem Text.strip_eq_self {cls : Char → Bool} {cs : List Char}
    (clear : ∀ c ∈ cs, cls c = false) : Text.strip cls cs = cs := by
  have keep : ∀ {ds : List Char}, (∀ c ∈ ds, cls c = false) → ds.dropWhile cls = ds := by
    intro ds free
    cases ds with
    | nil => rfl
    | cons d ds => simp [free d (by simp)]
  have back : ∀ c ∈ cs.reverse, cls c = false := fun c member => clear c (by simpa using member)
  rw [Text.strip, keep clear, keep back, List.reverse_reverse]

namespace Numeral

/-! ### The bound on numbers that are read -/

theorem ofDigits_lt {ds : List Nat} (small : ∀ d ∈ ds, d < 10) :
    ofDigits ds < 10 ^ ds.length := by
  -- From a number already read, each digit multiplies the first number out of reach by ten.
  have step : ∀ (ds : List Nat) (n bound : Nat), n < bound → (∀ d ∈ ds, d < 10) →
      ds.foldl (fun n d => 10 * n + d) n < bound * 10 ^ ds.length := by
    intro ds
    induction ds with
    | nil => simp
    | cons d ds ih =>
      intro n bound below small
      have next : 10 * n + d < bound * 10 := by
        have digit := small d (by simp)
        omega
      have rest := ih (10 * n + d) (bound * 10) next fun x member => small x (by simp [member])
      calc (d :: ds).foldl (fun n d => 10 * n + d) n
          = ds.foldl (fun n d => 10 * n + d) (10 * n + d) := rfl
        _ < bound * 10 * 10 ^ ds.length := rest
        _ = bound * 10 ^ (d :: ds).length := by
          rw [List.length_cons, Nat.pow_succ, Nat.mul_assoc, Nat.mul_comm 10]
  simpa [ofDigits] using step ds 0 1 Nat.one_pos small

theorem digitRun?_lt {cs : List Char} {ds : List Nat} (run : digitRun? cs = some ds) :
    ∀ d ∈ ds, d < 10 := by
  fun_induction digitRun? cs generalizing ds with
  | case1 => simp at run
  | case2 c =>
    obtain ⟨d, value, rfl⟩ := Option.map_eq_some_iff.mp run
    simpa using Text.digitValue?_lt value
  | case3 c rest ih =>
    obtain ⟨d, value, ds, later, rfl⟩ : ∃ d, Text.digitValue? c = some d ∧
        ∃ later, digitRun? rest = some later ∧ d :: later = ds := by
      simpa [Option.bind_eq_some_iff] using run
    simpa [Text.digitValue?_lt value] using ih later
  | case4 c rest _ _ ih =>
    obtain ⟨d, value, ds, later, rfl⟩ : ∃ d, Text.digitValue? c = some d ∧
        ∃ later, digitRun? rest = some later ∧ d :: later = ds := by
      simpa [Option.bind_eq_some_iff] using run
    simpa [Text.digitValue?_lt value] using ih later

theorem readNat?_lt {cs : List Char} {n : Nat} (read : readNat? cs = some n) :
    n < 10 ^ digitLimit := by
  obtain ⟨ds, run, within⟩ := Option.bind_eq_some_iff.mp read
  split at within
  · rename_i short
    obtain rfl := Option.some.inj within
    exact Nat.lt_of_lt_of_le (ofDigits_lt (digitRun?_lt run))
      (Nat.pow_le_pow_right (by decide) short)
  · cases within

theorem read?_minus (cs : List Char) :
    read? ('-' :: cs) = (readNat? cs).map fun n : Nat => -(n : Int) := by
  rw [read?]
  cases readNat? cs <;> rfl

/-- A numeral that is read stands for a number below the limit's power of ten. -/
theorem read?_natAbs_lt {cs : List Char} {n : Int} (read : read? cs = some n) :
    n.natAbs < 10 ^ digitLimit := by
  by_cases signed : ∃ rest, cs = '-' :: rest
  · obtain ⟨rest, rfl⟩ := signed
    rw [read?_minus] at read
    obtain ⟨m, value, rfl⟩ := Option.map_eq_some_iff.mp read
    simpa using readNat?_lt value
  unfold read? at read
  split at read
  · exact absurd ⟨_, rfl⟩ signed
  · obtain ⟨m, value, rfl⟩ := Option.map_eq_some_iff.mp read
    simpa using readNat?_lt value
  · obtain ⟨m, value, rfl⟩ := Option.map_eq_some_iff.mp read
    simpa using readNat?_lt value

theorem ofText?_natAbs_lt {text : String} {n : Int} (read : ofText? text = some n) :
    n.natAbs < 10 ^ digitLimit :=
  read?_natAbs_lt read

/-! ### Writing -/

/-- The characters of a written integer. -/
def digits (n : Int) : List Char :=
  if n < 0 then '-' :: Nat.toDigits 10 n.natAbs else Nat.toDigits 10 n.natAbs

theorem write?_of_lt {n : Int} (short : n.natAbs < 10 ^ digitLimit) :
    write? n = some (String.ofList (digits n)) := by
  rw [write?, Nat.pow_eq, if_pos short]
  rfl

/-! ### Reading what was written -/

theorem digitValue?_of_isDigit {c : Char} (digit : c.isDigit = true) :
    Text.digitValue? c = some (c.toNat - 48) := by
  have range : 48 ≤ c.toNat ∧ c.toNat < 58 := by
    simp only [Char.isDigit, Bool.and_eq_true, decide_eq_true_eq, ge_iff_le,
      UInt32.le_iff_toNat_le] at digit
    exact ⟨digit.1, Nat.lt_succ_of_le digit.2⟩
  simp [Text.digitValue?, Text.zeroDigits, range]

theorem digitRun?_of_isDigit {cs : List Char} (nonempty : cs ≠ [])
    (all : ∀ c ∈ cs, c.isDigit = true) :
    digitRun? cs = some (cs.map fun c => c.toNat - 48) := by
  fun_induction digitRun? cs with
  | case1 => exact absurd rfl nonempty
  | case2 c => simp [digitValue?_of_isDigit (all c (by simp))]
  | case3 c rest ih =>
    have underscore : ('_').isDigit = true := all '_' (by simp)
    exact absurd underscore (by decide)
  | case4 c rest single _ ih =>
    have more : rest ≠ [] := fun h => single (by rw [h])
    have later := ih more fun d member => all d (by simp [member])
    simp [digitValue?_of_isDigit (all c (by simp)), later]

/-- The number that digits write in base ten: the last one counts ones, and each one ten times as
much as the one behind it. -/
def decimal (digits : List Char) : Nat :=
  Nat.ofDigits 10 (digits.reverse.map fun c => c.toNat - '0'.toNat)

/-- The integer that digits write, or digits behind a minus sign. -/
def signedDecimal : List Char → Int
  | '-' :: digits => -(decimal digits : Int)
  | digits => decimal digits

theorem ofDigits_eq (ds : List Nat) : ofDigits ds = Nat.ofDigits 10 ds.reverse := by
  simp only [ofDigits, Nat.ofDigits_eq_foldr, List.foldr_reverse, Nat.cast_id, Nat.add_comm]

/-- Digits are read as the number that they write, if they are not too many. -/
theorem readNat?_of_isDigit {cs : List Char} (nonempty : cs ≠ [])
    (all : ∀ c ∈ cs, c.isDigit = true) :
    readNat? cs = if cs.length ≤ digitLimit then some (decimal cs) else none := by
  rw [readNat?, digitRun?_of_isDigit nonempty all]
  simp [ofDigits_eq, decimal]

section

variable {cs : List Char} (all : ∀ c ∈ cs, c.isDigit = true)
include all

/-- Digits begin with no sign. -/
theorem ne_cons_of_isDigit {sign : Char} (other : sign.isDigit = false) (rest : List Char) :
    cs ≠ sign :: rest := by
  rintro rfl
  rw [all sign List.mem_cons_self] at other
  cases other

theorem read?_of_isDigit : read? cs = (readNat? cs).map Int.ofNat := by
  unfold read?
  split
  · exact absurd rfl (ne_cons_of_isDigit all (by decide) _)
  · exact absurd rfl (ne_cons_of_isDigit all (by decide) _)
  · rfl

theorem signedDecimal_of_isDigit : signedDecimal cs = decimal cs := by
  unfold signedDecimal
  split
  · exact absurd rfl (ne_cons_of_isDigit all (by decide) _)
  · rfl

end

theorem decimal_toDigits (n : Nat) : decimal (Nat.toDigits 10 n) = n := by
  rw [decimal, List.map_reverse, ← ofDigits_eq, ofDigits, List.foldl_map]
  exact Nat.ofDigitChars_ten_toDigits

theorem isDigit_toDigits (n : Nat) : ∀ c ∈ Nat.toDigits 10 n, c.isDigit = true :=
  fun _ member => Nat.isDigit_of_mem_toDigits (by decide) (by decide) member

theorem readNat?_toDigits {n : Nat} (short : n < 10 ^ digitLimit) :
    readNat? (Nat.toDigits 10 n) = some n := by
  have few : (Nat.toDigits 10 n).length ≤ digitLimit :=
    (Nat.length_toDigits_le_iff (by decide) (by decide)).mpr short
  rw [readNat?_of_isDigit Nat.toDigits_ne_nil (isDigit_toDigits n), if_pos few, decimal_toDigits]

/-- Digits of an integer read back as the integer. -/
theorem read?_digits {n : Int} (short : n.natAbs < 10 ^ digitLimit) :
    read? (digits n) = some n := by
  unfold digits
  split
  · rename_i negative
    rw [read?_minus, readNat?_toDigits short, Option.map_some, Option.some.injEq]
    omega
  · rename_i nonnegative
    rw [read?_of_isDigit (isDigit_toDigits _), readNat?_toDigits short, Option.map_some,
      Option.some.injEq]
    exact Int.natAbs_of_nonneg (Int.not_lt.mp nonnegative)

/-- Every character of a written integer is an ASCII digit or the sign. -/
theorem isDigit_or_sign_of_mem_digits {n : Int} {c : Char} (member : c ∈ digits n) :
    c.isDigit = true ∨ c = '-' := by
  unfold digits at member
  split at member
  · rcases List.mem_cons.mp member with rfl | member
    · exact .inr rfl
    · exact .inl (isDigit_toDigits _ c member)
  · exact .inl (isDigit_toDigits _ c member)

end Numeral

end ContextLisp
