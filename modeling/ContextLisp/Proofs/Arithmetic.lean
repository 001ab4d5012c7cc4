/-
# Sums and products

A sum takes numbers only. It is exact, and it is refused if an argument is no number, wherever
that stands. A product does the same unless there is a list or a text among its arguments. Such
a sequence is repeated instead of being refused, and all the numbers behind it repeat what came
out so far. A count below one leaves nothing to repeat, so the order matters then.

A combination is followed up to the first operation that fails. What stands before it has a
product, and that is a number or a sequence, which settles what the operation can have met.
-/

import ContextLisp.Builtin
import Mathlib.Algebra.BigOperators.Group.List.Basic
import Mathlib.Algebra.Ring.Int.Defs

namespace ContextLisp

namespace Value

/-- The value counts as a number. -/
def isNumber (v : Value) : Bool := v.number?.isSome

/-- The value can be repeated. -/
def isSequence : Value → Bool
  | .list _ | .text _ => true
  | _ => false

theorem isNumber_of_number? {v : Value} {n : Int} (number : v.number? = some n) :
    v.isNumber = true := by
  rw [isNumber, number, Option.isSome_some]

theorem isNumber_eq_false_iff {v : Value} : v.isNumber = false ↔ v.number? = none := by
  rw [isNumber, Option.isSome_eq_false_iff, Option.isNone_iff_eq_none]

theorem isSequence_eq_false_of_isNumber {v : Value} (number : v.isNumber = true) :
    v.isSequence = false := by
  cases v with
  | list | text => cases number
  | _ => rfl

theorem number?_of_isSequence {v : Value} (sequence : v.isSequence = true) :
    v.number? = none := by
  cases v with
  | list | text => rfl
  | _ => cases sequence

end Value

namespace Builtin

variable {op : Value → Value → Except Error Value} {f : Int → Int → Int} {e : Error}
  {args : List Value} {acc a b v : Value} {n : Int}

/-! ### Exact sums and products -/

/-- On numbers the operation computes what the function does. -/
def Computes (op : Value → Value → Except Error Value) (f : Int → Int → Int) : Prop :=
  ∀ m v n, v.number? = some n → op (.int m) v = .ok (.int (f m n))

theorem computes_plus : Computes plus (· + ·) := by
  intro m v n number
  rw [plus, number]
  rfl

theorem computes_times : Computes times (· * ·) := by
  intro m v n number
  rw [times, number]
  rfl

/-- Arguments each of which is a number or refused are combined to a number, or refused. -/
theorem combine_of_numbers_or_refused (computes : Computes op f)
    (each : ∀ v ∈ args, v.isNumber = true ∨ ∀ m, op (.int m) v = .error e) (m : Int) :
    combine op (.int m) args =
      if args.all Value.isNumber then .ok (.int ((args.filterMap Value.number?).foldl f m))
      else .error e := by
  induction args generalizing m with
  | nil => rfl
  | cons v args ih =>
    rw [combine, List.all_cons]
    cases number : v.number? with
    | some n =>
      rw [computes m v n number, List.filterMap_cons_some number, List.foldl_cons,
        Value.isNumber_of_number? number, Bool.true_and]
      exact ih (fun w member => each w (List.mem_cons_of_mem v member)) (f m n)
    | none =>
      have other : v.isNumber = false := Value.isNumber_eq_false_iff.mpr number
      have refused := (each v List.mem_cons_self).resolve_left (by simp [other])
      rw [refused m, other, Bool.false_and, if_neg Bool.false_ne_true]

theorem sum_eq (args : List Value) :
    sum args =
      if args.all Value.isNumber then .ok (.int (args.filterMap Value.number?).sum)
      else .error (.wrongKind (.notNumbers "+")) := by
  have each : ∀ v ∈ args, v.isNumber = true ∨
      ∀ m, plus (.int m) v = .error (.wrongKind (.notNumbers "+")) := by
    intro v _
    cases number : v.number? with
    | some n => exact .inl (Value.isNumber_of_number? number)
    | none =>
      refine .inr fun m => ?_
      rw [plus, number]
      rfl
  rw [sum, combine_of_numbers_or_refused computes_plus each, List.sum_eq_foldl]

/-- Without a sequence among its arguments a product is like a sum. -/
theorem product_eq (plain : ∀ v ∈ args, v.isSequence = false) :
    product args =
      if args.all Value.isNumber then .ok (.int (args.filterMap Value.number?).prod)
      else .error (.wrongKind (.notNumbers "*")) := by
  have each : ∀ v ∈ args, v.isNumber = true ∨
      ∀ m, times (.int m) v = .error (.wrongKind (.notNumbers "*")) := by
    intro v member
    have single := plain v member
    cases v with
    | int | bool => exact .inl rfl
    | list | text => cases single
    | _ => exact .inr fun _ => rfl
  rw [product, combine_of_numbers_or_refused computes_times each, List.prod_eq_foldl]

/-! ### Repeated sequences -/

theorem repeated_of_isSequence (sequence : a.isSequence = true) (n : Int) :
    (∃ v, v.isSequence = true ∧ repeated n a = .ok v) ∨
      repeated n a = .error .countOverflow ∨ repeated n a = .error .outOfMemory := by
  cases a with
  | list items =>
    simp only [repeated, repeatList]
    split
    · exact .inr (.inl rfl)
    · split
      · exact .inr (.inr rfl)
      · exact .inl ⟨_, rfl, rfl⟩
  | text content =>
    simp only [repeated, repeatText]
    split
    · exact .inr (.inl rfl)
    · split
      · exact .inr (.inr rfl)
      · exact .inl ⟨_, rfl, rfl⟩
  | _ => cases sequence

theorem repeated_of_not_isSequence (single : a.isSequence = false) (n : Int) :
    repeated n a = .error (.wrongKind (.notNumbers "*")) := by
  cases a with
  | list | text => cases single
  | _ => rfl

theorem isSequence_of_repeated (ran : repeated n a = .ok v) : v.isSequence = true := by
  cases sequence : a.isSequence with
  | true =>
    rcases repeated_of_isSequence sequence n with ⟨w, made, ran'⟩ | failed | failed
    · exact Except.ok.inj (ran.symm.trans ran') ▸ made
    · cases ran.symm.trans failed
    · cases ran.symm.trans failed
  | false => cases ran.symm.trans (repeated_of_not_isSequence sequence n)

theorem repeated_refuses_iff :
    repeated n a = .error (.wrongKind (.notNumbers "*")) ↔ a.isSequence = false := by
  refine ⟨fun refused => ?_, fun single => repeated_of_not_isSequence single n⟩
  cases sequence : a.isSequence with
  | false => rfl
  | true =>
    rcases repeated_of_isSequence sequence n with ⟨w, -, ran⟩ | failed | failed
    · cases refused.symm.trans ran
    · cases refused.symm.trans failed
    · cases refused.symm.trans failed

/-! ### Two factors -/

theorem isNumber_or_isSequence_of_times (ran : times a b = .ok v) :
    v.isNumber = true ∨ v.isSequence = true := by
  unfold times at ran
  split at ran
  · cases ran
    exact .inl rfl
  · exact .inr (isSequence_of_repeated ran)
  · exact .inr (isSequence_of_repeated ran)
  · cases ran

/-- Of two factors, the first a number or a sequence, the second is refused if it is no number,
unless it is the only sequence. -/
theorem times_refuses_iff (known : a.isNumber = true ∨ a.isSequence = true) :
    times a b = .error (.wrongKind (.notNumbers "*")) ↔
      b.isNumber = false ∧ (a.isSequence = true ∨ b.isSequence = false) := by
  unfold times
  split
  · rename_i m n left right
    simp [Value.isNumber, right]
  · rename_i m left right
    have number := Value.isNumber_of_number? left
    have single := Value.isSequence_eq_false_of_isNumber number
    rw [repeated_refuses_iff, Value.isNumber_eq_false_iff]
    simp [right, single]
  · rename_i n left right
    have sequence := known.resolve_left (by simp [Value.isNumber, left])
    rw [repeated_refuses_iff]
    simp [sequence, Value.isNumber, right]
  · rename_i left right
    have sequence := known.resolve_left (by simp [Value.isNumber, left])
    simp [sequence, Value.isNumber, right]

/-! ### Many factors -/

theorem combine_append (acc : Value) (front back : List Value) :
    combine op acc (front ++ back) =
      match combine op acc front with
      | .ok next => combine op next back
      | .error e => .error e := by
  induction front generalizing acc with
  | nil => rfl
  | cons v front ih =>
    rw [List.cons_append, combine, combine]
    cases op acc v with
    | ok next => exact ih next
    | error e => rfl

/-- A combination fails at the first operation that does. -/
theorem combine_eq_error_iff :
    combine op acc args = .error e ↔
      ∃ front x back s, args = front ++ x :: back ∧ combine op acc front = .ok s ∧
        op s x = .error e := by
  constructor
  · intro failed
    induction args generalizing acc with
    | nil => cases failed
    | cons v args ih =>
      rw [combine] at failed
      cases here : op acc v with
      | ok next =>
        rw [here] at failed
        obtain ⟨front, x, back, s, rfl, before, fails⟩ := ih failed
        exact ⟨v :: front, x, back, s, rfl, by rw [combine, here]; exact before, fails⟩
      | error e' =>
        rw [here] at failed
        exact ⟨[], v, args, acc, rfl, rfl, here.trans failed⟩
  · rintro ⟨front, x, back, s, rfl, before, fails⟩
    rw [combine_append, before]
    simp only [combine, fails]

/-- A product is a number or a sequence. -/
theorem isNumber_or_isSequence_of_combine (known : acc.isNumber = true ∨ acc.isSequence = true)
    (ran : combine times acc args = .ok v) : v.isNumber = true ∨ v.isSequence = true := by
  induction args generalizing acc with
  | nil =>
    cases ran
    exact known
  | cons b args ih =>
    rw [combine] at ran
    split at ran
    · rename_i next here
      exact ih (isNumber_or_isSequence_of_times here) ran
    · cases ran

theorem sum_error (failed : sum args = .error e) : e = .wrongKind (.notNumbers "+") := by
  rw [sum_eq] at failed
  split at failed <;> cases failed
  rfl

/-- A product fails because something is no number, unless it has a sequence to repeat. -/
theorem product_error (failed : product args = .error e) :
    (∃ a ∈ args, a.isSequence = true) ∨ e = .wrongKind (.notNumbers "*") := by
  by_cases plain : ∀ v ∈ args, v.isSequence = false
  · rw [product_eq plain] at failed
    split at failed <;> cases failed
    exact .inr rfl
  · exact .inl (by simpa using plain)

/-- Factors are refused at the first one that is neither a number nor the first sequence, if the
product comes that far. -/
theorem combine_times_refuses_iff (known : acc.isNumber = true ∨ acc.isSequence = true) :
    combine times acc args = .error (.wrongKind (.notNumbers "*")) ↔
      ∃ front x back s, args = front ++ x :: back ∧ combine times acc front = .ok s ∧
        x.isNumber = false ∧ (s.isSequence = true ∨ x.isSequence = false) := by
  rw [combine_eq_error_iff]
  refine exists_congr fun front => exists_congr fun x => exists_congr fun back =>
    exists_congr fun s => and_congr_right fun _ => and_congr_right fun before => ?_
  exact times_refuses_iff (isNumber_or_isSequence_of_combine known before)

/-- A single list or text among numbers is never refused. -/
theorem product_ne_refusal_of_lone_sequence {front back : List Value}
    (sequence : a.isSequence = true) (numbers : ∀ v ∈ front ++ back, v.isNumber = true) :
    product (front ++ a :: back) ≠ .error (.wrongKind (.notNumbers "*")) := by
  obtain ⟨before, behind⟩ := List.forall_mem_append.mp numbers
  have count := product_eq fun v member => Value.isSequence_eq_false_of_isNumber (before v member)
  rw [if_pos (List.all_eq_true.mpr before), product] at count
  generalize (front.filterMap Value.number?).prod = n at count
  have reached : times (.int n) a = repeated n a := by
    rw [times, Value.number?_of_isSequence sequence]
    rfl
  rw [product, combine_append, count]
  dsimp only
  rw [combine, reached]
  rcases repeated_of_isSequence sequence n with ⟨w, made, ran⟩ | failed | failed
  · rw [ran]
    intro refused
    obtain ⟨front', x, back', s, rfl, -, wrong, -⟩ :=
      (combine_times_refuses_iff (.inr made)).mp refused
    simp [behind x] at wrong
  · simp [failed]
  · simp [failed]

/-- A sum is exact if all arguments are numbers, and refused otherwise. So is a product without
sequences among its arguments; neither depends on their order. A product of any arguments is
refused if and only if there is one that is no number, what stands before it has a product, and
it is not the first sequence. So a single list or text among numbers is never refused. -/
theorem sums_and_products_of_any_arguments (args : List Value) :
    (sum args =
      if args.all Value.isNumber then .ok (.int (args.filterMap Value.number?).sum)
      else .error (.wrongKind (.notNumbers "+"))) ∧
    ((∀ v ∈ args, v.isSequence = false) → product args =
      if args.all Value.isNumber then .ok (.int (args.filterMap Value.number?).prod)
      else .error (.wrongKind (.notNumbers "*"))) ∧
    (∀ others, args.Perm others → sum others = sum args ∧
      ((∀ v ∈ args, v.isSequence = false) → product others = product args)) ∧
    (product args = .error (.wrongKind (.notNumbers "*")) ↔
      ∃ front x back s, args = front ++ x :: back ∧ product front = .ok s ∧
        x.isNumber = false ∧ (s.isSequence = true ∨ x.isSequence = false)) ∧
    ∀ front x back, args = front ++ x :: back → x.isSequence = true →
      (∀ v ∈ front ++ back, v.isNumber = true) →
      product args ≠ .error (.wrongKind (.notNumbers "*")) := by
  refine ⟨sum_eq args, product_eq, fun others perm => ?_, combine_times_refuses_iff (.inl rfl), ?_⟩
  · have all := perm.all_eq (f := Value.isNumber)
    have numbers := perm.filterMap Value.number?
    refine ⟨by rw [sum_eq, sum_eq, all, numbers.sum_eq], fun plain => ?_⟩
    have plain' : ∀ v ∈ others, v.isSequence = false := by simpa only [← perm.mem_iff] using plain
    rw [product_eq plain, product_eq plain', all, numbers.prod_eq]
  · rintro front x back rfl sequence numbers
    exact product_ne_refusal_of_lone_sequence sequence numbers

/-- A list among the factors is repeated, as often as the numbers before it and each number behind
it say; where the numbers stand makes a difference. -/
theorem lists_are_repeated_by_products :
    product [.list [.int 1], .int 2] = .ok (.list [.int 1, .int 1]) ∧
    product [.int (-1), .int (-1), .list [.int 1]] = .ok (.list [.int 1]) ∧
    product [.list [.int 1], .int (-1), .int (-1)] = .ok (.list []) :=
  ⟨rfl, rfl, rfl⟩

end Builtin

end ContextLisp
