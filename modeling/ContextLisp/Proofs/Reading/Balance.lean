/-
# Balanced parentheses

A text is read exactly if its parentheses are balanced: in no front of it do closing tokens
outnumber opening ones, and in the whole there are as many of one as of the other. If they
are not balanced, the error tells where. The first closing token with no list open is blamed
before anything else; without one, the opening token of the innermost list that was never
closed is.

The counts and the reader meet in a scan that keeps the opening tokens of the lists still
open. The reader's stack always holds as many lists, with the offsets of these tokens, and
what the scan leaves open is told by the counts alone.
-/

import ContextLisp.Proofs.Reading.Literals

namespace ContextLisp

/-! ### Counts -/

/-- How many tokens open a list. -/
def openings (ts : List Token) : Nat := ts.countP (·.kind = .opening)

/-- How many tokens close a list. -/
def closings (ts : List Token) : Nat := ts.countP (·.kind = .closing)

/-- No front closes more lists than it opens, and the whole closes as many. -/
def Balanced (ts : List Token) : Prop :=
  (∀ front, front <+: ts → closings front ≤ openings front) ∧ openings ts = closings ts

/-- The token with which closing tokens outnumber opening ones for the first time. -/
def FirstStray (ts : List Token) (t : Token) : Prop :=
  ∃ front back, ts = front ++ t :: back ∧
    (∀ p, p <+: front → closings p ≤ openings p) ∧
    openings (front ++ [t]) < closings (front ++ [t])

/-- A list that is opened right before these tokens is closed among them. -/
def Closes (ts : List Token) : Prop :=
  ∃ front, front <+: ts ∧ openings front < closings front

/-- The last token to open a list that is never closed. -/
def LastUnclosed (ts : List Token) (t : Token) : Prop :=
  ∃ front back, ts = front ++ t :: back ∧ t.kind = .opening ∧ ¬ Closes back ∧
    ∀ f u b, back = f ++ u :: b → u.kind = .opening → Closes b

/-! ### Depth -/

/-- How a token changes the number of open lists. -/
def Token.step (t : Token) : Int :=
  if t.kind = .opening then 1 else if t.kind = .closing then -1 else 0

/-- How many more lists are opened than closed. -/
def depth (ts : List Token) : Int := (ts.map Token.step).sum

@[simp] theorem depth_nil : depth [] = 0 := rfl

@[simp] theorem depth_cons (t : Token) (ts : List Token) : depth (t :: ts) = t.step + depth ts := by
  simp [depth]

@[simp] theorem depth_append (ts us : List Token) : depth (ts ++ us) = depth ts + depth us := by
  simp [depth]

theorem depth_eq (ts : List Token) : depth ts = openings ts - closings ts := by
  induction ts with
  | nil => rfl
  | cons t ts ih =>
    rw [depth_cons, ih, Token.step, openings, closings, openings, closings]
    by_cases opening : t.kind = .opening
    · simp [opening]
      omega
    · by_cases closing : t.kind = .closing
      · simp [closing]
        omega
      · simp [opening, closing]

theorem step_of_opening {t : Token} (kind : t.kind = .opening) : t.step = 1 := if_pos kind

theorem step_of_closing {t : Token} (kind : t.kind = .closing) : t.step = -1 := by
  simp [Token.step, kind]

theorem step_of_other {t : Token} (notOpening : t.kind ≠ .opening)
    (notClosing : t.kind ≠ .closing) : t.step = 0 := by
  simp [Token.step, notOpening, notClosing]

/-- A condition that holds of the depth after every front, from a depth to begin with. -/
def Throughout (Q : Int → Prop) (start : Int) (ts : List Token) : Prop :=
  ∀ front, front <+: ts → Q (start + depth front)

theorem throughout_nil {Q : Int → Prop} {start : Int} : Throughout Q start [] ↔ Q start := by
  simp [Throughout]

theorem throughout_cons {Q : Int → Prop} {start : Int} {t : Token} {ts : List Token} :
    Throughout Q start (t :: ts) ↔ Q start ∧ Throughout Q (start + t.step) ts := by
  constructor
  · intro all
    refine ⟨by simpa using all [] List.nil_prefix, fun front before => ?_⟩
    have whole := all (t :: front) (List.prefix_cons_inj t |>.mpr before)
    rwa [depth_cons, ← Int.add_assoc] at whole
  · rintro ⟨first, later⟩ front before
    cases front with
    | nil => simpa using first
    | cons u front =>
      obtain ⟨rfl, rest⟩ := List.cons_prefix_cons.mp before
      rw [depth_cons, ← Int.add_assoc]
      exact later front rest

/-- The depth never falls below zero. -/
abbrev NeverBelow : Int → List Token → Prop := Throughout (0 ≤ ·)

/-- The depth stays within the nesting limit. -/
abbrev NestsWithin : Int → List Token → Prop := Throughout (· ≤ nestingLimit)

theorem neverBelow_cons {start : Int} {t : Token} {ts : List Token} :
    NeverBelow start (t :: ts) ↔ 0 ≤ start ∧ NeverBelow (start + t.step) ts :=
  throughout_cons

theorem nestsWithin_cons {start : Int} {t : Token} {ts : List Token} :
    NestsWithin start (t :: ts) ↔
      start ≤ nestingLimit ∧ NestsWithin (start + t.step) ts :=
  throughout_cons

theorem neverBelow_iff (ts : List Token) :
    NeverBelow 0 ts ↔ ∀ front, front <+: ts → closings front ≤ openings front := by
  refine forall_congr' fun front => imp_congr_right fun _ => ?_
  rw [depth_eq]
  omega

/-! ### The tokens of open lists -/

/-- The opening tokens of the lists that are open after some tokens, the innermost first, or
the first closing token that finds none open. -/
def leftOpen (opened : List Token) : List Token → Except Token (List Token)
  | [] => .ok opened
  | t :: ts =>
    if t.kind = .opening then leftOpen (t :: opened) ts
    else if t.kind = .closing then
      match opened with
      | [] => .error t
      | _ :: outer => leftOpen outer ts
    else leftOpen opened ts

section LeftOpen

variable {opened left outer : List Token} {t u : Token} {ts : List Token}

theorem leftOpen_cons (opened : List Token) (t : Token) (ts : List Token) :
    leftOpen opened (t :: ts) =
      if t.kind = .opening then leftOpen (t :: opened) ts
      else if t.kind = .closing then
        match opened with
        | [] => .error t
        | _ :: outer => leftOpen outer ts
      else leftOpen opened ts := by
  cases opened <;> rfl

theorem leftOpen_opening (kind : t.kind = .opening) :
    leftOpen opened (t :: ts) = leftOpen (t :: opened) ts := by
  rw [leftOpen_cons, if_pos kind]

theorem leftOpen_closing_nil (kind : t.kind = .closing) : leftOpen [] (t :: ts) = .error t := by
  simp [leftOpen_cons, kind]

theorem leftOpen_closing_cons (kind : t.kind = .closing) :
    leftOpen (u :: opened) (t :: ts) = leftOpen opened ts := by
  simp [leftOpen_cons, kind]

theorem leftOpen_other (notOpening : t.kind ≠ .opening) (notClosing : t.kind ≠ .closing) :
    leftOpen opened (t :: ts) = leftOpen opened ts := by
  rw [leftOpen_cons, if_neg notOpening, if_neg notClosing]

/-- A second run of tokens is scanned with what the first leaves open. -/
theorem leftOpen_append (scanned : leftOpen opened ts = .ok left) (us : List Token) :
    leftOpen opened (ts ++ us) = leftOpen left us := by
  fun_induction leftOpen opened ts with
  | case1 =>
    cases scanned
    rfl
  | case2 opened t ts kind ih =>
    rw [List.cons_append, leftOpen_opening kind]
    exact ih scanned
  | case3 => cases scanned
  | case4 t ts _ kind u outer ih =>
    rw [List.cons_append, leftOpen_closing_cons kind]
    exact ih scanned
  | case5 opened t ts notOpening notClosing ih =>
    rw [List.cons_append, leftOpen_other notOpening notClosing]
    exact ih scanned

/-- Lists further out have no part in a scan that does not come down to them. -/
theorem leftOpen_below (scanned : leftOpen opened ts = .ok left) (outer : List Token) :
    leftOpen (opened ++ outer) ts = .ok (left ++ outer) := by
  fun_induction leftOpen opened ts with
  | case1 =>
    cases scanned
    rfl
  | case2 opened t ts kind ih =>
    rw [leftOpen_opening kind]
    exact ih scanned
  | case3 => cases scanned
  | case4 t ts _ kind u inner ih =>
    rw [List.cons_append, leftOpen_closing_cons kind]
    exact ih scanned
  | case5 opened t ts notOpening notClosing ih =>
    rw [leftOpen_other notOpening notClosing]
    exact ih scanned

/-- A scan that comes to the end never finds too few lists open, and the depth tells how many
it leaves. -/
theorem depth_of_leftOpen_ok (scanned : leftOpen opened ts = .ok left) :
    NeverBelow opened.length ts ∧ (left.length : Int) = opened.length + depth ts := by
  fun_induction leftOpen opened ts with
  | case1 opened =>
    cases scanned
    simp [throughout_nil]
  | case2 opened t ts kind ih =>
    obtain ⟨never, total⟩ := ih scanned
    rw [neverBelow_cons, depth_cons, step_of_opening kind]
    rw [List.length_cons, Int.natCast_succ] at never total
    exact ⟨⟨Int.natCast_nonneg _, never⟩, by omega⟩
  | case3 => cases scanned
  | case4 t ts _ kind u outer ih =>
    obtain ⟨never, total⟩ := ih scanned
    rw [neverBelow_cons, depth_cons, step_of_closing kind, List.length_cons, Int.natCast_succ,
      Int.add_neg_cancel_right]
    exact ⟨⟨by omega, never⟩, by omega⟩
  | case5 opened t ts notOpening notClosing ih =>
    rw [neverBelow_cons, depth_cons, step_of_other notOpening notClosing, Int.add_zero,
      Int.zero_add]
    exact ⟨⟨Int.natCast_nonneg _, (ih scanned).1⟩, (ih scanned).2⟩

/-- A scan that fails does so at the first token after which the depth is below zero. -/
theorem depth_of_leftOpen_error (scanned : leftOpen opened ts = .error t) :
    ∃ front back, ts = front ++ t :: back ∧ NeverBelow opened.length front ∧
      opened.length + depth (front ++ [t]) < 0 := by
  fun_induction leftOpen opened ts with
  | case1 => cases scanned
  | case2 opened u ts kind ih =>
    obtain ⟨front, back, rfl, never, below⟩ := ih scanned
    rw [List.length_cons, Int.natCast_succ] at never below
    refine ⟨u :: front, back, rfl, ?_, ?_⟩
    · rw [neverBelow_cons, step_of_opening kind]
      exact ⟨Int.natCast_nonneg _, never⟩
    · rw [List.cons_append, depth_cons, step_of_opening kind]
      omega
  | case3 u ts _ kind =>
    cases scanned
    exact ⟨[], ts, rfl, by simp [throughout_nil], by simp [step_of_closing kind]⟩
  | case4 u ts _ kind inner outer ih =>
    obtain ⟨front, back, rfl, never, below⟩ := ih scanned
    refine ⟨u :: front, back, rfl, ?_, ?_⟩
    · rw [neverBelow_cons, step_of_closing kind, List.length_cons, Int.natCast_succ,
        Int.add_neg_cancel_right]
      exact ⟨by omega, never⟩
    · rw [List.cons_append, depth_cons, step_of_closing kind, List.length_cons, Int.natCast_succ]
      omega
  | case5 opened u ts notOpening notClosing ih =>
    obtain ⟨front, back, rfl, never, below⟩ := ih scanned
    refine ⟨u :: front, back, rfl, ?_, ?_⟩
    · rw [neverBelow_cons, step_of_other notOpening notClosing, Int.add_zero]
      exact ⟨Int.natCast_nonneg _, never⟩
    · rw [List.cons_append, depth_cons, step_of_other notOpening notClosing, Int.zero_add]
      exact below

/-- Only a token that closes a list makes a scan fail. -/
theorem closing_of_leftOpen_error (scanned : leftOpen opened ts = .error t) :
    t ∈ ts ∧ t.kind = .closing := by
  fun_induction leftOpen opened ts with
  | case1 => cases scanned
  | case3 u ts _ kind =>
    cases scanned
    exact ⟨List.mem_cons_self, kind⟩
  | case2 _ _ _ _ ih | case4 _ _ _ _ _ _ ih | case5 _ _ _ _ _ ih =>
    exact ⟨List.mem_cons_of_mem _ (ih scanned).1, (ih scanned).2⟩

/-- A scan comes to the end if the depth never falls below zero. -/
theorem exists_leftOpen_of_neverBelow (never : NeverBelow opened.length ts) :
    ∃ left, leftOpen opened ts = .ok left := by
  cases scanned : leftOpen opened ts with
  | ok left => exact ⟨left, rfl⟩
  | error t =>
    obtain ⟨front, back, rfl, _, below⟩ := depth_of_leftOpen_error scanned
    have above := never (front ++ [t]) ⟨back, by simp⟩
    omega

/-- The innermost list that a scan leaves open was open before, and everything else that was
open inside it is closed; or it was opened on the way, and everything opened after it is
closed. -/
theorem split_of_leftOpen_cons (scanned : leftOpen opened ts = .ok (t :: outer)) :
    (∃ inner, opened = inner ++ t :: outer ∧ leftOpen inner ts = .ok []) ∨
    ∃ front back, ts = front ++ t :: back ∧ t.kind = .opening ∧
      leftOpen opened front = .ok outer ∧ leftOpen [] back = .ok [] := by
  fun_induction leftOpen opened ts with
  | case1 =>
    cases scanned
    exact .inl ⟨[], rfl, rfl⟩
  | case2 opened u ts kind ih =>
    rcases ih scanned with ⟨inner, shape, closed⟩ | ⟨front, back, rfl, opening, before, after⟩
    · cases inner with
      | nil =>
        obtain ⟨rfl, rfl⟩ := List.cons.inj shape
        exact .inr ⟨[], ts, rfl, kind, rfl, closed⟩
      | cons v inner =>
        obtain ⟨rfl, rfl⟩ := List.cons.inj shape
        exact .inl ⟨inner, rfl, by rwa [leftOpen_opening kind]⟩
    · exact .inr ⟨u :: front, back, rfl, opening, by rwa [leftOpen_opening kind], after⟩
  | case3 => cases scanned
  | case4 u ts _ kind v opened ih =>
    rcases ih scanned with ⟨inner, rfl, closed⟩ | ⟨front, back, rfl, opening, before, after⟩
    · exact .inl ⟨v :: inner, rfl, by rwa [leftOpen_closing_cons kind]⟩
    · exact .inr ⟨u :: front, back, rfl, opening, by rwa [leftOpen_closing_cons kind], after⟩
  | case5 opened u ts notOpening notClosing ih =>
    rcases ih scanned with ⟨inner, rfl, closed⟩ | ⟨front, back, rfl, opening, before, after⟩
    · exact .inl ⟨inner, rfl, by rwa [leftOpen_other notOpening notClosing]⟩
    · exact .inr ⟨u :: front, back, rfl, opening,
        by rwa [leftOpen_other notOpening notClosing], after⟩

end LeftOpen

/-! ### Scans and counts -/

theorem leftOpen_eq_nil_iff (ts : List Token) : leftOpen [] ts = .ok [] ↔ Balanced ts := by
  rw [Balanced, ← neverBelow_iff]
  constructor
  · intro scanned
    obtain ⟨never, total⟩ := depth_of_leftOpen_ok scanned
    rw [depth_eq, List.length_nil] at total
    exact ⟨by simpa using never, by omega⟩
  · rintro ⟨never, equal⟩
    obtain ⟨left, scanned⟩ := @exists_leftOpen_of_neverBelow [] ts (by simpa using never)
    have total := (depth_of_leftOpen_ok scanned).2
    rw [depth_eq, equal] at total
    have none : left = [] := List.length_eq_zero_iff.mp (by simpa using total)
    rw [scanned, none]

theorem leftOpen_eq_error_iff (ts : List Token) (t : Token) :
    leftOpen [] ts = .error t ↔ FirstStray ts t := by
  constructor
  · intro scanned
    obtain ⟨front, back, shape, never, below⟩ := depth_of_leftOpen_error scanned
    refine ⟨front, back, shape, (neverBelow_iff front).mp (by simpa using never), ?_⟩
    rw [depth_eq] at below
    simp only [List.length_nil] at below
    omega
  · rintro ⟨front, back, rfl, fronts, more⟩
    have never : NeverBelow (([] : List Token).length : Int) front := by
      simpa using (neverBelow_iff front).mpr fronts
    obtain ⟨left, scanned⟩ := exists_leftOpen_of_neverBelow never
    obtain ⟨_, total⟩ := depth_of_leftOpen_ok scanned
    have below : depth (front ++ [t]) < 0 := by
      rw [depth_eq]
      omega
    have closing : t.kind = .closing ∧ left = [] := by
      by_cases opening : t.kind = .opening
      · simp [step_of_opening opening] at below total
        omega
      · by_cases closing : t.kind = .closing
        · refine ⟨closing, List.length_eq_zero_iff.mp ?_⟩
          simp [step_of_closing closing] at below total
          omega
        · simp [step_of_other opening closing] at below total
          omega
    rw [leftOpen_append scanned, closing.2, leftOpen_closing_nil closing.1]

theorem lastUnclosed_of_leftOpen {ts outer : List Token} {t : Token}
    (scanned : leftOpen [] ts = .ok (t :: outer)) : LastUnclosed ts t := by
  rcases split_of_leftOpen_cons scanned with
    ⟨inner, shape, _⟩ | ⟨front, back, rfl, opening, _, closed⟩
  · exact absurd shape (by simp)
  · obtain ⟨fronts, total⟩ := (leftOpen_eq_nil_iff back).mp closed
    refine ⟨front, back, rfl, opening, ?_, ?_⟩
    · rintro ⟨p, before, more⟩
      have fewer := fronts p before
      omega
    · rintro f u b rfl kind
      have before := fronts f ⟨u :: b, rfl⟩
      refine ⟨b, List.prefix_rfl, ?_⟩
      simp [openings, closings, kind] at before total ⊢
      omega

theorem leftOpen_of_lastUnclosed {ts : List Token} {t : Token} (never : NeverBelow 0 ts)
    (last : LastUnclosed ts t) : ∃ outer, leftOpen [] ts = .ok (t :: outer) := by
  obtain ⟨front, back, rfl, opening, unclosed, others⟩ := last
  have neverFront : NeverBelow (([] : List Token).length : Int) front := fun p before => by
    simpa using never p (before.trans (List.prefix_append _ _))
  obtain ⟨outer, scannedFront⟩ := exists_leftOpen_of_neverBelow neverFront
  have neverBack : NeverBelow (([] : List Token).length : Int) back := by
    rw [List.length_nil, Int.natCast_zero, neverBelow_iff]
    intro p before
    by_contra more
    exact unclosed ⟨p, before, Nat.lt_of_not_le more⟩
  obtain ⟨left, scannedBack⟩ := exists_leftOpen_of_neverBelow neverBack
  have none : left = [] := by
    cases left with
    | nil => rfl
    | cons u left =>
      obtain ⟨f, b, shape, kind, unclosed', _⟩ := lastUnclosed_of_leftOpen scannedBack
      exact absurd (others f u b shape kind) unclosed'
  refine ⟨outer, ?_⟩
  rw [leftOpen_append scannedFront, leftOpen_opening opening]
  simpa [none] using leftOpen_below scannedBack (t :: outer)

end ContextLisp
