/-
# What fits on one line

Whether a list stands on one line is decided by the layouts of its items, which may be broken
themselves. A broken layout is at least as long as the line it was broken from, and the items of a
list are allowed less than the list. So a list stands on one line exactly if its rendering without
any bound on the width fits.

This holds under every style: its bounds may be numbers of any kind, or none at all.
-/

import ContextLisp.Layout
import ContextLisp.Proofs.Reading.Spelling
import Mathlib.Algebra.GroupWithZero.Nat
import Mathlib.Algebra.Order.BigOperators.Group.List
import Mathlib.Algebra.Order.Group.Nat
import Mathlib.Data.List.Forall2

namespace ContextLisp

/-! ### Results for every element -/

section

variable {α β γ ε : Type} {f : α → Except ε γ} {xs : List α}

theorem mapM_eq_ok_iff {zs : List γ} :
    xs.mapM f = .ok zs ↔ List.Forall₂ (fun x z => f x = .ok z) xs zs := by
  induction xs generalizing zs with
  | nil =>
    rw [List.mapM_nil, List.forall₂_nil_left_iff]
    exact ⟨fun done => (Except.ok.inj done).symm, fun none => congrArg Except.ok none.symm⟩
  | cons x xs ih =>
    rw [List.mapM_cons, List.forall₂_cons_left_iff]
    simp only [← ih]
    cases f x with
    | error e => simp [bind, Except.bind]
    | ok z =>
      cases xs.mapM f with
      | error e => simp [bind, Except.bind]
      | ok zs => simp [bind, Except.bind, pure, Except.pure, eq_comm]

/-- Elements that have results one by one have them together. -/
theorem exists_mapM {R : β → γ → Prop} {ys : List β}
    (each : List.Forall₂ (fun x y => ∃ z, f x = .ok z ∧ R y z) xs ys) :
    ∃ zs, xs.mapM f = .ok zs ∧ List.Forall₂ R ys zs := by
  induction each with
  | nil => exact ⟨[], rfl, .nil⟩
  | cons result _ ih =>
    obtain ⟨z, one, holds⟩ := result
    obtain ⟨zs, others, all⟩ := ih
    exact ⟨z :: zs, by rw [List.mapM_cons, one, others]; rfl, .cons holds all⟩

end

theorem eq_ok_of_toOption {ε α : Type} {result : Except ε α} {a : α}
    (computed : result.toOption = some a) : result = .ok a := by
  cases result with
  | error e => cases computed
  | ok b => exact congrArg Except.ok (Option.some.inj computed)

/-! ### Bounds -/

namespace Bound

variable {bound : Bound} {m n : Int}

/-- What keeps within a bound does so when it gets smaller. -/
theorem admits_of_le (le : m ≤ n) (admitted : bound.admits n = true) : bound.admits m = true := by
  cases bound with
  | int b => simp only [admits, decide_eq_true_eq] at admitted ⊢; omega
  | real r =>
    cases r with
    | finite negative significand exponent =>
      simp only [admits, Binary64.atLeast, decide_eq_true_eq] at admitted ⊢
      omega
    | infinite negative => exact admitted
    | nan => exact admitted

/-- What has reached a bound has done so when it gets greater. -/
theorem reachedBy_of_le (le : m ≤ n) (reached : bound.reachedBy m = true) :
    bound.reachedBy n = true := by
  cases bound with
  | int b => simp only [reachedBy, decide_eq_true_eq] at reached ⊢; omega
  | real r =>
    cases r with
    | finite negative significand exponent =>
      simp only [reachedBy, Binary64.atMost, decide_eq_true_eq] at reached ⊢
      omega
    | infinite negative => exact reached
    | nan => exact reached

end Bound

/-! ### Characters of arranged items -/

theorem countP_intercalate (p : Char → Bool) (gap : String) (parts : List String) :
    (gap.intercalate parts).toList.countP p =
      (parts.map fun part => part.toList.countP p).sum +
        (parts.length - 1) * gap.toList.countP p := by
  induction parts with
  | nil => simp
  | cons first rest ih =>
    by_cases last : rest = []
    · subst last
      simp
    · have positive : 0 < rest.length := List.length_pos_of_ne_nil last
      rw [String.intercalate_cons_of_ne_nil last, String.toList_append, String.toList_append,
        List.countP_append, List.countP_append, ih, List.map_cons, List.sum_cons,
        List.length_cons, Nat.add_sub_cancel]
      have step : rest.length * gap.toList.countP p =
          (rest.length - 1) * gap.toList.countP p + gap.toList.countP p := by
        rw [← Nat.succ_mul, Nat.succ_eq_add_one, Nat.sub_add_cancel positive]
      omega

theorem length_intercalate (gap : String) (parts : List String) :
    (gap.intercalate parts).length =
      (parts.map String.length).sum + (parts.length - 1) * gap.length := by
  have counted := countP_intercalate (fun _ => true) gap parts
  simpa only [List.countP_true, String.length_toList] using counted

/-- Longer items with longer gaps make a longer text. -/
theorem length_intercalate_le {gap gap' : String} {parts parts' : List String}
    (gaps : gap.length ≤ gap'.length)
    (each : List.Forall₂ (fun part part' => part.length ≤ part'.length) parts parts') :
    (gap.intercalate parts).length ≤ (gap'.intercalate parts').length := by
  have sums : (parts.map String.length).sum ≤ (parts'.map String.length).sum :=
    (List.forall₂_map_left_iff.mpr (List.forall₂_map_right_iff.mpr each)).sum_le_sum
  rw [length_intercalate, length_intercalate, each.length_eq]
  exact Nat.add_le_add sums (Nat.mul_le_mul_left _ gaps)

theorem length_lineBreak (indent : Int) :
    ("\n" ++ margin indent).length = 2 * (indent + 1).toNat + 1 := by
  simp [← String.length_toList, margin, Nat.add_comm]

theorem length_oneLine (parts : List String) :
    (oneLine parts).length = (" ".intercalate parts).length + 2 := by
  simp [← String.length_toList, oneLine]

theorem length_manyLines (indent : Int) (parts : List String) :
    (manyLines indent parts).length = (("\n" ++ margin indent).intercalate parts).length + 2 := by
  simp [← String.length_toList, manyLines]

/-- Breaking a line does not make the text shorter. -/
theorem length_oneLine_le_manyLines {indent : Int} {lines parts : List String}
    (each : List.Forall₂ (fun line part => line.length ≤ part.length) lines parts) :
    (oneLine lines).length ≤ (manyLines indent parts).length := by
  have gaps : " ".length ≤ ("\n" ++ margin indent).length := by
    rw [length_lineBreak]
    exact Nat.le_add_left 1 _
  rw [length_oneLine, length_manyLines]
  exact Nat.add_le_add_right (length_intercalate_le gaps each) 2

/-- A line of several is as wide as each of them and the parentheses. -/
theorem length_le_oneLine {lines : List String} {line : String} (member : line ∈ lines) :
    line.length + 2 ≤ (oneLine lines).length := by
  have inside : line.length ≤ (lines.map String.length).sum :=
    List.le_sum_of_mem (List.mem_map_of_mem member)
  rw [length_oneLine, length_intercalate]
  omega

/-! ### Layouts under any style -/

/-- Values at this depth are not left out. -/
def Style.Shows (style : Style) (depth : Int) : Prop :=
  ∃ deepest, style.maxDepth = some deepest ∧ deepest.reachedBy depth = false

/-- What stands for a value that is left out; nothing can be left out if the greatest depth is no
number. -/
def Style.omission (style : Style) : Except Error String :=
  match style.maxDepth with
  | none => .error .notANumber
  | some _ => .ok "…"

/-- The style with all colours off. -/
def Style.uncoloured (style : Style) : Style :=
  { style with
    colorSymbols := false, colorKeywords := false, colorFunctions := false,
    colorExpanders := false, colorPrimitives := false, colorSpecialForms := false }

/-- The style without a bound on the width. -/
def Style.unbounded (style : Style) : Style :=
  { style with maxLineLength := some (.real (.infinite false)) }

theorem colorOf?_uncoloured (style : Style) (v : Value) : style.uncoloured.colorOf? v = none := by
  cases v with
  | symbol name => simp [Style.colorOf?, Style.uncoloured]
  | _ => rfl

theorem colorize_uncoloured (style : Style) {v : Value} {text : String}
    (source : v.source? = some text) : colorize style.uncoloured v = .ok text := by
  rw [colorize, source]
  simp only [colorOf?_uncoloured]

section

variable {style : Style} {indent depth : Int} {v : Value} {text : String}
  {parts lines : List String}

/-- What lies above a value that is shown is shown. -/
theorem Style.Shows.of_le {deeper : Int} (shown : style.Shows deeper) (le : depth ≤ deeper) :
    style.Shows depth := by
  obtain ⟨deepest, bound, above⟩ := shown
  refine ⟨deepest, bound, Bool.eq_false_iff.mpr fun reached => ?_⟩
  rw [Bound.reachedBy_of_le le reached] at above
  cases above

theorem Style.shows_unbounded : style.unbounded.Shows depth ↔ style.Shows depth := Iff.rfl

theorem layout_of_not_shows (hidden : ¬ style.Shows depth) (v : Value) :
    layout style indent depth v = style.omission := by
  unfold layout Style.omission
  cases bound : style.maxDepth with
  | none => rfl
  | some deepest =>
    refine if_pos (Bool.not_eq_false _ |>.mp fun above => ?_)
    exact hidden ⟨deepest, bound, above⟩

theorem layout_of_shown_atom (shown : style.Shows depth) (atom : v.IsAtom) :
    layout style indent depth v = colorize style v := by
  obtain ⟨deepest, bound, above⟩ := shown
  unfold layout
  simp only [bound, above, Bool.false_eq_true, if_false]
  cases v with
  | list items => exact absurd rfl (atom items)
  | _ => rfl

theorem layout_of_shown_empty (shown : style.Shows depth) :
    layout style indent depth (.list []) = .ok "()" := by
  obtain ⟨deepest, bound, above⟩ := shown
  unfold layout
  simp only [bound, above, Bool.false_eq_true, if_false]

/-- A list that is shown arranges the layouts of its items. -/
theorem layout_of_shown_list (shown : style.Shows depth) (first : Value) (rest : List Value) :
    layout style indent depth (.list (first :: rest)) =
      (layoutItems style (indent + 1) (depth + 1) (first :: rest)).bind
        (arrange style indent) := by
  obtain ⟨deepest, bound, above⟩ := shown
  unfold layout
  simp only [bound, above, Bool.false_eq_true, if_false]
  rw [layoutItems]
  cases layout style (indent + 1) (depth + 1) first with
  | error e => rfl
  | ok head => cases layoutItems style (indent + 1) (depth + 1) rest <;> rfl

theorem layoutItems_eq_mapM (style : Style) (indent depth : Int) (vs : List Value) :
    layoutItems style indent depth vs = vs.mapM (layout style indent depth) := by
  induction vs with
  | nil => rfl
  | cons v vs ih =>
    rw [layoutItems, ih, List.mapM_cons]

/-- A style with a bound on the width arranges all items. -/
theorem arrange_of_bound {width : Bound} (bound : style.maxLineLength = some width)
    (indent : Int) (parts : List String) :
    arrange style indent parts =
      .ok (if width.admits ((oneLine parts).length + indent * 2) then oneLine parts
        else manyLines indent parts) := by
  simp only [arrange, bound]
  split <;> rfl

theorem arrange_of_none (missing : style.maxLineLength = none) (indent : Int)
    (parts : List String) : arrange style indent parts = .error .notANumber := by
  simp only [arrange, missing]

/-! ### Lines -/

/-- The text is a layout of what the line renders: it is no shorter, and if the line fits, it is
the line itself. -/
structure Flattens (style : Style) (indent : Int) (text line : String) : Prop where
  shorter : line.length ≤ text.length
  whole : ∀ width, style.maxLineLength = some width →
    width.admits (line.length + indent * 2) = true → text = line

theorem flattens_self : Flattens style indent text text :=
  ⟨Nat.le_refl _, fun _ _ _ => rfl⟩

/-- If a list fits on one line, so do its items. -/
theorem parts_eq_lines {width : Bound} (bound : style.maxLineLength = some width)
    (each : List.Forall₂ (Flattens style (indent + 1)) parts lines)
    (fits : width.admits ((oneLine lines).length + indent * 2) = true) : parts = lines := by
  have narrow : ∀ line ∈ lines, width.admits (line.length + (indent + 1) * 2) = true := by
    intro line member
    have wider := length_le_oneLine member
    exact Bound.admits_of_le (by omega) fits
  -- All that the induction needs of the whole list is that each of its lines is narrow.
  clear fits
  induction each with
  | nil => rfl
  | cons flattens _ ih =>
    obtain ⟨first, others⟩ := List.forall_mem_cons.mp narrow
    rw [flattens.whole width bound first, ih others]

theorem Flattens.list (each : List.Forall₂ (Flattens style (indent + 1)) parts lines)
    (arranged : arrange style indent parts = .ok text) :
    Flattens style indent text (oneLine lines) := by
  cases bound : style.maxLineLength with
  | none =>
    rw [arrange_of_none bound] at arranged
    cases arranged
  | some width =>
    rw [arrange_of_bound bound] at arranged
    obtain rfl := Except.ok.inj arranged
    have shorter := each.flip.imp fun line part flattens => flattens.shorter
    constructor
    · split
      · rw [length_oneLine, length_oneLine]
        exact Nat.add_le_add_right (length_intercalate_le (Nat.le_refl _) shorter) 2
      · exact length_oneLine_le_manyLines shorter
    · -- If the line fits, the items on it were laid out on one line each as well.
      intro _ bound' fits
      cases bound.symm.trans bound'
      rw [parts_eq_lines bound each fits, if_pos fits]

theorem layoutItems_flatten {items : List Value}
    (each : ∀ v ∈ items, ∀ text, layout style indent depth v = .ok text →
      ∃ line, layout style.unbounded indent depth v = .ok line ∧ Flattens style indent text line)
    (laid : layoutItems style indent depth items = .ok parts) :
    ∃ lines, layoutItems style.unbounded indent depth items = .ok lines ∧
      List.Forall₂ (Flattens style indent) parts lines := by
  rw [layoutItems_eq_mapM, mapM_eq_ok_iff] at laid
  simp only [layoutItems_eq_mapM]
  exact exists_mapM (((List.forall₂_and_left _ _).mpr ⟨each, laid⟩).imp
    fun v part both => both.1 part both.2)

/-- Whatever has a layout has one without a bound on the width, and that is a line of it. -/
theorem exists_line (laid : layout style indent depth v = .ok text) :
    ∃ line, layout style.unbounded indent depth v = .ok line ∧ Flattens style indent text line := by
  induction v using Value.listInduction generalizing indent depth text with
  | atom v atom =>
    by_cases shown : style.Shows depth
    · rw [layout_of_shown_atom shown atom] at laid
      exact ⟨text, (layout_of_shown_atom (Style.shows_unbounded.mpr shown) atom).trans laid,
        flattens_self⟩
    · rw [layout_of_not_shows shown] at laid
      exact ⟨text, (layout_of_not_shows (Style.shows_unbounded.not.mpr shown) v).trans laid,
        flattens_self⟩
  | list items each =>
    by_cases shown : style.Shows depth
    · cases items with
      | nil =>
        rw [layout_of_shown_empty shown] at laid
        exact ⟨text, (layout_of_shown_empty (Style.shows_unbounded.mpr shown)).trans laid,
          flattens_self⟩
      | cons first rest =>
        rw [layout_of_shown_list shown] at laid
        cases inner : layoutItems style (indent + 1) (depth + 1) (first :: rest) with
        | error e =>
          rw [inner] at laid
          cases laid
        | ok parts =>
          rw [inner] at laid
          obtain ⟨lines, flat, flattens⟩ :=
            layoutItems_flatten (fun v member text => each v member) inner
          refine ⟨oneLine lines, ?_, Flattens.list flattens laid⟩
          rw [layout_of_shown_list (Style.shows_unbounded.mpr shown), flat]
          rfl
    · rw [layout_of_not_shows shown] at laid
      exact ⟨text, (layout_of_not_shows (Style.shows_unbounded.not.mpr shown) _).trans laid,
        flattens_self⟩

/-- The value fits on one line at the indentation. -/
def Value.FitsOnLine (style : Style) (indent depth : Int) (v : Value) : Prop :=
  ∃ width line, style.maxLineLength = some width ∧
    layout style.unbounded indent depth v = .ok line ∧
    width.admits (line.length + indent * 2) = true

/-- A list is arranged on one line exactly if it fits there. -/
theorem admits_oneLine_iff {width : Bound} (bound : style.maxLineLength = some width)
    (shown : style.Shows depth) {first : Value} {rest : List Value}
    (laid : layoutItems style (indent + 1) (depth + 1) (first :: rest) = .ok parts) :
    width.admits ((oneLine parts).length + indent * 2) = true ↔
      (Value.list (first :: rest)).FitsOnLine style indent depth := by
  obtain ⟨lines, flat, flattens⟩ :=
    layoutItems_flatten (fun v _ text laid => exists_line laid) laid
  have line : layout style.unbounded indent depth (.list (first :: rest)) =
      .ok (oneLine lines) := by
    rw [layout_of_shown_list (Style.shows_unbounded.mpr shown), flat]
    rfl
  constructor
  · intro fits
    refine ⟨width, oneLine lines, bound, line, Bound.admits_of_le ?_ fits⟩
    have shorter := length_intercalate_le (Nat.le_refl " ".length)
      (flattens.flip.imp fun line part flattens => flattens.shorter)
    rw [length_oneLine, length_oneLine]
    omega
  · rintro ⟨_, _, bound', line', fits⟩
    cases bound.symm.trans bound'
    cases line.symm.trans line'
    rw [parts_eq_lines bound flattens fits]
    exact fits

end

end ContextLisp
