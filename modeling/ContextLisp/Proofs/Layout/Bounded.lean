/-
# Layouts within integer bounds

If both bounds of a style are integers, a value has a layout whenever its atoms have source
text. The layout of a list is then made of those of its items in one of two ways, which differ
only in the blanks between them.

A layout counts depth from a number of its own. The nodes of a value are the value itself and
the nodes of its items, which lie one deeper; nodes at the greatest depth are not shown.
-/

import ContextLisp.Proofs.Layout.Fitting
import ContextLisp.Proofs.Reading.Readability

namespace ContextLisp

/-! ### Integer bounds -/

/-- The style with integers as its bounds. -/
def Style.bounded (style : Style) (width deepest : Int) : Style :=
  { style with maxLineLength := some (.int width), maxDepth := some (.int deepest) }

theorem Settings.get?_setField (name other : String) (v : Json) (settings : Settings) :
    get? other (Json.setField name v settings) =
      if name = other then some v else get? other settings := by
  induction settings with
  | nil => simp only [Json.setField, get?]
  | cons setting settings ih =>
    obtain ⟨key, old⟩ := setting
    by_cases same : key = name
    · subst same
      rw [Json.setField, if_pos rfl, get?, get?]
      split <;> rfl
    · rw [Json.setField, if_neg same, get?, get?, ih]
      split
      · rename_i first
        rw [if_neg fun second => same (first.trans second.symm)]
      · rfl

/-- Integers that are put over other settings are the bounds of the style. -/
theorem Settings.style_override_bounds (settings : Settings) (width deepest : Int) :
    (settings.override [("max_line_length", .int width), ("max_depth", .int deepest)]).style =
      settings.style.bounded width deepest := by
  simp [style, override, bound, switch, get?_setField, Json.bound?, Style.bounded]

theorem Style.uncoloured_plain : Style.plain.uncoloured = Style.plain := by
  decide +kernel

theorem colorize_plain {v : Value} {text : String} (source : v.source? = some text) :
    colorize Style.plain v = .ok text := by
  rw [← Style.uncoloured_plain]
  exact colorize_uncoloured Style.plain source

/-- Items on one line if that is at most so wide at the indentation, else with a line each. -/
def fitted (width indent : Int) (parts : List String) : String :=
  if (oneLine parts).length + indent * 2 ≤ width then oneLine parts else manyLines indent parts

/-- What stands between two items: a space, or a line break and the margin. -/
def IsSeparation (indent : Int) (gap : String) : Prop :=
  gap = " " ∨ gap = "\n" ++ margin indent

theorem toList_lineBreak (indent : Int) :
    ("\n" ++ margin indent).toList = '\n' :: List.replicate (2 * (indent + 1).toNat) ' ' := by
  simp [margin]

/-- Both ways differ in what stands between the items. -/
theorem fitted_eq (width indent : Int) (parts : List String) :
    ∃ gap, IsSeparation indent gap ∧
      fitted width indent parts = "(" ++ gap.intercalate parts ++ ")" := by
  unfold fitted
  split
  · exact ⟨" ", .inl rfl, rfl⟩
  · exact ⟨"\n" ++ margin indent, .inr rfl, rfl⟩

section

variable {style : Style} {width deepest indent depth : Int} {v : Value} {items : List Value}

/-- Bounds have no part in colours. -/
theorem colorize_bounded (style : Style) (width deepest : Int) (v : Value) :
    colorize (style.bounded width deepest) v = colorize style v := rfl

theorem arrange_bounded (style : Style) (width deepest indent : Int) (parts : List String) :
    arrange (style.bounded width deepest) indent parts = .ok (fitted width indent parts) := by
  simp only [arrange, Style.bounded, Bound.admits, decide_eq_true_eq, fitted]
  split <;> rfl

/-- Bounds of integers show what lies above the greatest depth. -/
theorem shows_bounded (above : depth < deepest) : (style.bounded width deepest).Shows depth :=
  ⟨.int deepest, rfl, by simpa [Bound.reachedBy] using above⟩

/-- A value at the greatest depth is left out. -/
theorem layout_of_reached (reached : deepest ≤ depth) (v : Value) :
    layout (style.bounded width deepest) indent depth v = .ok "…" := by
  refine layout_of_not_shows (fun shown => ?_) v
  obtain ⟨_, ⟨⟩, above⟩ := shown
  simp only [Bound.reachedBy, decide_eq_false_iff_not] at above
  exact above reached

theorem layout_of_isAtom (above : depth < deepest) (atom : v.IsAtom) :
    layout (style.bounded width deepest) indent depth v = colorize style v :=
  (layout_of_shown_atom (shows_bounded above) atom).trans
    (colorize_bounded style width deepest v)

/-- A list is laid out by fitting the layouts of its items. -/
theorem layout_list (above : depth < deepest) (items : List Value) :
    layout (style.bounded width deepest) indent depth (.list items) =
      (layoutItems (style.bounded width deepest) (indent + 1) (depth + 1) items).map
        (fitted width indent) := by
  cases items with
  | nil =>
    rw [layout_of_shown_empty (shows_bounded above), layoutItems]
    simp [fitted, oneLine, manyLines, Except.map]
  | cons first rest =>
    rw [layout_of_shown_list (shows_bounded above)]
    cases layoutItems (style.bounded width deepest) (indent + 1) (depth + 1) (first :: rest) with
    | error e => rfl
    | ok texts => exact arrange_bounded style width deepest indent texts

theorem length_of_layoutItems {texts : List String}
    (laid : layoutItems style indent depth items = .ok texts) : texts.length = items.length := by
  rw [layoutItems_eq_mapM, mapM_eq_ok_iff] at laid
  exact laid.length_eq.symm

/-- What holds of values that are left out and of atoms, and passes from items to lists, holds of
layouts. -/
theorem exists_layout {P : Int → Int → Value → String → Prop}
    (hidden : ∀ indent depth v, deepest ≤ depth → P indent depth v "…")
    (list : ∀ indent depth items texts, depth < deepest →
      List.Forall₂ (P (indent + 1) (depth + 1)) items texts →
        P indent depth (.list items) (fitted width indent texts))
    (atoms : ∀ a, Value.Occurs a v → a.IsAtom → ∃ text, colorize style a = .ok text ∧
      ∀ indent depth, depth < deepest → P indent depth a text)
    (indent depth : Int) :
    ∃ text, layout (style.bounded width deepest) indent depth v = .ok text ∧
      P indent depth v text := by
  induction v using Value.listInduction generalizing indent depth with
  | atom v atom =>
    by_cases above : depth < deepest
    · obtain ⟨text, shown, holds⟩ := atoms v .self atom
      exact ⟨text, (layout_of_isAtom above atom).trans shown, holds indent depth above⟩
    · have reached := Int.not_lt.mp above
      exact ⟨"…", layout_of_reached reached v, hidden indent depth v reached⟩
  | list items each =>
    by_cases above : depth < deepest
    · have laidOut : ∀ v ∈ items, ∃ text,
          layout (style.bounded width deepest) (indent + 1) (depth + 1) v = .ok text ∧
            P (indent + 1) (depth + 1) v text := fun v member =>
        each v member (fun a occurs => atoms a (.item member occurs)) (indent + 1) (depth + 1)
      obtain ⟨texts, laid, holds⟩ := exists_mapM (List.forall₂_same.mpr laidOut)
      rw [← layoutItems_eq_mapM] at laid
      refine ⟨fitted width indent texts, ?_, list indent depth items texts above holds⟩
      rw [layout_list above, laid, Except.map]
    · have reached := Int.not_lt.mp above
      exact ⟨"…", layout_of_reached reached _, hidden indent depth _ reached⟩

end

/-! ### Depth -/

/-- A node stands this deep in a value. -/
inductive Value.NodeAt (node : Value) : Nat → Value → Prop
  | self : NodeAt node 0 node
  | item {items : List Value} {v : Value} {d : Nat} (member : v ∈ items)
      (inside : NodeAt node d v) : NodeAt node (d + 1) (.list items)

/-- Every node of the value lies above the greatest depth, counted from the depth of the value. -/
def Value.WithinDepth (deepest depth : Int) (v : Value) : Prop :=
  ∀ node d, NodeAt node d v → depth + d < deepest

namespace Value

variable {deepest depth : Int} {v : Value} {items : List Value}

theorem WithinDepth.above (within : v.WithinDepth deepest depth) : depth < deepest := by
  simpa using within v 0 .self

theorem withinDepth_iff_of_isAtom (atom : v.IsAtom) :
    v.WithinDepth deepest depth ↔ depth < deepest := by
  constructor
  · exact WithinDepth.above
  · intro above node d stands
    cases stands with
    | self => simpa using above
    | item => exact absurd rfl (atom _)

theorem withinDepth_list_iff :
    (Value.list items).WithinDepth deepest depth ↔
      depth < deepest ∧ ∀ v ∈ items, v.WithinDepth deepest (depth + 1) := by
  constructor
  · intro within
    refine ⟨within.above, fun v member node d inside => ?_⟩
    have deeper := within node (d + 1) (.item member inside)
    push_cast at deeper
    omega
  · rintro ⟨above, each⟩ node d stands
    cases stands with
    | self => simpa using above
    | @item _ v d member inside =>
      have deeper := each v member node d inside
      push_cast
      omega

end Value

end ContextLisp
