/-
# Layouts on one line

The flat rendering of a value puts every list on one line. A layout differs from it only in
that some of the spaces between items are broken into a line break and a margin, so putting one
space in the place of each of these gives the flat rendering back.

A list stands on one line if the layouts of its items do and it fits. Its items are measured at
their own indentation, which allows them two columns less than the list, and a list is at least
two columns wider than each of its items. So if the flat rendering of a value fits, those of all
its parts do, and nothing is broken.
-/

import ContextLisp.Proofs.Layout.Bounded

namespace ContextLisp

/-! ### Flat renderings -/

mutual

/-- A value on one line, with values at the greatest depth left out. -/
def flatLayout (style : Style) (deepest depth : Int) (v : Value) : Except Error String :=
  if deepest ≤ depth then .ok "…"
  else
    match v with
    | .list items => do
      let lines ← flatItems style deepest (depth + 1) items
      return oneLine lines
    | v => colorize style v

/-- Several values on a line each. -/
def flatItems (style : Style) (deepest depth : Int) : List Value → Except Error (List String)
  | [] => .ok []
  | v :: vs => do
    let line ← flatLayout style deepest depth v
    let lines ← flatItems style deepest depth vs
    return line :: lines

end

/-- The text with one space in the place of each line break and the spaces behind it. -/
def unbroken : List Char → List Char
  | [] => []
  | c :: cs =>
    if c = '\n' then ' ' :: unbroken (cs.dropWhile (· == ' ')) else c :: unbroken cs
termination_by cs => cs.length
decreasing_by
  · exact Nat.lt_succ_of_le (List.dropWhile_suffix _).length_le
  · exact Nat.lt_succ_self _

namespace Value

/-- The texts of the atoms in the value hold no line break and begin with no space. -/
def HasTidyAtoms (style : Style) (v : Value) : Prop :=
  ∀ a, Occurs a v → a.IsAtom →
    ∃ text, colorize style a = .ok text ∧ '\n' ∉ text.toList ∧ text.toList.head? ≠ some ' '

theorem hasTidyAtoms_list_iff {style : Style} {items : List Value} :
    (Value.list items).HasTidyAtoms style ↔ ∀ v ∈ items, v.HasTidyAtoms style := by
  constructor
  · exact fun tidy v member a occurs => tidy a (.item member occurs)
  · intro each a occurs atom
    cases occurs with
    | self => exact absurd rfl (atom items)
    | item member inside => exact each _ member a inside atom

theorem hasTidyAtoms_of_isAtom {style : Style} {v : Value} (atom : v.IsAtom) {text : String}
    (shown : colorize style v = .ok text) (clear : '\n' ∉ text.toList)
    (visible : text.toList.head? ≠ some ' ') : v.HasTidyAtoms style := by
  intro a occurs _
  cases occurs with
  | self => exact ⟨text, shown, clear, visible⟩
  | item => exact absurd rfl (atom _)

end Value

section

variable {style : Style} {width deepest indent depth : Int} {v : Value} {items : List Value}

theorem flatLayout_of_reached (reached : deepest ≤ depth) (v : Value) :
    flatLayout style deepest depth v = .ok "…" := by
  unfold flatLayout
  exact if_pos reached

theorem flatLayout_of_isAtom (above : depth < deepest) (atom : v.IsAtom) :
    flatLayout style deepest depth v = colorize style v := by
  unfold flatLayout
  refine (if_neg (Int.not_le.mpr above)).trans ?_
  cases v with
  | list items => exact absurd rfl (atom items)
  | _ => rfl

theorem flatLayout_list (above : depth < deepest) {lines : List String}
    (flat : flatItems style deepest (depth + 1) items = .ok lines) :
    flatLayout style deepest depth (.list items) = .ok (oneLine lines) := by
  unfold flatLayout
  refine (if_neg (Int.not_le.mpr above)).trans ?_
  dsimp only
  rw [flat]
  rfl

/-! ### Putting lines together again -/

theorem unbroken_cons {c : Char} (other : c ≠ '\n') (cs : List Char) :
    unbroken (c :: cs) = c :: unbroken cs := by
  rw [unbroken, if_neg other]

/-- A text without line breaks is left as it is. -/
theorem unbroken_append {cs : List Char} (clear : '\n' ∉ cs) (rest : List Char) :
    unbroken (cs ++ rest) = cs ++ unbroken rest := by
  induction cs with
  | nil => rfl
  | cons c cs ih =>
    obtain ⟨other, clear⟩ := not_or.mp (mt List.mem_cons.mpr clear)
    rw [List.cons_append, unbroken_cons (Ne.symm other), ih clear, List.cons_append]

theorem unbroken_of_not_mem {cs : List Char} (clear : '\n' ∉ cs) : unbroken cs = cs := by
  have whole := unbroken_append clear []
  rwa [unbroken, List.append_nil] at whole

/-- Spaces behind a line break are dropped with it, up to a text that begins with none. -/
theorem unbroken_break_spaces (n : Nat) {rest : List Char} (visible : rest.head? ≠ some ' ') :
    unbroken ('\n' :: (List.replicate n ' ' ++ rest)) = ' ' :: unbroken rest := by
  have spaces : ∀ c ∈ List.replicate n ' ', (c == ' ') = true := by
    intro c member
    rw [List.eq_of_mem_replicate member]
    rfl
  have stops : rest.dropWhile (· == ' ') = rest := by
    cases rest with
    | nil => rfl
    | cons c rest =>
      rw [List.dropWhile_cons_of_neg]
      simpa using visible
  rw [unbroken, if_pos rfl, List.dropWhile_append_of_pos spaces, stops]

/-- A space and a broken line both turn into a space. A margin would take spaces behind it along,
so only a gap that is a space itself may stand in front of one. -/
theorem IsSeparation.turns_to_space {gap : String} (separation : IsSeparation indent gap)
    {rest : List Char} (visible : rest.head? = some ' ' → gap.toList.head? = some ' ') :
    unbroken (gap.toList ++ rest) = ' ' :: unbroken rest := by
  rcases separation with rfl | rfl
  · exact unbroken_cons (by decide) rest
  · rw [toList_lineBreak] at visible ⊢
    refine unbroken_break_spaces _ fun space => ?_
    have broken : '\n' = ' ' := by simpa using visible space
    exact absurd broken (by decide)

/-- The text is the line with some of its spaces broken, and is the line itself where that is not
too wide. -/
structure Breaks (width indent : Int) (text line : String) : Prop where
  visible : text.toList.head? ≠ some ' '
  flat : ∀ rest, unbroken (text.toList ++ rest) = line.toList ++ unbroken rest
  whole : line.length + indent * 2 ≤ width → text = line

/-- A text that cannot be broken. -/
theorem breaks_self {text : String} (clear : '\n' ∉ text.toList)
    (visible : text.toList.head? ≠ some ' ') : Breaks width indent text text where
  visible := visible
  flat := unbroken_append clear
  whole _ := rfl

/-- A text that is not empty decides itself how the whole begins. -/
theorem Breaks.head?_append {text line : String} (breaks : Breaks width indent text line)
    {behind : List Char} (space : (text.toList ++ behind).head? = some ' ') :
    behind.head? = some ' ' := by
  have visible := breaks.visible
  cases shape : text.toList with
  | nil => rwa [shape] at space
  | cons c cs =>
    rw [shape] at space visible
    exact absurd space visible

variable {texts lines : List String}

/-- Items with breaks between them turn into items with spaces between them. What begins with a
space comes to begin with the gap, if all items are empty but the last. -/
theorem unbroken_intercalate {gap : String} (separation : IsSeparation indent gap)
    (each : List.Forall₂ (Breaks width (indent + 1)) texts lines) {rest : List Char}
    (visible : rest.head? ≠ some ' ') :
    unbroken ((gap.intercalate texts).toList ++ rest) =
        (" ".intercalate lines).toList ++ unbroken rest ∧
      (((gap.intercalate texts).toList ++ rest).head? = some ' ' →
        gap.toList.head? = some ' ') := by
  induction each with
  | nil => exact ⟨rfl, fun space => absurd space visible⟩
  | @cons text line texts lines breaks others ih =>
    by_cases last : texts = []
    · subst last
      cases others
      rw [String.intercalate_singleton, String.intercalate_singleton]
      exact ⟨breaks.flat rest, fun space => absurd (breaks.head?_append space) visible⟩
    · have nonempty : lines ≠ [] := by
        rintro rfl
        cases others
        exact last rfl
      obtain ⟨flat, later⟩ := ih
      have passed := separation.turns_to_space later
      rw [String.intercalate_cons_of_ne_nil last, String.intercalate_cons_of_ne_nil nonempty]
      simp only [String.toList_append, List.append_assoc]
      refine ⟨by rw [breaks.flat, passed, flat]; rfl, fun space => ?_⟩
      have front := breaks.head?_append space
      cases shape : gap.toList with
      | nil =>
        rw [shape] at later front
        exact later front
      | cons c cs => rwa [shape] at front

/-- If a list fits flat, so do its items, and none of them is broken. -/
theorem texts_eq_lines (each : List.Forall₂ (Breaks width (indent + 1)) texts lines)
    (narrow : ∀ line ∈ lines, line.length + (indent + 1) * 2 ≤ width) : texts = lines := by
  induction each with
  | nil => rfl
  | cons breaks _ ih =>
    obtain ⟨first, others⟩ := List.forall_mem_cons.mp narrow
    rw [breaks.whole first, ih others]

/-- A list breaks if its items do. -/
theorem breaks_list (each : List.Forall₂ (Breaks width (indent + 1)) texts lines) :
    Breaks width indent (fitted width indent texts) (oneLine lines) := by
  constructor
  · obtain ⟨gap, -, shape⟩ := fitted_eq width indent texts
    simp [shape]
  · intro rest
    obtain ⟨gap, separation, shape⟩ := fitted_eq width indent texts
    have closed : (')' :: rest).head? ≠ some ' ' := by simp
    obtain ⟨inside, -⟩ := unbroken_intercalate separation each closed
    rw [unbroken_cons (by decide)] at inside
    have opened := unbroken_cons (show '(' ≠ '\n' by decide)
      ((gap.intercalate texts).toList ++ ')' :: rest)
    rw [inside] at opened
    simpa [shape, oneLine] using opened
  · intro fits
    have same : texts = lines := texts_eq_lines each fun line member => by
      have wider := length_le_oneLine member
      omega
    rw [fitted, same, if_pos fits]

/-! ### Layouts and flat renderings -/

theorem flatItems_eq_mapM (style : Style) (deepest depth : Int) (vs : List Value) :
    flatItems style deepest depth vs = vs.mapM (flatLayout style deepest depth) := by
  induction vs with
  | nil => rfl
  | cons v vs ih =>
    rw [flatItems, ih, List.mapM_cons]

/-- A value whose atoms are tidy has a layout and a flat rendering, and the one breaks the
other. -/
theorem exists_layout_breaks (tidy : v.HasTidyAtoms style) (width deepest indent depth : Int) :
    ∃ text, layout (style.bounded width deepest) indent depth v = .ok text ∧
      ∃ line, flatLayout style deepest depth v = .ok line ∧ Breaks width indent text line := by
  refine exists_layout (P := fun indent depth v text => ∃ line,
    flatLayout style deepest depth v = .ok line ∧ Breaks width indent text line)
    ?_ ?_ ?_ indent depth
  · intro indent depth v reached
    exact ⟨"…", flatLayout_of_reached reached v, breaks_self (by decide) (by decide)⟩
  · intro indent depth items texts above rendered
    obtain ⟨lines, flat, breaks⟩ := exists_mapM rendered
    rw [← flatItems_eq_mapM] at flat
    exact ⟨oneLine lines, flatLayout_list above flat, breaks_list breaks⟩
  · intro a occurs atom
    obtain ⟨text, shown, clear, visible⟩ := tidy a occurs atom
    refine ⟨text, shown, fun indent depth above => ⟨text, ?_, breaks_self clear visible⟩⟩
    rw [flatLayout_of_isAtom above atom, shown]

/-- Two items with a line each have a line break between them. -/
theorem mem_manyLines {parts : List String} (several : 2 ≤ parts.length) :
    '\n' ∈ (manyLines indent parts).toList := by
  obtain _ | ⟨first, _ | ⟨second, rest⟩⟩ := parts
  · simp at several
  · simp at several
  · simp [manyLines, String.intercalate_cons_of_ne_nil]

/-- A list of several items without a line break fits. -/
theorem length_le_of_not_mem (above : depth < deepest) (several : 2 ≤ items.length) {text : String}
    (laid : layout (style.bounded width deepest) indent depth (.list items) = .ok text)
    (clear : '\n' ∉ text.toList) : text.length + indent * 2 ≤ width := by
  rw [layout_list above] at laid
  cases parts : layoutItems (style.bounded width deepest) (indent + 1) (depth + 1) items with
  | error e =>
    rw [parts] at laid
    cases laid
  | ok texts =>
    rw [parts] at laid
    cases laid
    rw [← length_of_layoutItems parts] at several
    unfold fitted at clear ⊢
    split at clear
    · rename_i fits
      rwa [if_pos fits]
    · exact absurd (mem_manyLines several) clear

end

/-- If the texts of its atoms hold no line break and begin with no space, a value has a layout and
a flat rendering, in the same colours and with the same values left out. If the flat rendering
fits at the indentation, it is the layout. Of a list of at least two items that is not left out,
the layout stands on one line only if it is the flat rendering and fits. In any case the layout
with its lines put together again is the flat rendering. -/
theorem layout_is_flat_exactly_if_it_fits {style : Style} {v : Value}
    (tidy : v.HasTidyAtoms style) (width deepest indent depth : Int) :
    ∃ line text, flatLayout style deepest depth v = .ok line ∧
      layout (style.bounded width deepest) indent depth v = .ok text ∧
      (line.length + 2 * indent ≤ width → text = line) ∧
      (∀ first second rest, v = .list (first :: second :: rest) → depth < deepest →
        '\n' ∉ text.toList → text = line ∧ line.length + 2 * indent ≤ width) ∧
      unbroken text.toList = line.toList := by
  obtain ⟨text, laid, line, flat, breaks⟩ :=
    exists_layout_breaks tidy width deepest indent depth
  have joined : unbroken text.toList = line.toList := by
    simpa [unbroken] using breaks.flat []
  refine ⟨line, text, flat, laid, fun fits => breaks.whole (by omega), ?_, joined⟩
  rintro first second rest rfl above clear
  have same : text = line := by
    rw [unbroken_of_not_mem clear] at joined
    exact String.toList_inj.mp joined
  have fits := length_le_of_not_mem above (by simp) laid clear
  rw [same] at fits
  exact ⟨same, by omega⟩

theorem readableDatum_hasTidyAtoms : readableDatum.HasTidyAtoms Style.plain := by
  have number : (Value.int (-12)).HasTidyAtoms Style.plain :=
    Value.hasTidyAtoms_of_isAtom nofun (colorize_plain (Numeral.write?_of_lt (by decide +kernel)))
      (by decide) (by decide)
  have none : Value.nil.HasTidyAtoms Style.plain :=
    Value.hasTidyAtoms_of_isAtom nofun (colorize_plain rfl) (by decide) (by decide)
  have symbol : (Value.symbol "-x").HasTidyAtoms Style.plain :=
    Value.hasTidyAtoms_of_isAtom nofun (colorize_plain rfl) (by decide) (by decide)
  have keyword : (Value.keyword "true").HasTidyAtoms Style.plain :=
    Value.hasTidyAtoms_of_isAtom nofun (colorize_plain rfl) (by decide) (by decide)
  simp [readableDatum, Value.hasTidyAtoms_list_iff, number, none, symbol, keyword]

/-- Twenty columns are enough for the datum, and with one less it is broken. In ten columns the list
within it is broken too, and its second item stands behind a margin twice as wide. Put together
again, the lines are those twenty columns. -/
theorem datum_breaks_below_its_width :
    layout (Style.plain.bounded 20 3) 0 0 readableDatum = .ok "(-x :true (-12 nil))" ∧
    (layout (Style.plain.bounded 19 3) 0 0 readableDatum = .ok "(-x\n  :true\n  (-12 nil))" ∧
      unbroken "(-x\n  :true\n  (-12 nil))".toList = "(-x :true (-12 nil))".toList) ∧
    layout (Style.plain.bounded 10 3) 0 0 readableDatum =
      .ok "(-x\n  :true\n  (-12\n    nil))" ∧
    unbroken "(-x\n  :true\n  (-12\n    nil))".toList = "(-x :true (-12 nil))".toList := by
  have rendered : (flatLayout Style.plain 3 0 readableDatum).toOption =
      some "(-x :true (-12 nil))" := by decide +kernel
  have broken : (layout (Style.plain.bounded 19 3) 0 0 readableDatum).toOption =
      some "(-x\n  :true\n  (-12 nil))" := by decide +kernel
  have twice : (layout (Style.plain.bounded 10 3) 0 0 readableDatum).toOption =
      some "(-x\n  :true\n  (-12\n    nil))" := by decide +kernel
  have flat := eq_ok_of_toOption rendered
  have shows : ∀ width, ∃ text,
      layout (Style.plain.bounded width 3) 0 0 readableDatum = .ok text ∧
        (20 ≤ width → text = "(-x :true (-12 nil))") ∧
        unbroken text.toList = "(-x :true (-12 nil))".toList := by
    intro width
    obtain ⟨line, text, flat', laid, whole, -, joined⟩ :=
      layout_is_flat_exactly_if_it_fits readableDatum_hasTidyAtoms width 3 0 0
    obtain rfl : line = _ := Except.ok.inj (flat'.symm.trans flat)
    exact ⟨text, laid, whole, joined⟩
  obtain ⟨text, laid, whole, -⟩ := shows 20
  obtain ⟨text', laid', -, joined'⟩ := shows 19
  obtain ⟨text'', laid'', -, joined''⟩ := shows 10
  obtain rfl : text' = _ := Except.ok.inj (laid'.symm.trans (eq_ok_of_toOption broken))
  obtain rfl : text'' = _ := Except.ok.inj (laid''.symm.trans (eq_ok_of_toOption twice))
  exact ⟨by rw [laid, whole (by decide)], ⟨laid', joined'⟩, laid'', joined''⟩

end ContextLisp
