/-
# Widths of lines

Each line of a layout shows one node of the value: an atom, or a list that stands on one line.
Spaces and opening parentheses stand in front of it, and behind it closing parentheses of the lists
around it that end there.

A list that stands on one line fits with its own parentheses, and it begins no further to the right
than its indentation. So only an atom can reach beyond the width. The closing parentheses of other
lists behind a node are not measured, and they can make any line too long.
-/

import ContextLisp.Proofs.Layout.ReadBack

namespace ContextLisp

/-! ### Lines of a text -/

/-- A character that separates nothing is put behind the last piece. -/
theorem exists_splitOn_append {α : Type} [BEq α] [LawfulBEq α] {separator c : α}
    (other : c ≠ separator) (cs : List α) :
    ∃ front last, cs.splitOn separator = front ++ [last] ∧
      (cs ++ [c]).splitOn separator = front ++ [last ++ [c]] := by
  induction cs with
  | nil => exact ⟨[], [], rfl, List.splitOn_eq_singleton (by simpa using other.symm)⟩
  | cons d cs ih =>
    obtain ⟨front, last, before, after⟩ := ih
    rw [List.cons_append, List.splitOn_cons_eq_if_modifyHead,
      List.splitOn_cons_eq_if_modifyHead, before, after]
    by_cases separates : (d == separator) = true
    · exact ⟨[] :: front, last, by rw [if_pos separates]; rfl, by rw [if_pos separates]; rfl⟩
    · rw [if_neg separates, if_neg separates]
      cases front with
      | nil => exact ⟨[], d :: last, rfl, rfl⟩
      | cons first front => exact ⟨(d :: first) :: front, last, rfl, rfl⟩

theorem lineBreak_not_mem_oneLine {lines : List String}
    (clears : ∀ line ∈ lines, '\n' ∉ line.toList) : '\n' ∉ (oneLine lines).toList := by
  have inside : (" ".intercalate lines).toList.countP (· == '\n') = 0 := by
    have none : (lines.map fun line => line.toList.countP (· == '\n')).sum = 0 := by
      refine List.sum_eq_zero fun n member => ?_
      obtain ⟨line, among, rfl⟩ := List.mem_map.mp member
      exact List.count_eq_zero.mpr (clears line among)
    rw [countP_intercalate, none, Nat.zero_add]
    exact Nat.mul_zero _
  have clear : '\n' ∉ (" ".intercalate lines).toList := List.count_eq_zero.mp inside
  simpa [oneLine] using clear

/-- Spaces with opening parentheses behind them. -/
def IsLead (cs : List Char) : Prop :=
  ∃ spaces opens, cs = List.replicate spaces ' ' ++ List.replicate opens '('

theorem isLead_nil : IsLead [] := ⟨0, 0, rfl⟩

theorem isLead_margin (indent : Int) : IsLead (margin indent).toList :=
  ⟨2 * (indent + 1).toNat, 0, by simp [margin]⟩

theorem IsLead.opened {lead : List Char} (isLead : IsLead lead) : IsLead (lead ++ ['(']) := by
  obtain ⟨spaces, opens, rfl⟩ := isLead
  exact ⟨spaces, opens + 1, by rw [List.replicate_succ', List.append_assoc]⟩

theorem IsLead.lineBreak_not_mem {lead : List Char} (isLead : IsLead lead) : '\n' ∉ lead := by
  obtain ⟨spaces, opens, rfl⟩ := isLead
  simp [List.mem_replicate]

/-! ### Nodes on lines -/

namespace Value

/-- The value cannot be broken into lines: it is an atom or the empty list. -/
def IsUnbreakable (v : Value) : Prop :=
  ∀ first rest, v ≠ .list (first :: rest)

theorem isUnbreakable_nil : (Value.list []).IsUnbreakable := by
  intro first rest same
  cases same

/-- The line shows a node of the value, whose source text ends at a column. Spaces and opening
parentheses stand in front of the text, and behind it closing parentheses, no more than there are
lists around the node. -/
def LineShows (v node : Value) (column behind : Nat) (line : List Char) : Prop :=
  ∃ lead text depth, NodeAt node depth v ∧ node.source? = some text ∧ IsLead lead ∧
    behind ≤ depth ∧ column = lead.length + text.length ∧
    line = lead ++ text.toList ++ List.replicate behind ')'

/-- The line shows a node, which keeps within the width unless it cannot be broken. -/
def KeepsWidth (width : Int) (v : Value) (line : List Char) : Prop :=
  ∃ node column behind, LineShows v node column behind line ∧
    (width < column → node.IsUnbreakable)

section

variable {v node w : Value} {items : List Value} {column behind : Nat} {line : List Char}
  {width : Int}

theorem LineShows.length_eq (shows : LineShows v node column behind line) :
    line.length = column + behind := by
  obtain ⟨lead, text, depth, -, -, -, -, rfl, rfl⟩ := shows
  simp [String.length_toList, Nat.add_assoc]

/-- A line that shows a node of an item shows a node of the list. -/
theorem KeepsWidth.item (keeps : w.KeepsWidth width line) (member : w ∈ items) :
    (Value.list items).KeepsWidth width line := by
  obtain ⟨node, column, behind, ⟨lead, text, depth, stands, shown⟩, within⟩ := keeps
  obtain ⟨source, isLead, closed, shape⟩ := shown
  exact ⟨node, column, behind, ⟨lead, text, depth + 1, .item member stands, source, isLead,
    Nat.le_succ_of_le closed, shape⟩, within⟩

/-- So does the line with the closing parenthesis of the list behind it. -/
theorem KeepsWidth.closed (keeps : w.KeepsWidth width line) (member : w ∈ items) :
    (Value.list items).KeepsWidth width (line ++ [')']) := by
  obtain ⟨node, column, behind, ⟨lead, text, depth, stands, shown⟩, within⟩ := keeps
  obtain ⟨source, isLead, closed, ends, rfl⟩ := shown
  exact ⟨node, column, behind + 1, ⟨lead, text, depth + 1, .item member stands, source, isLead,
    Nat.succ_le_succ closed, ends, by rw [List.replicate_succ', List.append_assoc]⟩, within⟩

/-- A value on one line behind a lead is a line of its own. -/
theorem keepsWidth_whole {lead : List Char} {text : String} (source : v.source? = some text)
    (clear : '\n' ∉ text.toList) (isLead : IsLead lead)
    (within : width < (lead.length + text.length : Nat) → v.IsUnbreakable) :
    ∀ line ∈ (lead ++ text.toList).splitOn '\n', v.KeepsWidth width line := by
  have whole : '\n' ∉ lead ++ text.toList := by
    simp [isLead.lineBreak_not_mem, clear]
  rw [List.splitOn_eq_singleton whole]
  refine List.forall_mem_singleton.mpr ⟨v, _, 0, ⟨lead, text, 0, .self, source, isLead,
    Nat.le_refl 0, rfl, ?_⟩, within⟩
  simp

end

/-! ### Lines of layouts -/

/-- The text lays the value out at an indentation: it is the source text if that fits, and its lines
keep the width if the first one begins no further to the right than the indentation. -/
structure LaidOut (width indent : Int) (v : Value) (text : String) : Prop where
  source : ∃ line, v.source? = some line ∧ '\n' ∉ line.toList ∧
    (text.length + indent * 2 ≤ width → text = line)
  lines : ∀ lead, IsLead lead → lead.length ≤ 2 * indent →
    ∀ line ∈ (lead ++ text.toList).splitOn '\n', v.KeepsWidth width line

section

variable {v : Value} {items : List Value} {texts : List String} {text : String}
  {width indent : Int}

theorem laidOut_of_source (source : v.source? = some text) (clear : '\n' ∉ text.toList)
    (whole : v.IsUnbreakable) : v.LaidOut width indent text where
  source := ⟨text, source, clear, fun _ => rfl⟩
  lines _ isLead _ := keepsWidth_whole source clear isLead fun _ => whole

theorem sourceItems?_of_laidOut (each : List.Forall₂ (LaidOut width indent) items texts) :
    ∃ lines, sourceItems? items = some lines ∧ (∀ line ∈ lines, '\n' ∉ line.toList) ∧
      ((∀ text ∈ texts, text.length + indent * 2 ≤ width) → texts = lines) := by
  induction each with
  | nil => exact ⟨[], rfl, by simp, fun _ => rfl⟩
  | cons laid _ ih =>
    obtain ⟨line, source, clear, whole⟩ := laid.source
    obtain ⟨lines, sources, clears, wholes⟩ := ih
    refine ⟨line :: lines, by simp [sourceItems?, source, sources],
      List.forall_mem_cons.mpr ⟨clear, clears⟩, fun narrow => ?_⟩
    obtain ⟨first, others⟩ := List.forall_mem_cons.mp narrow
    rw [whole first, wholes others]

/-- The lines of items with a line each are those of the items. -/
theorem lines_of_items (nonneg : 0 ≤ indent)
    (each : List.Forall₂ (LaidOut width (indent + 1)) items texts) (nonempty : texts ≠ [])
    {lead : List Char} (isLead : IsLead lead) (left : lead.length ≤ 2 * (indent + 1)) :
    ∀ line ∈ (lead ++ (("\n" ++ margin indent).intercalate texts).toList).splitOn '\n',
      ∃ v ∈ items, v.KeepsWidth width line := by
  induction each generalizing lead with
  | nil => exact absurd rfl nonempty
  | @cons v text items texts laid others ih =>
    by_cases last : texts = []
    · subst last
      rw [String.intercalate_singleton]
      exact fun line member => ⟨v, List.mem_cons_self, laid.lines lead isLead left line member⟩
    · have shape : lead ++ (("\n" ++ margin indent).intercalate (text :: texts)).toList =
          (lead ++ text.toList) ++ '\n' :: ((margin indent).toList ++
            (("\n" ++ margin indent).intercalate texts).toList) := by
        simp [String.intercalate_cons_of_ne_nil last]
      have column : (margin indent).toList.length ≤ 2 * (indent + 1) := by
        simp [margin]
        omega
      rw [shape, List.splitOn_append_cons_self]
      intro line member
      rcases List.mem_append.mp member with first | later
      · exact ⟨v, List.mem_cons_self, laid.lines lead isLead left line first⟩
      · obtain ⟨w, among, keeps⟩ := ih last (isLead_margin indent) column line later
        exact ⟨w, List.mem_cons_of_mem v among, keeps⟩

/-- If its items are laid out, so is the list that they are fitted into. -/
theorem laidOut_list (nonneg : 0 ≤ indent)
    (each : List.Forall₂ (LaidOut width (indent + 1)) items texts) :
    (Value.list items).LaidOut width indent (fitted width indent texts) := by
  obtain ⟨lines, sources, clears, wholes⟩ := sourceItems?_of_laidOut each
  have source : (Value.list items).source? = some (oneLine lines) := by
    rw [source?, sources, Option.map_some]
    rfl
  have clear : '\n' ∉ (oneLine lines).toList := lineBreak_not_mem_oneLine clears
  have longer : (oneLine texts).length ≤ (manyLines indent texts).length :=
    length_oneLine_le_manyLines (List.forall₂_same.mpr fun _ _ => Nat.le_refl _)
  have same (fits : (oneLine texts).length + indent * 2 ≤ width) : texts = lines := by
    refine wholes fun text member => ?_
    have wider := length_le_oneLine member
    omega
  unfold fitted
  split
  · rename_i fits
    obtain rfl := same fits
    refine ⟨⟨_, source, clear, fun _ => rfl⟩, fun lead isLead left => ?_⟩
    exact keepsWidth_whole source clear isLead fun wide => absurd wide (by omega)
  · rename_i wide
    refine ⟨⟨_, source, clear, fun fits => absurd fits (by omega)⟩, fun lead isLead left => ?_⟩
    by_cases empty : texts = []
    · -- Between no items there is nothing to break, so `()` is a line of its own at any width.
      subst empty
      cases each
      cases sources
      exact keepsWidth_whole source clear isLead fun _ => isUnbreakable_nil
    · have apart : ')' ≠ '\n' := by decide
      obtain ⟨front, last, before, after⟩ := exists_splitOn_append apart
        ((lead ++ ['(']) ++ (("\n" ++ margin indent).intercalate texts).toList)
      have inside := lines_of_items nonneg each empty isLead.opened (by simp; omega)
      have shape : lead ++ (manyLines indent texts).toList =
          ((lead ++ ['(']) ++ (("\n" ++ margin indent).intercalate texts).toList) ++ [')'] := by
        simp [manyLines]
      rw [shape, after]
      rw [before] at inside
      intro line member
      rcases List.mem_append.mp member with earlier | final
      · obtain ⟨w, among, keeps⟩ := inside line (List.mem_append_left _ earlier)
        exact keeps.item among
      · obtain ⟨w, among, keeps⟩ := inside last (by simp)
        rw [List.mem_singleton.mp final]
        exact keeps.closed among

/-- What a single token stands for is written without a line break. -/
theorem IsLiteral.lineBreak_not_mem (literal : v.IsLiteral) (source : v.source? = some text) :
    '\n' ∉ text.toList := by
  obtain ⟨t, written, whole, role⟩ := literal
  cases written.symm.trans source
  have solid : t.kind ≠ .blank := fun blank => by simp [role_of_blank blank] at role
  intro member
  rcases (Token.describes whole).solid_chars solid member with mark | part
  · exact absurd mark (by decide)
  · exact absurd part (by decide)

end

end Value

/-- A readable value of which nothing is left out is laid out. -/
theorem exists_layout_laidOut {v : Value} (readable : v.IsReadable) {deepest indent depth : Int}
    (nonneg : 0 ≤ indent) (within : v.WithinDepth deepest depth) (width : Int) :
    ∃ text, layout (Style.plain.bounded width deepest) indent depth v = .ok text ∧
      v.LaidOut width indent text := by
  -- What is left out is not laid out, so the induction keeps the depth as a condition.
  have rendered : ∃ text, layout (Style.plain.bounded width deepest) indent depth v = .ok text ∧
      (0 ≤ indent → v.WithinDepth deepest depth → v.LaidOut width indent text) := by
    refine exists_layout (P := fun indent depth v text =>
      0 ≤ indent → v.WithinDepth deepest depth → v.LaidOut width indent text) ?_ ?_ ?_ indent depth
    · intro indent depth v reached _ within
      exact absurd within.above (Int.not_lt.mpr reached)
    · intro indent depth items texts above each nonneg within
      obtain ⟨-, deeper⟩ := Value.withinDepth_list_iff.mp within
      refine Value.laidOut_list nonneg ?_
      exact ((List.forall₂_and_left items texts).mpr ⟨deeper, each⟩).imp
        fun v text laid => laid.2 (by omega) laid.1
    · intro a occurs atom
      have literal : a.IsLiteral := readable a ((Value.mem_spelling_iff atom v).mpr occurs)
      obtain ⟨text, prints⟩ := Value.prints_of_isLiteral atom literal
      refine ⟨text, colorize_plain prints.source, fun indent depth _ _ _ => ?_⟩
      exact Value.laidOut_of_source prints.source (literal.lineBreak_not_mem prints.source)
        fun first rest => atom _
  obtain ⟨text, laid, shown⟩ := rendered
  exact ⟨text, laid, shown nonneg within⟩

/-- Without colours, a readable value of which nothing is left out is laid out in lines that each
show one node of it. A node reaches beyond the width only if it is an atom or the empty list.
Whatever else a line has too much are closing parentheses behind the node, no more than there are
lists around it. -/
theorem lines_keep_width_up_to_closings {v : Value} (datum : v.IsDatum)
    (names : v.HasReadableNames) {deepest depth : Int} (within : v.WithinDepth deepest depth)
    {indent : Int} (nonneg : 0 ≤ indent) (width : Int) :
    ∃ text, layout (Style.plain.bounded width deepest) indent depth v = .ok text ∧
      ∀ line ∈ text.toList.splitOn '\n', ∃ node column behind,
        v.LineShows node column behind line ∧ line.length = column + behind ∧
          (width < column → node.IsUnbreakable) := by
  obtain ⟨text, laid, shown⟩ :=
    exists_layout_laidOut (datum.isReadable_iff.mpr names) nonneg within width
  refine ⟨text, laid, fun line member => ?_⟩
  obtain ⟨node, column, behind, shows, wide⟩ :=
    shown.lines [] isLead_nil (by simpa using nonneg) line member
  exact ⟨node, column, behind, shows, shows.length_eq, wide⟩

/-- `(a (b c))`. -/
def nestedPair : Value :=
  .list [.symbol "a", .list [.symbol "b", .symbol "c"]]

theorem nestedPair_fromText : nestedPair.FromText := by
  have read : parse "(a (b c))" = .ok nestedPair := by cbv
  exact Value.fromText_of_parse read

theorem nestedPair_withinDepth : nestedPair.WithinDepth 3 0 := by
  simp [nestedPair, Value.withinDepth_list_iff, Value.withinDepth_iff_of_isAtom,
    Value.isAtom_symbol]

/-- What a node of the list that cannot be broken is written as. -/
theorem text_of_nestedPair_atom {node : Value} {depth : Nat} {text : String}
    (stands : Value.NodeAt node depth nestedPair) (whole : node.IsUnbreakable)
    (source : node.source? = some text) : text = "a" ∨ text = "b" ∨ text = "c" := by
  have written (name : String) (same : node = .symbol name) : text = name := by
    subst same
    exact (Option.some.inj source).symm
  cases stands with
  | self => exact absurd rfl (whole _ _)
  | item member inside =>
    rcases List.mem_pair.mp member with rfl | rfl
    · cases inside
      exact .inl (written _ rfl)
    · cases inside with
      | self => exact absurd rfl (whole _ _)
      | item member inside =>
        rcases List.mem_pair.mp member with rfl | rfl
        · cases inside
          exact .inr (.inl (written _ rfl))
        · cases inside
          exact .inr (.inr (written _ rfl))

theorem nestedPair_in_seven_columns :
    layout (Style.plain.bounded 7 3) 0 0 nestedPair = .ok "(a\n  (b c))" :=
  eq_ok_of_toOption (by decide +kernel)

/-- In seven columns the list is broken, and its second line is one column too long. That is not
because of a node, so closing parentheses are the cause. -/
theorem nestedPair_keeps_width_up_to_closings :
    "  (b c))".toList ∈ "(a\n  (b c))".toList.splitOn '\n' ∧
    ∃ node column behind, nestedPair.LineShows node column behind "  (b c))".toList ∧
      column + behind = 8 ∧ (7 < column → node.IsUnbreakable) := by
  have names := nestedPair_fromText.isDatum.isReadable_iff.mp nestedPair_fromText.isReadable
  obtain ⟨text, laid, each⟩ := lines_keep_width_up_to_closings nestedPair_fromText.isDatum names
    nestedPair_withinDepth (Int.le_refl 0) 7
  cases laid.symm.trans nestedPair_in_seven_columns
  have line : "  (b c))".toList ∈ "(a\n  (b c))".toList.splitOn '\n' := by decide
  obtain ⟨node, column, behind, shows, length, wide⟩ := each _ line
  exact ⟨line, node, column, behind, shows, length.symm, fun beyond => wide (by omega)⟩

/-- The inner list fits into seven columns at its indentation, but the closing parenthesis of the
outer list makes its line too long. The line shows two atoms, so no single one is the cause. -/
theorem closing_makes_line_too_long :
    layout (Style.plain.bounded 7 3) 0 0 nestedPair = .ok "(a\n  (b c))" ∧
    "  (b c))".toList ∈ "(a\n  (b c))".toList.splitOn '\n' ∧ 7 < "  (b c))".toList.length ∧
    ¬ ∃ node column behind, nestedPair.LineShows node column behind "  (b c))".toList ∧
      node.IsUnbreakable ∧ 7 < column := by
  refine ⟨nestedPair_in_seven_columns, by decide, by decide, ?_⟩
  rintro ⟨node, column, behind, ⟨lead, text, depth, stands, source, isLead, -, -, shape⟩, whole, -⟩
  obtain ⟨spaces, opens, rfl⟩ := isLead
  have held (c : Char) (inside : c ∈ "  (b c))".toList) (letter : c ∉ [' ', '(', ')']) :
      c ∈ text.toList := by
    rw [shape] at inside
    simp only [List.mem_append, List.mem_replicate] at inside
    simp only [List.mem_cons, List.not_mem_nil, or_false, not_or] at letter
    obtain ⟨noSpace, noOpening, noClosing⟩ := letter
    rcases inside with ((⟨-, space⟩ | ⟨-, opening⟩) | shown) | ⟨-, closing⟩
    · exact absurd space noSpace
    · exact absurd opening noOpening
    · exact shown
    · exact absurd closing noClosing
  have first := held 'b' (by decide) (by decide)
  have second := held 'c' (by decide) (by decide)
  rcases text_of_nestedPair_atom stands whole source with rfl | rfl | rfl
  · exact absurd first (by decide)
  · exact absurd second (by decide)
  · exact absurd first (by decide)

end ContextLisp
