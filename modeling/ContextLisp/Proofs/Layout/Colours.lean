/-
# Colours of layouts

Escape sequences count towards the width of a line. So colours are not mere decoration: a list that
fits on one line without them may be broken with them. They change nothing else. If the escape
sequences are deleted, what is left is the layout without colours, but for the lists that are broken
because of their colours.
-/

import ContextLisp.Proofs.Layout.Bounded

namespace ContextLisp

/-- The text without its escape sequences. Such a sequence ends with the first `m` in it. -/
def unpainted : List Char → List Char
  | [] => []
  | c :: cs =>
    if c = '\x1b' then unpainted (cs.dropWhile (· != 'm')).tail else c :: unpainted cs
termination_by cs => cs.length
decreasing_by
  · rw [List.length_tail]
    exact Nat.lt_succ_of_le ((Nat.sub_le _ _).trans (List.dropWhile_suffix _).length_le)
  · exact Nat.lt_succ_self _

/-- No text of an atom in the value holds an escape character. -/
def Value.HasClearAtoms (v : Value) : Prop :=
  ∀ a, Value.Occurs a v → a.IsAtom → ∀ text, a.source? = some text → '\x1b' ∉ text.toList

/-- No list that is shown is broken because of its colours: if it has several items and fits on one
line without colours, it also does with them. -/
def Value.BreaksAlike (style : Style) (indent depth : Int) (v : Value) : Prop :=
  ∀ items d, Value.NodeAt (.list items) d v → style.Shows (depth + d) → 2 ≤ items.length →
    (Value.list items).FitsOnLine style.uncoloured (indent + d) (depth + d) →
    (Value.list items).FitsOnLine style (indent + d) (depth + d)

/-! ### Deleting escape sequences -/

theorem unpainted_cons {c : Char} (other : c ≠ '\x1b') (cs : List Char) :
    unpainted (c :: cs) = c :: unpainted cs := by
  rw [unpainted, if_neg other]

/-- A text without escape characters is left as it is. -/
theorem unpainted_append {cs : List Char} (clear : '\x1b' ∉ cs) (rest : List Char) :
    unpainted (cs ++ rest) = cs ++ unpainted rest := by
  induction cs with
  | nil => rfl
  | cons c cs ih =>
    obtain ⟨other, clear⟩ := not_or.mp (mt List.mem_cons.mpr clear)
    rw [List.cons_append, unpainted_cons (Ne.symm other), ih clear, List.cons_append]

/-- Without its escape sequences, the text is the other one, whatever follows it. -/
def Unpaints (text bare : String) : Prop :=
  ∀ rest, unpainted (text.toList ++ rest) = bare.toList ++ unpainted rest

theorem Unpaints.unpainted_eq {text bare : String} (unpaints : Unpaints text bare) :
    unpainted text.toList = bare.toList := by
  simpa [unpainted] using unpaints []

theorem unpaints_self {text : String} (clear : '\x1b' ∉ text.toList) : Unpaints text text :=
  unpainted_append clear

theorem Unpaints.append {text text' bare bare' : String} (first : Unpaints text bare)
    (second : Unpaints text' bare') : Unpaints (text ++ text') (bare ++ bare') := by
  intro rest
  rw [String.toList_append, String.toList_append, List.append_assoc, first, second,
    List.append_assoc]

/-- An escape sequence is deleted up to its mark. -/
theorem unpaints_escape {code : String} (unmarked : 'm' ∉ code.toList) :
    Unpaints ("\x1b[" ++ code ++ "m") "" := by
  intro rest
  have shape : ("\x1b[" ++ code ++ "m").toList ++ rest =
      '\x1b' :: ('[' :: (code.toList ++ 'm' :: rest)) := by simp
  have within : ∀ c ∈ '[' :: code.toList, (c != 'm') = true := by
    refine List.forall_mem_cons.mpr ⟨by decide, fun c member => ?_⟩
    exact bne_iff_ne.mpr fun same => unmarked (same ▸ member)
  rw [shape, unpainted, if_pos rfl, ← List.cons_append, List.dropWhile_append_of_pos within]
  rfl

theorem unpaints_paint {code text : String} (unmarked : 'm' ∉ code.toList)
    (clear : '\x1b' ∉ text.toList) : Unpaints (paint code text) text := by
  have opened := (unpaints_escape unmarked).append (unpaints_self clear)
  have reset : Unpaints ("\x1b[" ++ "0" ++ "m") "" := unpaints_escape (by decide)
  simpa [paint] using opened.append reset

theorem unpaints_intercalate {gap : String} (clear : '\x1b' ∉ gap.toList)
    {texts bares : List String} (each : List.Forall₂ Unpaints texts bares) :
    Unpaints (gap.intercalate texts) (gap.intercalate bares) := by
  induction each with
  | nil => exact unpaints_self (by simp)
  | @cons text bare texts bares unpaints others ih =>
    by_cases last : texts = []
    · subst last
      cases others
      simpa only [String.intercalate_singleton] using unpaints
    · have nonempty : bares ≠ [] := by
        rintro rfl
        cases others
        exact last rfl
      rw [String.intercalate_cons_of_ne_nil last, String.intercalate_cons_of_ne_nil nonempty]
      exact (unpaints.append (unpaints_self clear)).append ih

theorem unpaints_enclosed {gap : String} (clear : '\x1b' ∉ gap.toList)
    {texts bares : List String} (each : List.Forall₂ Unpaints texts bares) :
    Unpaints ("(" ++ gap.intercalate texts ++ ")") ("(" ++ gap.intercalate bares ++ ")") :=
  ((unpaints_self (by decide)).append (unpaints_intercalate clear each)).append
    (unpaints_self (by decide))

/-! ### Line breaks -/

/-- How many line breaks a text holds. -/
def lineBreaks (text : String) : Nat :=
  text.toList.count '\n'

theorem lineBreaks_enclosed (gap : String) (parts : List String) :
    lineBreaks ("(" ++ gap.intercalate parts ++ ")") =
      (parts.map lineBreaks).sum + (parts.length - 1) * lineBreaks gap := by
  have counted := countP_intercalate (· == '\n') gap parts
  have opening : "(".toList.count '\n' = 0 := by decide
  have closing : ")".toList.count '\n' = 0 := by decide
  rw [lineBreaks, String.toList_append, String.toList_append, List.count_append,
    List.count_append, opening, closing, Nat.zero_add, Nat.add_zero]
  exact counted

theorem lineBreaks_space : lineBreaks " " = 0 := by decide

theorem lineBreaks_lineBreak (indent : Int) : lineBreaks ("\n" ++ margin indent) = 1 := by
  simp [lineBreaks, margin, List.count_replicate]

/-! ### Which lists are broken -/

theorem Style.maxLineLength_uncoloured (style : Style) :
    style.uncoloured.maxLineLength = style.maxLineLength := rfl

theorem Style.shows_uncoloured {style : Style} {depth : Int} :
    style.uncoloured.Shows depth ↔ style.Shows depth := Iff.rfl

namespace Value

variable {style : Style} {indent depth : Int} {v : Value} {items : List Value}

theorem breaksAlike_of_isAtom (atom : v.IsAtom) : v.BreaksAlike style indent depth := by
  intro items d stands
  cases stands with
  | self => exact absurd rfl (atom items)
  | item => exact absurd rfl (atom _)

theorem breaksAlike_of_not_shows (hidden : ¬ style.Shows depth) :
    v.BreaksAlike style indent depth :=
  fun _ d _ shown => absurd (shown.of_le (Int.le_add_of_nonneg_right (Int.natCast_nonneg d))) hidden

/-- A list breaks alike if it does itself and so do its items. -/
theorem breaksAlike_list_iff (shown : style.Shows depth) :
    (Value.list items).BreaksAlike style indent depth ↔
      (2 ≤ items.length → (Value.list items).FitsOnLine style.uncoloured indent depth →
        (Value.list items).FitsOnLine style indent depth) ∧
      ∀ v ∈ items, v.BreaksAlike style (indent + 1) (depth + 1) := by
  constructor
  · intro alike
    refine ⟨fun several fits => ?_, fun v member inner d stands => ?_⟩
    · simpa using alike items 0 .self (by simpa using shown) several (by simpa using fits)
    · have deeper := alike inner (d + 1) (.item member stands)
      rwa [Nat.cast_add, Nat.cast_one, Int.add_comm (d : Int), ← Int.add_assoc,
        ← Int.add_assoc] at deeper
  · rintro ⟨own, each⟩ inner d stands
    cases stands with
    | self => simpa using fun _ => own
    | @item _ v d member inside =>
      have deeper := each v member inner d inside
      rwa [Nat.cast_add, Nat.cast_one, Int.add_comm (d : Int), ← Int.add_assoc,
        ← Int.add_assoc]

end Value

/-! ### Two layouts of one value -/

/-- Both computations have results, which are related, or both fail with the same error. -/
inductive SameOutcome {α β : Type} (R : α → β → Prop) : Except Error α → Except Error β → Prop
  | ok {a : α} {b : β} (related : R a b) : SameOutcome R (.ok a) (.ok b)
  | error (e : Error) : SameOutcome R (.error e) (.error e)

/-- Of two layouts of a value the second one is coloured. Without its escape sequences it is the
first one, or it has more line breaks. -/
structure Recolours (style : Style) (indent depth : Int) (v : Value) (plain painted : String) :
    Prop where
  longer : plain.length ≤ painted.length
  unpaints : ∃ bare, Unpaints painted bare ∧
    (v.BreaksAlike style indent depth ∧ bare = plain ∨
      ¬ v.BreaksAlike style indent depth ∧ lineBreaks plain < lineBreaks bare)

/-- The same for the layouts of several values. -/
structure RecoloursItems (style : Style) (indent depth : Int) (items : List Value)
    (plains painteds : List String) : Prop where
  count : plains.length = items.length
  longer : List.Forall₂ (fun plain painted => plain.length ≤ painted.length) plains painteds
  unpaints : ∃ bares, List.Forall₂ Unpaints painteds bares ∧
    ((∀ v ∈ items, v.BreaksAlike style indent depth) ∧ bares = plains ∨
      (¬ ∀ v ∈ items, v.BreaksAlike style indent depth) ∧
        (plains.map lineBreaks).sum < (bares.map lineBreaks).sum)

section

variable {style : Style} {indent depth : Int} {v : Value} {items : List Value}
  {plain painted : String} {plains painteds : List String}

theorem recolours_self (alike : v.BreaksAlike style indent depth) (clear : '\x1b' ∉ plain.toList) :
    Recolours style indent depth v plain plain :=
  ⟨Nat.le_refl _, plain, unpaints_self clear, .inl ⟨alike, rfl⟩⟩

theorem recoloursItems_nil : RecoloursItems style indent depth [] [] [] :=
  ⟨rfl, .nil, [], .nil, .inl ⟨by simp, rfl⟩⟩

theorem RecoloursItems.cons (first : Recolours style indent depth v plain painted)
    (others : RecoloursItems style indent depth items plains painteds) :
    RecoloursItems style indent depth (v :: items) (plain :: plains) (painted :: painteds) := by
  obtain ⟨bare, unpaints, decided⟩ := first.unpaints
  obtain ⟨bares, unpaintsItems, decidedItems⟩ := others.unpaints
  refine ⟨by simp [others.count], .cons first.longer others.longer, bare :: bares,
    .cons unpaints unpaintsItems, ?_⟩
  simp only [List.forall_mem_cons, List.map_cons, List.sum_cons]
  rcases decided with ⟨alike, rfl⟩ | ⟨unlike, more⟩
  · rcases decidedItems with ⟨alikes, rfl⟩ | ⟨unlikes, mores⟩
    · exact .inl ⟨⟨alike, alikes⟩, rfl⟩
    · exact .inr ⟨fun both => unlikes both.2, by omega⟩
  · refine .inr ⟨fun both => unlike both.1, ?_⟩
    rcases decidedItems with ⟨_, rfl⟩ | ⟨_, mores⟩
    · omega
    · omega

/-- The codes of colours do not end the escape sequence before its mark. -/
theorem mark_not_mem_colorOf? {code : String} (coloured : style.colorOf? v = some code) :
    'm' ∉ code.toList := by
  have among : code ∈ ["90", "94", "96", "92", "93", "95"] := by
    unfold Style.colorOf? at coloured
    grind
  have unmarked : ∀ code ∈ ["90", "94", "96", "92", "93", "95"], 'm' ∉ code.toList := by decide
  exact unmarked code among

/-- An atom is coloured without a change to its text. -/
theorem colorize_recolours (alike : v.BreaksAlike style indent depth)
    (clear : ∀ text, v.source? = some text → '\x1b' ∉ text.toList) :
    SameOutcome (Recolours style indent depth v) (colorize style.uncoloured v)
      (colorize style v) := by
  rw [colorize, colorize, colorOf?_uncoloured]
  cases source : v.source? with
  | none => exact .error _
  | some text =>
    cases coloured : style.colorOf? v with
    | none => exact .ok (recolours_self alike (clear text source))
    | some code =>
      refine .ok ⟨?_, text, unpaints_paint (mark_not_mem_colorOf? coloured) (clear text source),
        .inl ⟨alike, rfl⟩⟩
      simp only [paint, String.length_append]
      omega

/-- Both layouts of a list enclose its items, with gaps of their own. They differ in line breaks if
the list is broken in only one of them. -/
theorem recolours_enclosed (shown : style.Shows depth)
    (each : RecoloursItems style (indent + 1) (depth + 1) items plains painteds)
    {gap gap' : String} (clear : '\x1b' ∉ gap'.toList) (longer : gap.length ≤ gap'.length)
    (breaks : lineBreaks gap ≤ lineBreaks gap')
    (own : (2 ≤ items.length → (Value.list items).FitsOnLine style.uncoloured indent depth →
          (Value.list items).FitsOnLine style indent depth) ∧
        gap.intercalate plains = gap'.intercalate plains ∨
      2 ≤ items.length ∧ (Value.list items).FitsOnLine style.uncoloured indent depth ∧
        ¬ (Value.list items).FitsOnLine style indent depth ∧ lineBreaks gap < lineBreaks gap') :
    Recolours style indent depth (.list items) ("(" ++ gap.intercalate plains ++ ")")
      ("(" ++ gap'.intercalate painteds ++ ")") := by
  obtain ⟨bares, unpaints, decided⟩ := each.unpaints
  have counted : bares.length = plains.length :=
    unpaints.length_eq.symm.trans each.longer.length_eq.symm
  refine ⟨?_, _, unpaints_enclosed clear unpaints, ?_⟩
  · have inside := length_intercalate_le longer each.longer
    simp only [String.length_append]
    omega
  · rw [Value.breaksAlike_list_iff shown, lineBreaks_enclosed, lineBreaks_enclosed, counted]
    -- The gaps cannot make up for what the items differ in: with colours there are no fewer breaks.
    rcases own with ⟨ownAlike, same⟩ | ⟨several, fits, wide, more⟩
    · rcases decided with ⟨alikes, rfl⟩ | ⟨unlikes, mores⟩
      · exact .inl ⟨⟨ownAlike, alikes⟩, by rw [same]⟩
      · have gaps := Nat.mul_le_mul_left (plains.length - 1) breaks
        exact .inr ⟨fun both => unlikes both.2, by omega⟩
    · have several' : 0 < plains.length - 1 := by
        rw [each.count]
        omega
      have gaps := Nat.mul_lt_mul_of_pos_left more several'
      refine .inr ⟨fun both => wide (both.1 several fits), ?_⟩
      rcases decided with ⟨_, rfl⟩ | ⟨_, mores⟩
      · omega
      · omega

theorem recolours_list (shown : style.Shows depth) {first : Value} {rest : List Value}
    (plainLaid : layoutItems style.uncoloured (indent + 1) (depth + 1) (first :: rest) = .ok plains)
    (paintedLaid : layoutItems style (indent + 1) (depth + 1) (first :: rest) = .ok painteds)
    (each : RecoloursItems style (indent + 1) (depth + 1) (first :: rest) plains painteds) :
    SameOutcome (Recolours style indent depth (.list (first :: rest)))
      (arrange style.uncoloured indent plains) (arrange style indent painteds) := by
  cases bound : style.maxLineLength with
  | none =>
    rw [arrange_of_none (style.maxLineLength_uncoloured.trans bound), arrange_of_none bound]
    exact .error _
  | some width =>
    rw [arrange_of_bound (style.maxLineLength_uncoloured.trans bound), arrange_of_bound bound]
    refine .ok ?_
    have plainFits := admits_oneLine_iff (style.maxLineLength_uncoloured.trans bound)
      (Style.shows_uncoloured.mpr shown) plainLaid
    have paintedFits := admits_oneLine_iff bound shown paintedLaid
    have spaceClear : '\x1b' ∉ " ".toList := by decide
    have breakClear : '\x1b' ∉ ("\n" ++ margin indent).toList := by
      rw [toList_lineBreak]
      simp [List.mem_replicate]
    by_cases painted : width.admits ((oneLine painteds).length + indent * 2) = true
    · -- Colours only add to the width, so what fits with them fits without.
      have plain : width.admits ((oneLine plains).length + indent * 2) = true := by
        have shorter := length_intercalate_le (Nat.le_refl " ".length) each.longer
        refine Bound.admits_of_le ?_ painted
        rw [length_oneLine, length_oneLine]
        omega
      rw [if_pos plain, if_pos painted]
      exact recolours_enclosed shown each spaceClear (Nat.le_refl _) (Nat.le_refl _)
        (.inl ⟨fun _ _ => paintedFits.mp painted, rfl⟩)
    · rw [if_neg painted]
      by_cases plain : width.admits ((oneLine plains).length + indent * 2) = true
      · have breaks : lineBreaks " " < lineBreaks ("\n" ++ margin indent) := by
          rw [lineBreaks_space, lineBreaks_lineBreak]
          exact Nat.one_pos
        have longer : " ".length ≤ ("\n" ++ margin indent).length := by
          rw [length_lineBreak]
          exact Nat.le_add_left 1 _
        rw [if_pos plain]
        refine recolours_enclosed shown each breakClear longer (Nat.le_of_lt breaks) ?_
        by_cases several : 2 ≤ (first :: rest).length
        · exact .inr ⟨several, plainFits.mp plain, fun fits => painted (paintedFits.mpr fits),
            breaks⟩
        · refine .inl ⟨fun two => absurd two several, ?_⟩
          obtain ⟨text, rfl⟩ : ∃ text, plains = [text] := by
            rw [← List.length_eq_one_iff, each.count]
            simp only [List.length_cons] at several ⊢
            omega
          rw [String.intercalate_singleton, String.intercalate_singleton]
      · rw [if_neg plain]
        exact recolours_enclosed shown each breakClear (Nat.le_refl _) (Nat.le_refl _)
          (.inl ⟨fun _ fits => absurd (plainFits.mpr fits) plain, rfl⟩)

theorem layoutItems_recoloured
    (each : ∀ v ∈ items, SameOutcome (Recolours style indent depth v)
      (layout style.uncoloured indent depth v) (layout style indent depth v)) :
    SameOutcome (RecoloursItems style indent depth items)
      (layoutItems style.uncoloured indent depth items) (layoutItems style indent depth items) := by
  induction items with
  | nil => exact .ok recoloursItems_nil
  | cons v vs ih =>
    obtain ⟨first, others⟩ := List.forall_mem_cons.mp each
    have later := ih others
    rw [layoutItems, layoutItems]
    revert first later
    generalize layout style.uncoloured indent depth v = plain,
      layout style indent depth v = painted,
      layoutItems style.uncoloured indent depth vs = plains,
      layoutItems style indent depth vs = painteds
    rintro (first | _) (later | _)
    · exact .ok (later.cons first)
    · exact .error _
    · exact .error _
    · exact .error _

theorem omission_recoloured (hidden : ¬ style.Shows depth) :
    SameOutcome (Recolours style indent depth v) style.uncoloured.omission style.omission := by
  have bounds : style.uncoloured.omission = style.omission := rfl
  rw [bounds, Style.omission]
  cases style.maxDepth with
  | none => exact .error _
  | some deepest =>
    exact .ok (recolours_self (Value.breaksAlike_of_not_shows hidden) (by decide))

/-- A value has both layouts or neither, and the coloured one recolours the other. -/
theorem layout_recoloured (clear : v.HasClearAtoms) (style : Style) (indent depth : Int) :
    SameOutcome (Recolours style indent depth v) (layout style.uncoloured indent depth v)
      (layout style indent depth v) := by
  induction v using Value.listInduction generalizing indent depth with
  | atom v atom =>
    by_cases shown : style.Shows depth
    · rw [layout_of_shown_atom (Style.shows_uncoloured.mpr shown) atom,
        layout_of_shown_atom shown atom]
      exact colorize_recolours (Value.breaksAlike_of_isAtom atom) (clear v .self atom)
    · rw [layout_of_not_shows (Style.shows_uncoloured.not.mpr shown), layout_of_not_shows shown]
      exact omission_recoloured shown
  | list items each =>
    by_cases shown : style.Shows depth
    · cases items with
      | nil =>
        rw [layout_of_shown_empty (Style.shows_uncoloured.mpr shown), layout_of_shown_empty shown]
        have alike : (Value.list []).BreaksAlike style indent depth :=
          (Value.breaksAlike_list_iff shown).mpr ⟨by simp, by simp⟩
        exact .ok (recolours_self alike (by decide))
      | cons first rest =>
        have inner := layoutItems_recoloured fun v member =>
          each v member (fun a occurs => clear a (.item member occurs)) (indent + 1) (depth + 1)
        rw [layout_of_shown_list (Style.shows_uncoloured.mpr shown), layout_of_shown_list shown]
        generalize plainLaid : layoutItems style.uncoloured (indent + 1) (depth + 1)
          (first :: rest) = plain, paintedLaid : layoutItems style (indent + 1) (depth + 1)
          (first :: rest) = painted at inner ⊢
        cases inner with
        | ok related => exact recolours_list shown plainLaid paintedLaid related
        | error e => exact .error e
    · rw [layout_of_not_shows (Style.shows_uncoloured.not.mpr shown), layout_of_not_shows shown]
      exact omission_recoloured shown

end

/-- A value whose atoms hold no escape characters has a layout in colours exactly if it has one
without, and both fail for the same reason. The layout in colours without its escape sequences is
the other one if no list of several items that fits on one line without colours fails to with
them. If there is such a list, it has more line breaks. The bounds may be anything. -/
theorem colours_only_break_lists_that_fit_without {v : Value} (clear : v.HasClearAtoms)
    (style : Style) (indent depth : Int) :
    match layout style.uncoloured indent depth v, layout style indent depth v with
    | .ok plain, .ok painted =>
      (v.BreaksAlike style indent depth → unpainted painted.toList = plain.toList) ∧
      (¬ v.BreaksAlike style indent depth →
        plain.toList.count '\n' < (unpainted painted.toList).count '\n')
    | .error e, .error e' => e = e'
    | _, _ => False := by
  have outcome := layout_recoloured clear style indent depth
  generalize layout style.uncoloured indent depth v = plain, layout style indent depth v = painted
    at outcome ⊢
  cases outcome with
  | error e => rfl
  | ok related =>
    obtain ⟨bare, unpaints, decided⟩ := related.unpaints
    dsimp only
    rw [unpaints.unpainted_eq]
    rcases decided with ⟨alike, rfl⟩ | ⟨unlike, more⟩
    · exact ⟨fun _ => rfl, fun unlike => absurd alike unlike⟩
    · exact ⟨fun alike => absurd alike unlike, fun _ => more⟩

/-- `(a b)`. -/
def symbolPair : Value :=
  .list [.symbol "a", .symbol "b"]

theorem symbolPair_hasClearAtoms : symbolPair.HasClearAtoms := by
  intro a occurs atom text source
  cases occurs with
  | self => exact absurd rfl (atom _)
  | item member inside =>
    rcases List.mem_pair.mp member with rfl | rfl
    · cases inside
      cases source
      decide
    · cases inside
      cases source
      decide

/-- In twenty columns the pair fits without colours, but not with them. -/
theorem colours_break_symbolPair :
    layout (Style.standard.bounded 20 5).uncoloured 0 0 symbolPair = .ok "(a b)" ∧
    layout (Style.standard.bounded 20 5) 0 0 symbolPair =
      .ok "(\x1b[94ma\x1b[0m\n  \x1b[94mb\x1b[0m)" ∧
    unpainted "(\x1b[94ma\x1b[0m\n  \x1b[94mb\x1b[0m)".toList = "(a\n  b)".toList ∧
    "(a\n  b)".toList ≠ "(a b)".toList := by
  refine ⟨eq_ok_of_toOption (by decide +kernel), eq_ok_of_toOption (by decide +kernel), ?_,
    by decide⟩
  simp [unpainted]

theorem fitsOnLine_bounded_iff (style : Style) {width indent depth : Int} {v : Value}
    {line : String} (flat : layout style.unbounded indent depth v = .ok line)
    (bounds : style.maxLineLength = some (.int width)) :
    v.FitsOnLine style indent depth ↔ line.length + indent * 2 ≤ width := by
  constructor
  · rintro ⟨bound, line', bounds', flat', fits⟩
    cases bounds.symm.trans bounds'
    cases flat.symm.trans flat'
    exact of_decide_eq_true fits
  · exact fun fits => ⟨.int width, line, bounds, flat, decide_eq_true fits⟩

/-- The pair is five columns wide, and each of its colours takes nine more. -/
theorem symbolPair_breaksAlike_iff (width : Int) :
    symbolPair.BreaksAlike (Style.standard.bounded width 5) 0 0 ↔ (5 ≤ width → 23 ≤ width) := by
  have plain : layout (Style.standard.bounded 0 5).uncoloured.unbounded 0 0 symbolPair =
      .ok "(a b)" := eq_ok_of_toOption (by decide +kernel)
  have painted : layout (Style.standard.bounded 0 5).unbounded 0 0 symbolPair =
      .ok "(\x1b[94ma\x1b[0m \x1b[94mb\x1b[0m)" := eq_ok_of_toOption (by decide +kernel)
  have plainLength : "(a b)".length = 5 := by decide
  have paintedLength : "(\x1b[94ma\x1b[0m \x1b[94mb\x1b[0m)".length = 23 := by decide
  have plainFits := fitsOnLine_bounded_iff (Style.standard.bounded width 5).uncoloured plain rfl
  have paintedFits := fitsOnLine_bounded_iff (Style.standard.bounded width 5) painted rfl
  rw [plainLength] at plainFits
  rw [paintedLength] at paintedFits
  have atoms : ∀ v ∈ [Value.symbol "a", Value.symbol "b"],
      v.BreaksAlike (Style.standard.bounded width 5) (0 + 1) (0 + 1) := by
    intro v member
    rcases List.mem_pair.mp member with rfl | rfl
    · exact Value.breaksAlike_of_isAtom (Value.isAtom_symbol _)
    · exact Value.breaksAlike_of_isAtom (Value.isAtom_symbol _)
  have shown : (Style.standard.bounded width 5).Shows 0 := shows_bounded (by decide)
  unfold symbolPair at plainFits paintedFits ⊢
  rw [Value.breaksAlike_list_iff shown, and_iff_left atoms, plainFits, paintedFits]
  simp

/-- In 23 columns the pair is laid out alike with and without colours, and in 22 it is broken
because of its colours. -/
theorem symbolPair_fits_in_23_columns :
    (∃ painted, layout (Style.standard.bounded 23 5) 0 0 symbolPair = .ok painted ∧
      unpainted painted.toList = "(a b)".toList) ∧
    ∃ painted, layout (Style.standard.bounded 22 5) 0 0 symbolPair = .ok painted ∧
      0 < (unpainted painted.toList).count '\n' := by
  have whole := colours_only_break_lists_that_fit_without symbolPair_hasClearAtoms
    (Style.standard.bounded 23 5) 0 0
  have broken := colours_only_break_lists_that_fit_without symbolPair_hasClearAtoms
    (Style.standard.bounded 22 5) 0 0
  have plain : layout (Style.standard.bounded 23 5).uncoloured 0 0 symbolPair = .ok "(a b)" :=
    eq_ok_of_toOption (by decide +kernel)
  have plain' : layout (Style.standard.bounded 22 5).uncoloured 0 0 symbolPair = .ok "(a b)" :=
    eq_ok_of_toOption (by decide +kernel)
  rw [plain] at whole
  rw [plain'] at broken
  constructor
  · cases painted : layout (Style.standard.bounded 23 5) 0 0 symbolPair with
    | error e =>
      rw [painted] at whole
      cases whole
    | ok text =>
      rw [painted] at whole
      exact ⟨text, rfl, whole.1 ((symbolPair_breaksAlike_iff 23).mpr (by decide))⟩
  · cases painted : layout (Style.standard.bounded 22 5) 0 0 symbolPair with
    | error e =>
      rw [painted] at broken
      cases broken
    | ok text =>
      rw [painted] at broken
      have unlike := mt (symbolPair_breaksAlike_iff 22).mp (by decide)
      exact ⟨text, rfl, Nat.lt_of_le_of_lt (Nat.zero_le _) (broken.2 unlike)⟩

end ContextLisp
