/-
# Source text reads back

Forms that were read from a text can be written as source text, and the source text is
read as the same forms. The new text need not be the old one: blanks are gone, numerals
lose their leading zeros, and tokens that touched each other stand apart.

Two facts meet here. Every atom that the reader can get from a text is written as one
token that stands for it again; in front of a blank or a parenthesis this token is cut
as it was, since these characters stop symbols. And forms are read from tokens by
their roles alone, so it is enough that the new text has the roles of the old one.
-/

import ContextLisp.Proofs.Numerals
import ContextLisp.Proofs.Reading.Lexing
import ContextLisp.Proofs.Reading.Spelling
import ContextLisp.Value.Source

namespace ContextLisp

/-! ### Written integers are tokens -/

theorem isBlank_eq_false_of_isDigit {c : Char} (digit : c.isDigit = true) :
    Text.isBlank c = false := by
  apply Bool.eq_false_iff.mpr
  intro blank
  simp only [Char.isDigit, Bool.and_eq_true, decide_eq_true_eq, ge_iff_le,
    UInt32.le_iff_toNat_le, Char.toNat_val, Char.reduceToNat] at digit
  simp only [Text.isBlank, Text.isSeparator, Bool.or_eq_true, Bool.and_eq_true, beq_iff_eq,
    decide_eq_true_eq, Char.ext_iff, ← UInt32.toNat_inj, UInt32.le_iff_toNat_le,
    Char.toNat_val, Char.reduceToNat, UInt32.reduceToNat] at blank
  omega

namespace TokenKind

/-- Integers come right after parentheses and blanks in the order of kinds. -/
theorem first?_of_integer {c : Char} {cs : List Char} (notOpening : c ≠ '(')
    (notClosing : c ≠ ')') (visible : Text.isBlank c = false)
    (matched : integer.matchLength (c :: cs) ≠ 0) :
    first? (c :: cs) = some (.integer, integer.matchLength (c :: cs)) := by
  have blanks : blank.matchLength (c :: cs) = 0 := by
    rw [matchLength_blank]
    simp [visible]
  rw [first?, priority, firstOf, matchLength_opening, if_neg notOpening, if_pos rfl, firstOf,
    matchLength_closing, if_neg notClosing, if_pos rfl, firstOf, blanks, if_pos rfl, firstOf,
    if_neg matched]

theorem digitsLength_of_isDigit {cs : List Char} (all : ∀ c ∈ cs, c.isDigit = true) :
    digitsLength cs = cs.length := by
  rw [digitsLength, List.takeWhile_eq_self_iff.mpr all]

/-- A run of digits is one token. -/
theorem first?_of_isDigit {cs : List Char} (nonempty : cs ≠ [])
    (all : ∀ c ∈ cs, c.isDigit = true) : first? cs = some (.integer, cs.length) := by
  have count := digitsLength_of_isDigit all
  obtain ⟨c, cs, rfl⟩ := List.exists_cons_of_ne_nil nonempty
  have digit : c.isDigit = true := all c (by simp)
  -- Only digits can stand in front, so no kind that is tried earlier matches.
  have apart : ∀ d : Char, d.isDigit = false → c ≠ d := by
    rintro d other rfl
    rw [digit] at other
    cases other
  have whole : integer.matchLength (c :: cs) = (c :: cs).length := by
    rw [matchLength_integer, if_neg (apart '-' (by decide)), count]
  rw [← whole]
  refine first?_of_integer (apart '(' (by decide)) (apart ')' (by decide))
    (isBlank_eq_false_of_isDigit digit) ?_
  rw [whole]
  exact Nat.succ_ne_zero _

/-- A run of digits with a sign is one token. -/
theorem first?_minus {cs : List Char} (nonempty : cs ≠ [])
    (all : ∀ c ∈ cs, c.isDigit = true) : first? ('-' :: cs) = some (.integer, cs.length + 1) := by
  have some : cs.length ≠ 0 := fun none => nonempty (List.length_eq_zero_iff.mp none)
  have whole : integer.matchLength ('-' :: cs) = cs.length + 1 := by
    rw [matchLength_integer, if_pos rfl, digitsLength_of_isDigit all, if_neg some]
  rw [← whole]
  refine first?_of_integer (by decide) (by decide) (by decide) ?_
  rw [whole]
  exact Nat.succ_ne_zero _

/-- A written integer is one token. -/
theorem first?_digits (n : Int) :
    first? (Numeral.digits n) = some (.integer, (Numeral.digits n).length) := by
  have all := Numeral.isDigit_toDigits n.natAbs
  unfold Numeral.digits
  split
  · exact first?_minus Nat.toDigits_ne_nil all
  · exact first?_of_isDigit Nat.toDigits_ne_nil all

end TokenKind

/-- A written integer is read back, padding or none. -/
theorem Numeral.ofText?_digits {n : Int} (short : n.natAbs < 10 ^ digitLimit) :
    ofText? (String.ofList (digits n)) = some n := by
  have clear : ∀ c ∈ digits n, isPadding c = false := by
    intro c member
    have visible : Text.isBlank c = false := by
      rcases isDigit_or_sign_of_mem_digits member with digit | rfl
      · exact isBlank_eq_false_of_isDigit digit
      · decide
    rw [isPadding, visible, Bool.false_and]
  rw [ofText?, String.toList_ofList, Text.strip_eq_self clear, read?_digits short]

/-! ### Atoms of a text are written as single tokens -/

/-- The text of the token is cut as this one token. -/
def Token.IsWhole (t : Token) : Prop :=
  TokenKind.first? t.text.toList = some (t.kind, t.text.toList.length)

instance (t : Token) : Decidable t.IsWhole :=
  inferInstanceAs (Decidable (_ = _))

namespace Value

/-- Source text of the value is a single token that stands for it. -/
def IsLiteral (v : Value) : Prop :=
  ∃ t : Token, v.source? = some t.text ∧ t.IsWhole ∧ t.role = .atom v

/-- All atoms within the value are literals. -/
def IsReadable (v : Value) : Prop :=
  ∀ a, .atom a ∈ v.spelling → a.IsLiteral

theorem isLiteral_int {n : Int} (short : n.natAbs < 10 ^ Numeral.digitLimit) :
    (Value.int n).IsLiteral := by
  refine ⟨⟨.integer, String.ofList (Numeral.digits n), 0⟩, ?_, ?_, ?_⟩
  · rw [source?, Numeral.write?_of_lt short]
  · rw [Token.IsWhole, String.toList_ofList]
    exact TokenKind.first?_digits n
  · simp only [Token.role, Numeral.ofText?_digits short]

theorem isLiteral_bool (b : Bool) : (Value.bool b).IsLiteral := by
  cases b with
  | false => exact ⟨⟨.boolean, "false", 0⟩, rfl, by decide, rfl⟩
  | true => exact ⟨⟨.boolean, "true", 0⟩, rfl, by decide, rfl⟩

theorem isLiteral_nil : Value.nil.IsLiteral :=
  ⟨⟨.nil, "nil", 0⟩, rfl, by decide, rfl⟩

end Value

/-- A keyword token begins with a colon. -/
theorem text_of_keyword {t : Token} (whole : t.IsWhole) (kind : t.kind = .keyword) :
    ":" ++ String.ofList (t.text.toList.drop 1) = t.text := by
  have length := TokenKind.eq_matchLength_of_firstOf whole
  obtain ⟨c, cs, shape⟩ := List.exists_cons_of_ne_nil (TokenKind.ne_nil_of_first? whole)
  rw [kind, shape, TokenKind.matchLength_keyword] at length
  have colon : c = ':' := by
    by_cases same : c = ':'
    · exact same
    · rw [if_neg same] at length
      cases length
  apply String.toList_inj.mp
  simp [shape, colon]

/-- What a single token of a text stands for is a literal. A numeral may be written in
another way than the token was, all else is written as it stood there. -/
theorem isLiteral_of_role {t : Token} (whole : t.IsWhole) {v : Value} (role : t.role = .atom v) :
    v.IsLiteral := by
  cases kind : t.kind with
  | integer =>
    simp only [Token.role, kind] at role
    split at role
    · rename_i n read
      cases role
      exact Value.isLiteral_int (Numeral.ofText?_natAbs_lt read)
    · cases role
  | boolean =>
    simp only [Token.role, kind, TokenRole.atom.injEq] at role
    rw [← role]
    exact Value.isLiteral_bool _
  | nil =>
    simp only [Token.role, kind, TokenRole.atom.injEq] at role
    rw [← role]
    exact Value.isLiteral_nil
  | keyword =>
    refine ⟨t, ?_, whole, role⟩
    simp only [Token.role, kind, TokenRole.atom.injEq] at role
    rw [← role, Value.source?, text_of_keyword whole kind]
  | symbol =>
    refine ⟨t, ?_, whole, role⟩
    simp only [Token.role, kind, TokenRole.atom.injEq] at role
    rw [← role, Value.source?]
  | opening | closing | blank | other => simp [Token.role, kind] at role

theorem exists_token_of_mem_rolesOf {ts : List Token} {role : TokenRole}
    (member : role ∈ rolesOf ts) : ∃ t ∈ ts, t.role = role := by
  induction ts with
  | nil => cases member
  | cons t ts ih =>
    rw [rolesOf] at member
    split at member
    · obtain ⟨t', later, same⟩ := ih member
      exact ⟨t', List.mem_cons_of_mem t later, same⟩
    · rcases List.mem_cons.mp member with rfl | member
      · exact ⟨t, List.mem_cons_self, rfl⟩
      · obtain ⟨t', later, same⟩ := ih member
        exact ⟨t', List.mem_cons_of_mem t later, same⟩

theorem exists_isWhole_of_mem_rolesOf {offset : Nat} {cs : List Char} {role : TokenRole}
    (member : role ∈ rolesOf (Lexing.ofChars offset cs).tokens) :
    ∃ t : Token, t.IsWhole ∧ t.role = role := by
  obtain ⟨t, cut, same⟩ := exists_token_of_mem_rolesOf member
  exact ⟨t, Lexing.first?_of_mem_tokens cut, same⟩

/-- Values that the tokens of a text spell are readable. -/
theorem isReadable_of_spelled {offset : Nat} {cs : List Char} {vs : List Value}
    (spelled : rolesOf (Lexing.ofChars offset cs).tokens = vs.flatMap Value.spelling) :
    ∀ v ∈ vs, v.IsReadable := by
  intro v member a inside
  have among : .atom a ∈ rolesOf (Lexing.ofChars offset cs).tokens := by
    rw [spelled]
    exact List.mem_flatMap_of_mem member inside
  obtain ⟨t, whole, role⟩ := exists_isWhole_of_mem_rolesOf among
  exact isLiteral_of_role whole role

/-! ### Texts and their roles -/

/-- The text can be cut to its end, and its tokens, blank ones aside, have these
roles. -/
def HasRoles (cs : List Char) (roles : List TokenRole) : Prop :=
  ∀ offset, (Lexing.ofChars offset cs).stuck = none ∧
    rolesOf (Lexing.ofChars offset cs).tokens = roles

/-- In front of a text that stops symbols, the text adds these roles. -/
def AddsRoles (cs : List Char) (roles : List TokenRole) : Prop :=
  ∀ rest more, StopsSymbol rest → HasRoles rest more → HasRoles (cs ++ rest) (roles ++ more)

/-- The text begins with a character that is not blank. -/
def BeginsVisibly (cs : List Char) : Prop :=
  ∃ c rest, cs = c :: rest ∧ Text.isBlank c = false

theorem hasRoles_nil : HasRoles [] [] := by
  intro offset
  rw [Lexing.ofChars_nil]
  exact ⟨rfl, rfl⟩

/-- A text that begins with a token has its role in front of those that follow. -/
theorem hasRoles_token (t : Token) {rest : List Char} {more : List TokenRole}
    (found : TokenKind.first? (t.text.toList ++ rest) = some (t.kind, t.text.toList.length))
    (later : HasRoles rest more) : HasRoles (t.text.toList ++ rest) (rolesOf [t] ++ more) := by
  intro offset
  obtain ⟨toEnd, roles⟩ := later (offset + t.text.toList.length)
  rw [Lexing.ofChars_of_first? found, List.take_left, List.drop_left, String.ofList_toList]
  refine ⟨toEnd, ?_⟩
  rw [rolesOf_cons, roles]
  rfl

theorem addsRoles_nil : AddsRoles [] [] := fun _ _ _ later => later

/-- A token that is not blank adds its role. -/
theorem addsRoles_of_isWhole {t : Token} (whole : t.IsWhole) (visible : t.role ≠ .blank) :
    AddsRoles t.text.toList [t.role] := by
  intro rest more stops later
  have solid : t.kind ≠ .blank := fun blank => visible (role_of_blank blank)
  rw [← rolesOf_singleton visible]
  exact hasRoles_token t (TokenKind.first?_append whole solid stops) later

/-- Blanks that keep texts apart: a symbol in front of them ends there. -/
structure IsGap (gap : List Char) : Prop where
  nonempty : gap ≠ []
  blank : ∀ c ∈ gap, Text.isBlank c = true
  stops : StopsSymbol gap

theorem isGap_space : IsGap " ".toList :=
  ⟨List.cons_ne_nil ' ' [], List.forall_mem_singleton.mpr (by decide),
    stopsSymbol_cons (by decide) []⟩

theorem IsGap.stops_append {gap : List Char} (apart : IsGap gap) (rest : List Char) :
    StopsSymbol (gap ++ rest) := by
  obtain ⟨c, cs, rfl⟩ := List.exists_cons_of_ne_nil apart.nonempty
  exact stopsSymbol_cons (apart.stops c rfl) (cs ++ rest)

/-- A gap has no part in what stands behind it. -/
theorem hasRoles_gap {gap rest : List Char} {roles : List TokenRole} (apart : IsGap gap)
    (visible : ∀ c ∈ rest.head?, Text.isBlank c = false) (later : HasRoles rest roles) :
    HasRoles (gap ++ rest) roles := by
  -- No blank follows the gap, so it is a token of its own and takes nothing with it.
  have found := TokenKind.first?_blanks apart.nonempty apart.blank visible
  have passed := hasRoles_token ⟨.blank, String.ofList gap, 0⟩
    (by rwa [String.toList_ofList]) later
  rwa [String.toList_ofList] at passed

theorem BeginsVisibly.head {cs : List Char} (visible : BeginsVisibly cs) (rest : List Char) :
    ∀ c ∈ (cs ++ rest).head?, Text.isBlank c = false := by
  obtain ⟨c, cs, rfl, solid⟩ := visible
  rintro d ⟨⟩
  exact solid

/-- Texts with a gap between them add their roles one after the other. -/
theorem addsRoles_apart {cs gap ds : List Char} {roles more : List TokenRole}
    (front : AddsRoles cs roles) (apart : IsGap gap) (back : AddsRoles ds more)
    (visible : BeginsVisibly ds) : AddsRoles (cs ++ (gap ++ ds)) (roles ++ more) := by
  intro rest after stops later
  have behind : HasRoles (gap ++ (ds ++ rest)) (more ++ after) :=
    hasRoles_gap apart (visible.head rest) (back rest after stops later)
  simpa only [List.append_assoc] using front _ _ (apart.stops_append _) behind

/-- A text in parentheses adds the roles of a list. -/
theorem addsRoles_enclosed {cs : List Char} {roles : List TokenRole} (inner : AddsRoles cs roles) :
    AddsRoles ('(' :: (cs ++ [')'])) (.opening :: (roles ++ [.closing])) := by
  intro rest more _ later
  have closed : HasRoles (')' :: rest) (.closing :: more) :=
    hasRoles_token ⟨.closing, ")", 0⟩ (TokenKind.first?_closing rest) later
  have inside : HasRoles (cs ++ ')' :: rest) (roles ++ .closing :: more) :=
    inner _ _ (stopsSymbol_cons (by decide) rest) closed
  have opened :
      HasRoles ('(' :: (cs ++ ')' :: rest)) (.opening :: (roles ++ .closing :: more)) :=
    hasRoles_token ⟨.opening, "(", 0⟩ (TokenKind.first?_opening _) inside
  simpa using opened

/-! ### Source text of readable values -/

namespace Value

/-- The text shows where it begins, and adds the roles that spell the value. -/
structure SpelledBy (v : Value) (text : String) : Prop where
  visible : BeginsVisibly text.toList
  adds : AddsRoles text.toList v.spelling

/-- Texts of values with gaps between them add the roles of all of them. -/
theorem addsRoles_intercalate {gap : String} (apart : IsGap gap.toList) {vs : List Value}
    {texts : List String} (each : List.Forall₂ SpelledBy vs texts) :
    AddsRoles (gap.intercalate texts).toList (vs.flatMap spelling) ∧
      (vs ≠ [] → BeginsVisibly (gap.intercalate texts).toList) := by
  induction each with
  | nil => exact ⟨addsRoles_nil, fun nonempty => absurd rfl nonempty⟩
  | @cons v text vs texts spelled others ih =>
    by_cases last : texts = []
    · subst last
      cases others
      simpa using ⟨spelled.adds, spelled.visible⟩
    · have nonempty : vs ≠ [] := by
        rintro rfl
        cases others
        exact last rfl
      obtain ⟨adds, visible⟩ := ih
      obtain ⟨c, cs, shape, solid⟩ := spelled.visible
      rw [String.intercalate_cons_of_ne_nil last, String.append_assoc, String.toList_append,
        String.toList_append, List.flatMap_cons]
      refine ⟨addsRoles_apart spelled.adds apart adds (visible nonempty), fun _ => ?_⟩
      exact ⟨c, _, by rw [shape, List.cons_append], solid⟩

/-- The value has this source text, and the text adds the roles that spell the value. -/
structure Prints (v : Value) (text : String) : Prop where
  source : v.source? = some text
  visible : BeginsVisibly text.toList
  adds : AddsRoles text.toList v.spelling

theorem prints_of_isLiteral {v : Value} (atom : v.IsAtom) (literal : v.IsLiteral) :
    ∃ text, v.Prints text := by
  obtain ⟨t, source, whole, role⟩ := literal
  have shown : t.role ≠ .blank := by simp [role]
  refine ⟨t.text, source, ?_, ?_⟩
  · obtain ⟨c, cs, shape⟩ := List.exists_cons_of_ne_nil (TokenKind.ne_nil_of_first? whole)
    have solid : t.kind ≠ .blank := fun blank => shown (role_of_blank blank)
    refine ⟨c, cs, shape, TokenKind.isBlank_head_eq_false whole solid c ?_⟩
    rw [shape]
    rfl
  · rw [spelling_of_isAtom atom, ← role]
    exact addsRoles_of_isWhole whole shown

/-- Texts of values, joined by spaces, add the roles of all of them. -/
theorem joined_texts {vs : List Value} (each : ∀ v ∈ vs, ∃ text, v.Prints text) :
    ∃ texts, sourceItems? vs = some texts ∧
      AddsRoles (" ".intercalate texts).toList (vs.flatMap spelling) := by
  have spelled : ∃ texts, sourceItems? vs = some texts ∧ List.Forall₂ SpelledBy vs texts := by
    induction vs with
    | nil => exact ⟨[], rfl, .nil⟩
    | cons v vs ih =>
      obtain ⟨text, prints⟩ := each v (by simp)
      obtain ⟨texts, sources, others⟩ := ih fun w member => each w (by simp [member])
      refine ⟨text :: texts, ?_, .cons ⟨prints.visible, prints.adds⟩ others⟩
      simp [sourceItems?, prints.source, sources]
  obtain ⟨texts, sources, spelled⟩ := spelled
  exact ⟨texts, sources, (addsRoles_intercalate isGap_space spelled).1⟩

theorem isReadable_item {items : List Value} (readable : (Value.list items).IsReadable)
    {v : Value} (member : v ∈ items) : v.IsReadable := by
  intro a inside
  exact readable a (mem_spelling_list_iff.mpr ⟨v, member, inside⟩)

theorem isReadable_list {items : List Value} (each : ∀ v ∈ items, v.IsReadable) :
    (list items).IsReadable := by
  intro a inside
  obtain ⟨v, member, inside⟩ := mem_spelling_list_iff.mp inside
  exact each v member a inside

theorem isReadable_of_isAtom {v : Value} (atom : v.IsAtom) (literal : v.IsLiteral) :
    v.IsReadable := by
  intro a inside
  rw [spelling_of_isAtom atom, List.mem_singleton, TokenRole.atom.injEq] at inside
  exact inside ▸ literal

/-- A readable value has source text, and the text spells it. -/
theorem prints_of_isReadable {v : Value} (readable : v.IsReadable) : ∃ text, v.Prints text := by
  induction v using Value.listInduction with
  | atom v atom =>
    have literal : v.IsLiteral := readable v (by simp [spelling_of_isAtom atom])
    exact prints_of_isLiteral atom literal
  | list items each =>
    obtain ⟨texts, sources, adds⟩ :=
      joined_texts fun v member => each v member (isReadable_item readable member)
    refine ⟨"(" ++ " ".intercalate texts ++ ")", ?_, ⟨'(', _, by simp; rfl, by decide⟩, ?_⟩
    · simp [source?, sources]
    · rw [spelling_list]
      simpa using addsRoles_enclosed adds

end Value

/-! ### Reading, writing and reading again -/

/-- A text is read as these forms if it can be cut to its end and they are read from its
tokens. -/
theorem parseAll_eq_ok_iff {source : String} {forms : List Value} :
    parseAll source = .ok forms ↔ (Lexing.ofChars 0 source.toList).stuck = none ∧
      readAll (Lexing.ofChars 0 source.toList).tokens = .ok forms := by
  rw [parseAll, tokenize, Lexing.error?, Lexing.ofSource]
  generalize Lexing.ofChars 0 source.toList = lexing
  obtain ⟨tokens, stuck⟩ := lexing
  cases stuck with
  | some place => simp
  | none =>
    cases outcome : readAll tokens <;> simp [outcome, Except.mapError]

/-- The text that spells a value has the roles of the value and no others. -/
theorem Value.SpelledBy.hasRoles {v : Value} {text : String} (spelled : v.SpelledBy text) :
    HasRoles text.toList v.spelling := by
  simpa using spelled.adds [] [] stopsSymbol_nil hasRoles_nil

/-- A text that spells a value is read as that value alone. -/
theorem Value.SpelledBy.parseAll_eq_ok {v : Value} {text : String} (spelled : v.SpelledBy text)
    (nests : v.nesting ≤ nestingLimit) : parseAll text = .ok [v] := by
  obtain ⟨toEnd, roles⟩ := spelled.hasRoles 0
  refine parseAll_eq_ok_iff.mpr ⟨toEnd, readAll_of_spelled ?_ ?_⟩
  · simpa using roles
  · simpa using nests

/-- The first of all forms of a text is the one that is read alone. -/
theorem parse_of_parseAll {source : String} {v : Value} {vs : List Value}
    (read : parseAll source = .ok (v :: vs)) : parse source = .ok v := by
  unfold parseAll at read
  split at read
  · cases read
  · rename_i tokens cut
    cases outcome : readAll tokens with
    | error failure =>
      rw [outcome] at read
      cases read
    | ok forms =>
      rw [outcome] at read
      cases read
      rw [parse, cut]
      dsimp only
      rw [readForm_of_readAll outcome]
      rfl

/-- Forms read from a text have source texts, and these, joined by spaces, are read as
the same forms. -/
theorem source_of_forms_reads_back {source : String} {forms : List Value}
    (read : parseAll source = .ok forms) :
    ∃ texts, Value.sourceItems? forms = some texts ∧
      parseAll (" ".intercalate texts) = .ok forms := by
  obtain ⟨_, readTokens⟩ := parseAll_eq_ok_iff.mp read
  obtain ⟨spelled, within⟩ := spelled_of_readAll readTokens
  obtain ⟨texts, sources, adds⟩ := Value.joined_texts fun v member =>
    Value.prints_of_isReadable (isReadable_of_spelled spelled v member)
  have whole := adds [] [] stopsSymbol_nil hasRoles_nil 0
  rw [List.append_nil, List.append_nil] at whole
  refine ⟨texts, sources, parseAll_eq_ok_iff.mpr ⟨whole.1, ?_⟩⟩
  exact readAll_of_spelled whole.2 within

/-- Tokens that touch each other stand apart when they are written again. -/
theorem touching_tokens_read_back :
    ∃ forms, parseAll "(-1x)nil?" = .ok forms ∧
      forms = [.list [.int (-1), .symbol "x"], .nil, .symbol "?"] ∧
      ∃ texts, Value.sourceItems? forms = some texts ∧
        parseAll (" ".intercalate texts) = .ok forms := by
  have read : parseAll "(-1x)nil?" =
      .ok [.list [.int (-1), .symbol "x"], .nil, .symbol "?"] := by cbv
  exact ⟨_, read, rfl, source_of_forms_reads_back read⟩

end ContextLisp
