/-
# What a token of each kind looks like

A text that is cut as one token tells its kind by its looks: a parenthesis is itself, a
boolean and nil are the words for them, an integer is a run of digits that may have a sign,
a keyword is a colon and a symbol.

A symbol is a run of the characters of symbols that begins with one of those that can begin
it. Not every such run is a token. A kind that is tried earlier takes a part of it if it
begins with the word for a boolean or for nil, or with a sign and a digit. Behind the colon of
a keyword nothing is tried earlier, so there every such run will do.
-/

import ContextLisp.Proofs.Reading.RoundTrip

namespace ContextLisp

/-! ### Characters of symbols -/

/-- The codes of the characters that can begin a symbol. -/
theorem toNat_of_isSymbolStart {c : Char} (start : isSymbolStart c = true) :
    (65 ≤ c.toNat ∧ c.toNat ≤ 90) ∨ (97 ≤ c.toNat ∧ c.toNat ≤ 122) ∨ c.toNat = 33 ∨
      c.toNat = 42 ∨ c.toNat = 43 ∨ c.toNat = 45 ∨ c.toNat = 47 ∨ c.toNat = 60 ∨
      c.toNat = 61 ∨ c.toNat = 62 ∨ c.toNat = 63 ∨ c.toNat = 95 := by
  simp only [isSymbolStart, Char.isAlpha, Char.isUpper, Char.isLower, Bool.or_eq_true,
    Bool.and_eq_true, decide_eq_true_eq, ge_iff_le, UInt32.le_iff_toNat_le, Char.toNat_val,
    Char.reduceToNat, List.contains_eq_mem, List.mem_cons, List.not_mem_nil, or_false,
    Char.ext_iff, ← UInt32.toNat_inj] at start
  omega

theorem isBlank_eq_false_of_isSymbolStart {c : Char} (start : isSymbolStart c = true) :
    Text.isBlank c = false := by
  have code := toNat_of_isSymbolStart start
  apply Bool.eq_false_iff.mpr
  intro blank
  simp only [Text.isBlank, Text.isSeparator, Bool.or_eq_true, Bool.and_eq_true, beq_iff_eq,
    decide_eq_true_eq, Char.ext_iff, ← UInt32.toNat_inj, UInt32.le_iff_toNat_le,
    Char.toNat_val, Char.reduceToNat, UInt32.reduceToNat] at blank
  omega

theorem isDigit_eq_false_of_isSymbolStart {c : Char} (start : isSymbolStart c = true) :
    c.isDigit = false := by
  have code := toNat_of_isSymbolStart start
  apply Bool.eq_false_iff.mpr
  intro digit
  simp only [Char.isDigit, Bool.and_eq_true, decide_eq_true_eq, ge_iff_le,
    UInt32.le_iff_toNat_le, Char.toNat_val, Char.reduceToNat] at digit
  omega

theorem ne_of_isSymbolStart {c d : Char} (start : isSymbolStart c = true)
    (other : isSymbolStart d = false) : c ≠ d := by
  rintro rfl
  rw [start] at other
  cases other

/-! ### Names -/

/-- The text is a character that can begin a symbol and characters that can continue it. -/
def IsSymbolText (cs : List Char) : Prop :=
  ∃ c rest, cs = c :: rest ∧ isSymbolStart c = true ∧ ∀ d ∈ rest, isSymbolPart d = true

theorem IsSymbolText.ne_nil {cs : List Char} (shaped : IsSymbolText cs) : cs ≠ [] := by
  obtain ⟨c, rest, rfl, _⟩ := shaped
  exact List.cons_ne_nil c rest

/-- The text has the shape of a symbol and begins neither with a word of its own kind nor with
a number. -/
structure IsReadableSymbol (cs : List Char) : Prop where
  shaped : IsSymbolText cs
  notTrue : ¬ ['t', 'r', 'u', 'e'] <+: cs
  notFalse : ¬ ['f', 'a', 'l', 's', 'e'] <+: cs
  notNil : ¬ ['n', 'i', 'l'] <+: cs
  notNumber : ∀ d rest, cs = '-' :: d :: rest → d.isDigit = false

namespace TokenKind

theorem length_takeWhile_eq_length_iff {cls : Char → Bool} {cs : List Char} :
    (cs.takeWhile cls).length = cs.length ↔ ∀ c ∈ cs, cls c = true := by
  rw [← List.takeWhile_eq_self_iff]
  exact ⟨(List.takeWhile_sublist _).eq_of_length, congrArg List.length⟩

theorem symbolLength_eq_length_iff {cs : List Char} (nonempty : cs ≠ []) :
    symbolLength cs = cs.length ↔ IsSymbolText cs := by
  obtain ⟨c, cs, rfl⟩ := List.exists_cons_of_ne_nil nonempty
  rw [symbolLength]
  split
  · rename_i start
    rw [List.length_cons, Nat.add_right_cancel_iff, length_takeWhile_eq_length_iff]
    constructor
    · intro all
      exact ⟨c, cs, rfl, start, all⟩
    · rintro ⟨_, _, shape, _, all⟩
      exact (List.cons.inj shape).2 ▸ all
  · rename_i notStart
    constructor
    · intro empty
      simp at empty
    · rintro ⟨d, _, shape, start, _⟩
      rw [(List.cons.inj shape).1] at notStart
      exact absurd start notStart

theorem wordLength_eq_zero_iff {word cs : List Char} (nonempty : word ≠ []) :
    wordLength word cs = 0 ↔ ¬ word <+: cs := by
  rw [wordLength, ← List.isPrefixOf_iff_prefix]
  split
  · rename_i found
    simp [found, nonempty]
  · rename_i missing
    simp [missing]

/-- A word that is as long as the text it is found in front of is that text. -/
theorem eq_of_wordLength {word cs : List Char} (found : wordLength word cs ≠ 0)
    (whole : wordLength word cs = cs.length) : cs = word := by
  rw [wordLength] at found whole
  split at whole
  · rename_i front
    exact ((List.isPrefixOf_iff_prefix.mp front).eq_of_length whole).symm
  · rename_i missing
    rw [if_neg missing] at found
    exact absurd rfl found

/-! ### What each kind describes -/

/-- The texts that a token of each kind can have. -/
def Describes : TokenKind → List Char → Prop
  | .opening, cs => cs = ['(']
  | .closing, cs => cs = [')']
  | .blank, cs => cs ≠ [] ∧ ∀ c ∈ cs, Text.isBlank c = true
  | .integer, cs => ∃ digits : List Char, digits ≠ [] ∧ (∀ c ∈ digits, c.isDigit = true) ∧
      (cs = digits ∨ cs = '-' :: digits)
  | .boolean, cs => cs = "true".toList ∨ cs = "false".toList
  | .nil, cs => cs = "nil".toList
  | .keyword, cs => ∃ name, cs = ':' :: name ∧ IsSymbolText name
  | .symbol, cs => IsSymbolText cs
  | .other _, _ => False

/-- No kind describes the empty text. -/
theorem Describes.ne_nil {kind : TokenKind} {cs : List Char} (described : kind.Describes cs) :
    cs ≠ [] := by
  rintro rfl
  cases kind <;> simp [Describes, IsSymbolText] at described

theorem wordLength_eq_length_iff {word cs : List Char} (nonempty : cs ≠ []) :
    wordLength word cs = cs.length ↔ cs = word := by
  constructor
  · intro whole
    have some : cs.length ≠ 0 := fun empty => nonempty (List.length_eq_zero_iff.mp empty)
    exact eq_of_wordLength (whole ▸ some) whole
  · rintro rfl
    simp [wordLength]

/-- A mark counts only with something behind it that matches. -/
theorem marked_length_iff {n m : Nat} :
    (if n = 0 then 0 else n + 1) = m + 1 ↔ m ≠ 0 ∧ n = m := by
  split <;> omega

theorem describes_integer_iff {cs : List Char} (nonempty : cs ≠ []) :
    integer.Describes cs ↔ integer.matchLength cs = cs.length := by
  obtain ⟨c, rest, rfl⟩ := List.exists_cons_of_ne_nil nonempty
  have run : ∀ {ds : List Char}, digitsLength ds = ds.length ↔ ∀ d ∈ ds, d.isDigit = true :=
    length_takeWhile_eq_length_iff
  rw [Describes, matchLength_integer]
  split
  · rename_i sign
    subst sign
    rw [List.length_cons, marked_length_iff, run, ne_eq, List.length_eq_zero_iff]
    constructor
    · rintro ⟨digits, some, all, unsigned | signed⟩
      · exact absurd (all '-' (unsigned ▸ List.mem_cons_self)) (by decide)
      · exact (List.cons.inj signed).2 ▸ ⟨some, all⟩
    · rintro ⟨some, all⟩
      exact ⟨rest, some, all, .inr rfl⟩
  · rename_i unsigned
    rw [run]
    constructor
    · rintro ⟨digits, _, all, whole | signed⟩
      · exact whole ▸ all
      · exact absurd (List.cons.inj signed).1 unsigned
    · intro all
      exact ⟨c :: rest, nonempty, all, .inl rfl⟩

theorem describes_keyword_iff {cs : List Char} (nonempty : cs ≠ []) :
    keyword.Describes cs ↔ keyword.matchLength cs = cs.length := by
  obtain ⟨c, rest, rfl⟩ := List.exists_cons_of_ne_nil nonempty
  rw [Describes, matchLength_keyword]
  split
  · rename_i colon
    subst colon
    rw [List.length_cons, marked_length_iff, ne_eq, List.length_eq_zero_iff]
    constructor
    · rintro ⟨name, whole, shaped⟩
      obtain rfl := (List.cons.inj whole).2
      exact ⟨shaped.ne_nil, (symbolLength_eq_length_iff shaped.ne_nil).mpr shaped⟩
    · rintro ⟨some, length⟩
      exact ⟨rest, rfl, (symbolLength_eq_length_iff some).mp length⟩
  · rename_i other
    simp [other]

/-- A kind describes a text exactly if it matches all of it. -/
theorem describes_iff {kind : TokenKind} {cs : List Char} (nonempty : cs ≠ []) :
    kind.Describes cs ↔ kind.matchLength cs = cs.length := by
  have mark : ∀ {mark c : Char} {rest : List Char},
      c :: rest = [mark] ↔ (if c = mark then 1 else 0) = (c :: rest).length := by
    intro mark c rest
    rw [List.length_cons, List.cons.injEq, ← List.length_eq_zero_iff]
    split <;> simp_all
  cases kind with
  | opening =>
    obtain ⟨c, rest, rfl⟩ := List.exists_cons_of_ne_nil nonempty
    rw [Describes, matchLength_opening, mark]
  | closing =>
    obtain ⟨c, rest, rfl⟩ := List.exists_cons_of_ne_nil nonempty
    rw [Describes, matchLength_closing, mark]
  | blank =>
    rw [Describes, matchLength_blank, length_takeWhile_eq_length_iff]
    exact and_iff_right nonempty
  | integer => exact describes_integer_iff nonempty
  | boolean =>
    have isTrue := @wordLength_le_length "true".toList cs
    have isFalse := @wordLength_le_length "false".toList cs
    rw [Describes, matchLength_boolean, ← wordLength_eq_length_iff nonempty,
      ← wordLength_eq_length_iff nonempty]
    change _ ↔ max (wordLength "true".toList cs) (wordLength "false".toList cs) = cs.length
    omega
  | nil => exact (wordLength_eq_length_iff nonempty).symm
  | keyword => exact describes_keyword_iff nonempty
  | symbol => rw [Describes, matchLength_symbol, symbolLength_eq_length_iff nonempty]
  | other =>
    have some : cs.length ≠ 0 := fun empty => nonempty (List.length_eq_zero_iff.mp empty)
    simp [Describes, matchLength, some.symm]

/-! ### Readable symbols and keywords -/

/-- A kind is the first to match if it matches and no kind before it does. -/
theorem firstOf_eq_some_iff {cs : List Char} {before after : List TokenKind} {kind : TokenKind}
    {n : Nat} (new : kind ∉ before) :
    firstOf cs (before ++ kind :: after) = some (kind, n) ↔
      (∀ k ∈ before, k.matchLength cs = 0) ∧ kind.matchLength cs = n ∧ n ≠ 0 := by
  induction before with
  | nil =>
    rw [List.nil_append, firstOf]
    split
    · rename_i unmatched
      have never : firstOf cs after ≠ some (kind, n) := by
        intro found
        have length := eq_matchLength_of_firstOf found
        have positive := firstOf_pos found
        omega
      simp only [never, false_iff]
      rintro ⟨_, length, nonzero⟩
      omega
    · rename_i matched
      simp only [Option.some.injEq, Prod.mk.injEq, true_and, List.not_mem_nil, false_implies,
        implies_true]
      constructor
      · rintro rfl
        exact ⟨rfl, matched⟩
      · rintro ⟨length, _⟩
        exact length
  | cons k before ih =>
    rw [List.cons_append, firstOf]
    have apart : k ≠ kind := fun same => new (same ▸ List.mem_cons_self)
    split
    · rename_i unmatched
      rw [ih fun member => new (List.mem_cons_of_mem k member), List.forall_mem_cons]
      simp only [unmatched, true_and]
    · rename_i matched
      simp [apart, matched]

/-- The kinds that are tried before symbols match nothing in front of a readable symbol, and
at least one of them matches in front of every other text in the shape of a symbol. -/
theorem unmatched_iff_isReadableSymbol {cs : List Char} (shaped : IsSymbolText cs) :
    (∀ kind ∈ [opening, closing, blank, integer, boolean, nil, keyword],
      kind.matchLength cs = 0) ↔ IsReadableSymbol cs := by
  obtain ⟨c, rest, rfl, start, parts⟩ := shaped
  have notOpening : c ≠ '(' := ne_of_isSymbolStart start (by decide)
  have notClosing : c ≠ ')' := ne_of_isSymbolStart start (by decide)
  have notColon : c ≠ ':' := ne_of_isSymbolStart start (by decide)
  have visible := isBlank_eq_false_of_isSymbolStart start
  have noDigit := isDigit_eq_false_of_isSymbolStart start
  have number : integer.matchLength (c :: rest) = 0 ↔
      ∀ d tail, c :: rest = '-' :: d :: tail → d.isDigit = false := by
    rw [matchLength_integer]
    split
    · rename_i sign
      subst sign
      cases rest with
      | nil => simp [digitsLength]
      | cons e tail => by_cases digit : e.isDigit <;> simp [digitsLength, digit]
    · rename_i unsigned
      simp [digitsLength, noDigit, unsigned]
  simp only [List.forall_mem_cons, List.not_mem_nil, false_implies, implies_true, and_true,
    matchLength_opening, if_neg notOpening, matchLength_closing, if_neg notClosing,
    matchLength_blank, List.takeWhile_cons, visible, Bool.false_eq_true, if_false,
    List.length_nil, number, matchLength_boolean, matchLength_nil, matchLength_keyword,
    if_neg notColon, Nat.max_eq_zero_iff, true_and]
  rw [wordLength_eq_zero_iff (by simp), wordLength_eq_zero_iff (by simp),
    wordLength_eq_zero_iff (by simp)]
  constructor
  · rintro ⟨notNumber, ⟨notTrue, notFalse⟩, notNil⟩
    exact ⟨⟨c, rest, rfl, start, parts⟩, notTrue, notFalse, notNil, notNumber⟩
  · rintro ⟨_, notTrue, notFalse, notNil, notNumber⟩
    exact ⟨notNumber, ⟨notTrue, notFalse⟩, notNil⟩

/-- Readable symbols are the texts that are cut as one symbol. -/
theorem first?_symbol_iff {cs : List Char} :
    first? cs = some (.symbol, cs.length) ↔ IsReadableSymbol cs := by
  have order : priority =
      [opening, closing, blank, integer, boolean, nil, keyword] ++ symbol :: [] := rfl
  rw [first?, order, firstOf_eq_some_iff (by decide), matchLength_symbol]
  constructor
  · rintro ⟨unmatched, length, nonzero⟩
    have nonempty : cs ≠ [] := fun empty => nonzero (by rw [empty, List.length_nil])
    exact (unmatched_iff_isReadableSymbol
      ((symbolLength_eq_length_iff nonempty).mp length)).mp unmatched
  · intro readable
    have nonempty : cs ≠ [] := readable.shaped.ne_nil
    exact ⟨(unmatched_iff_isReadableSymbol readable.shaped).mpr readable,
      (symbolLength_eq_length_iff nonempty).mpr readable.shaped,
      fun empty => nonempty (List.length_eq_zero_iff.mp empty)⟩

/-- Behind a colon every text in the shape of a symbol makes a keyword. -/
theorem first?_keyword_iff {cs : List Char} :
    first? (':' :: cs) = some (.keyword, cs.length + 1) ↔ IsSymbolText cs := by
  have order : priority =
      [opening, closing, blank, integer, boolean, nil] ++ keyword :: [symbol] := rfl
  have unmatched : ∀ kind ∈ [opening, closing, blank, integer, boolean, nil],
      kind.matchLength (':' :: cs) = 0 := by
    have colon : Text.isBlank ':' = false ∧ Char.isDigit ':' = false := by decide
    simp [matchLength_opening, matchLength_closing, matchLength_blank, matchLength_integer,
      matchLength_boolean, matchLength_nil, digitsLength, wordLength, colon]
  rw [first?, order, firstOf_eq_some_iff (by decide), matchLength_keyword, if_pos rfl]
  constructor
  · rintro ⟨_, length, _⟩
    split at length
    · cases length
    · rename_i some
      have nonempty : cs ≠ [] := fun empty => some (by rw [empty, symbolLength])
      exact (symbolLength_eq_length_iff nonempty).mp (Nat.add_right_cancel length)
  · intro shaped
    have nonempty : cs ≠ [] := shaped.ne_nil
    have length := (symbolLength_eq_length_iff nonempty).mpr shaped
    have some : symbolLength cs ≠ 0 := by
      rw [length]
      exact fun empty => nonempty (List.length_eq_zero_iff.mp empty)
    exact ⟨unmatched, by rw [if_neg some, length], Nat.succ_ne_zero _⟩

end TokenKind

/-! ### What single tokens stand for -/

/-- A token that stands for a value is of one of five kinds. -/
theorem atom_cases {t : Token} {v : Value} (role : t.role = .atom v) :
    (t.kind = .integer ∧ ∃ n, Numeral.ofText? t.text = some n ∧ v = .int n) ∨
    (t.kind = .boolean ∧ v = .bool (t.text == "true")) ∨
    (t.kind = .nil ∧ v = .nil) ∨
    (t.kind = .keyword ∧ v = .keyword (String.ofList (t.text.toList.drop 1))) ∨
    (t.kind = .symbol ∧ v = .symbol t.text) := by
  cases kind : t.kind with
  | integer =>
    simp only [Token.role, kind] at role
    split at role
    · rename_i n read
      cases role
      exact .inl ⟨rfl, n, read, rfl⟩
    · cases role
  | _ => simp_all [Token.role]

namespace Value

theorem isLiteral_symbol_iff (name : String) :
    (Value.symbol name).IsLiteral ↔ IsReadableSymbol name.toList := by
  rw [← TokenKind.first?_symbol_iff]
  constructor
  · rintro ⟨t, source, whole, role⟩
    cases source
    have kind : t.kind = .symbol := by simpa using atom_cases role
    rw [← kind]
    exact whole
  · intro whole
    exact ⟨⟨.symbol, name, 0⟩, rfl, whole, rfl⟩

theorem isLiteral_keyword_iff (name : String) :
    (Value.keyword name).IsLiteral ↔ IsSymbolText name.toList := by
  have text : (":" ++ name).toList = ':' :: name.toList := by simp
  rw [← TokenKind.first?_keyword_iff]
  constructor
  · rintro ⟨t, source, whole, role⟩
    have written : ":" ++ name = t.text := Option.some.inj source
    have kind : t.kind = .keyword := by
      obtain ⟨kind, _⟩ : t.kind = .keyword ∧ _ := by simpa using atom_cases role
      exact kind
    rw [Token.IsWhole, ← written, text, kind, List.length_cons] at whole
    exact whole
  · intro whole
    refine ⟨⟨.keyword, ":" ++ name, 0⟩, rfl, ?_, ?_⟩
    · rw [Token.IsWhole, text, List.length_cons]
      exact whole
    · simp [Token.role, text]

end Value

/-! ### The texts of single tokens -/

namespace Token

variable {t : Token}

/-- A single token looks as its kind says. -/
theorem describes (whole : t.IsWhole) : t.kind.Describes t.text.toList :=
  (TokenKind.describes_iff (TokenKind.ne_nil_of_first? whole)).mpr
    (TokenKind.eq_matchLength_of_firstOf whole).symm

theorem text_of_opening (whole : t.IsWhole) (kind : t.kind = .opening) : t.text = "(" := by
  have looks := describes whole
  rw [kind] at looks
  exact String.toList_inj.mp looks

theorem text_of_closing (whole : t.IsWhole) (kind : t.kind = .closing) : t.text = ")" := by
  have looks := describes whole
  rw [kind] at looks
  exact String.toList_inj.mp looks

theorem text_of_boolean (whole : t.IsWhole) (kind : t.kind = .boolean) :
    t.text = "true" ∨ t.text = "false" := by
  have looks := describes whole
  rw [kind] at looks
  exact looks.imp String.toList_inj.mp String.toList_inj.mp

theorem text_of_nil (whole : t.IsWhole) (kind : t.kind = .nil) : t.text = "nil" := by
  have looks := describes whole
  rw [kind] at looks
  exact String.toList_inj.mp looks

end Token

/-! ### Numerals that can be read -/

namespace Numeral

/-- A numeral token is read as the integer that it writes in base ten, if it is within the
limit. -/
theorem ofText?_of_isWhole {t : Token} (whole : t.IsWhole) (kind : t.kind = .integer) :
    ofText? t.text =
      if t.text.toList.countP Char.isDigit ≤ digitLimit then some (signedDecimal t.text.toList)
      else none := by
  have looks := Token.describes whole
  rw [kind] at looks
  obtain ⟨digits, nonempty, all, shape⟩ := looks
  have count : digits.countP Char.isDigit = digits.length := List.countP_eq_length.mpr all
  have clear : ∀ c ∈ t.text.toList, isPadding c = false := by
    intro c member
    have visible : Text.isBlank c = false := by
      rcases shape with shape | shape <;> rw [shape] at member
      · exact isBlank_eq_false_of_isDigit (all c member)
      · rcases List.mem_cons.mp member with rfl | member
        · decide
        · exact isBlank_eq_false_of_isDigit (all c member)
    rw [isPadding, visible, Bool.false_and]
  rw [ofText?, Text.strip_eq_self clear]
  rcases shape with shape | shape <;> rw [shape]
  · rw [read?_of_isDigit all, readNat?_of_isDigit nonempty all, count,
      signedDecimal_of_isDigit all]
    split <;> rfl
  · have sign : Char.isDigit '-' = false := by decide
    rw [List.countP_cons_of_neg (by simp [sign]), count, read?_minus,
      readNat?_of_isDigit nonempty all]
    split <;> rfl

end Numeral

end ContextLisp
