/-
# Tokens in other surroundings

What a kind of token matches at the front of a text is settled by the text up to the
first character that cannot continue a symbol. So a token can be taken out of its
text, and put in front of any text that does not go on with such a character, and it
will be cut again as the same single token. Blank runs are the exception: they go on
as long as blanks follow.

This is what remains of longest match under a fixed priority of kinds. `nil` in front
of `?` is a token and so is `?`, but the symbol `nil?` is no token at all.
-/

import ContextLisp.Token.Lexer

namespace ContextLisp

/-- The text does not go on with a character of symbols. -/
def StopsSymbol (cs : List Char) : Prop :=
  ∀ c ∈ cs.head?, isSymbolPart c = false

theorem stopsSymbol_nil : StopsSymbol [] := by
  intro c member
  cases member

theorem stopsSymbol_cons {c : Char} (stop : isSymbolPart c = false) (cs : List Char) :
    StopsSymbol (c :: cs) := by
  intro d member
  cases member
  exact stop

/-! ### Runs of a class of characters -/

/-- A run is not continued by a text whose first character is not of the class. -/
theorem takeWhile_append_of_stops {cls : Char → Bool} {rest : List Char}
    (stops : ∀ c ∈ rest.head?, cls c = false) (cs : List Char) :
    (cs ++ rest).takeWhile cls = cs.takeWhile cls := by
  induction cs with
  | nil =>
    cases rest with
    | nil => rfl
    | cons c rest => simp [stops c rfl]
  | cons c cs ih =>
    rw [List.cons_append, List.takeWhile_cons, List.takeWhile_cons, ih]

theorem length_takeWhile_take (cls : Char → Bool) (n : Nat) (cs : List Char) :
    ((cs.take n).takeWhile cls).length = min n (cs.takeWhile cls).length := by
  induction cs generalizing n with
  | nil => simp
  | cons c cs ih =>
    cases n with
    | zero => simp
    | succ n =>
      rw [List.take_succ_cons, List.takeWhile_cons, List.takeWhile_cons]
      split
      · simp only [List.length_cons, ih, Nat.add_min_add_right]
      · simp

/-- A character that cannot continue a symbol is no digit. -/
theorem isDigit_eq_false {c : Char} (stop : isSymbolPart c = false) : c.isDigit = false := by
  simp only [isSymbolPart, Bool.or_eq_false_iff] at stop
  exact stop.1.2

theorem isSymbolStart_eq_false {c : Char} (stop : isSymbolPart c = false) :
    isSymbolStart c = false := by
  simp only [isSymbolPart, Bool.or_eq_false_iff] at stop
  exact stop.1.1

namespace TokenKind

/-! ### What each kind matches -/

/-- Kinds with a mark of their own look at the first character for it. -/
theorem matchLength_marked (c : Char) (cs : List Char) :
    opening.matchLength (c :: cs) = (if c = '(' then 1 else 0) ∧
    closing.matchLength (c :: cs) = (if c = ')' then 1 else 0) ∧
    integer.matchLength (c :: cs) =
      (if c = '-' then if digitsLength cs = 0 then 0 else digitsLength cs + 1
      else digitsLength (c :: cs)) ∧
    keyword.matchLength (c :: cs) =
      (if c = ':' then if symbolLength cs = 0 then 0 else symbolLength cs + 1 else 0) := by
  refine ⟨?_, ?_, ?_, ?_⟩
  · by_cases same : c = '('
    · subst same
      rfl
    · simp [matchLength, same]
  · by_cases same : c = ')'
    · subst same
      rfl
    · simp [matchLength, same]
  · by_cases same : c = '-'
    · subst same
      rfl
    · simp [matchLength, same]
  · by_cases same : c = ':'
    · subst same
      rfl
    · simp [matchLength, same]

theorem matchLength_opening (c : Char) (cs : List Char) :
    opening.matchLength (c :: cs) = if c = '(' then 1 else 0 :=
  (matchLength_marked c cs).1

theorem matchLength_closing (c : Char) (cs : List Char) :
    closing.matchLength (c :: cs) = if c = ')' then 1 else 0 :=
  (matchLength_marked c cs).2.1

theorem matchLength_blank (cs : List Char) :
    blank.matchLength cs = (cs.takeWhile Text.isBlank).length := rfl

theorem matchLength_integer (c : Char) (cs : List Char) :
    integer.matchLength (c :: cs) =
      if c = '-' then if digitsLength cs = 0 then 0 else digitsLength cs + 1
      else digitsLength (c :: cs) :=
  (matchLength_marked c cs).2.2.1

theorem matchLength_boolean (cs : List Char) :
    boolean.matchLength cs =
      max (wordLength ['t', 'r', 'u', 'e'] cs) (wordLength ['f', 'a', 'l', 's', 'e'] cs) := rfl

theorem matchLength_nil (cs : List Char) :
    nil.matchLength cs = wordLength ['n', 'i', 'l'] cs := rfl

theorem matchLength_keyword (c : Char) (cs : List Char) :
    keyword.matchLength (c :: cs) =
      if c = ':' then if symbolLength cs = 0 then 0 else symbolLength cs + 1 else 0 :=
  (matchLength_marked c cs).2.2.2

theorem matchLength_symbol (cs : List Char) : symbol.matchLength cs = symbolLength cs := rfl

/-! ### Matches in front of another text -/

theorem digitsLength_append {rest : List Char} (stops : StopsSymbol rest) (cs : List Char) :
    digitsLength (cs ++ rest) = digitsLength cs := by
  rw [digitsLength, digitsLength,
    takeWhile_append_of_stops fun c member => isDigit_eq_false (stops c member)]

theorem symbolLength_append {rest : List Char} (stops : StopsSymbol rest) (cs : List Char) :
    symbolLength (cs ++ rest) = symbolLength cs := by
  cases cs with
  | nil =>
    cases rest with
    | nil => rfl
    | cons c rest => simp [symbolLength, isSymbolStart_eq_false (stops c rfl)]
  | cons c cs => rw [List.cons_append, symbolLength, symbolLength, takeWhile_append_of_stops stops]

/-- A word of symbol characters is found in front only if all of it stands before the
text that stops. -/
theorem wordLength_append {word : List Char} (letters : word.all isSymbolPart = true)
    {rest : List Char} (stops : StopsSymbol rest) (cs : List Char) :
    wordLength word (cs ++ rest) = wordLength word cs := by
  have inside : word.isPrefixOf (cs ++ rest) = word.isPrefixOf cs := by
    induction word generalizing cs with
    | nil => simp
    | cons w word ih =>
      rw [List.all_cons, Bool.and_eq_true] at letters
      obtain ⟨letter, others⟩ := letters
      cases cs with
      | nil =>
        cases rest with
        | nil => rfl
        | cons c rest =>
          have apart : w ≠ c := by
            rintro rfl
            have stopped := stops w rfl
            rw [letter] at stopped
            cases stopped
          simp [List.isPrefixOf_cons_cons, apart]
      | cons c cs =>
        rw [List.cons_append, List.isPrefixOf_cons_cons, List.isPrefixOf_cons_cons,
          ih others cs]
  rw [wordLength, wordLength, inside]

/-- What a kind matches in front of a text that stops symbols does not depend on that
text; blank runs aside. -/
theorem matchLength_append {kind : TokenKind} (solid : kind ≠ .blank) {cs rest : List Char}
    (nonempty : cs ≠ []) (stops : StopsSymbol rest) :
    kind.matchLength (cs ++ rest) = kind.matchLength cs := by
  obtain ⟨c, cs, rfl⟩ := List.exists_cons_of_ne_nil nonempty
  cases kind with
  | blank => exact absurd rfl solid
  | opening => rw [List.cons_append, matchLength_opening, matchLength_opening]
  | closing => rw [List.cons_append, matchLength_closing, matchLength_closing]
  | integer =>
    have digits := digitsLength_append stops (c :: cs)
    rw [List.cons_append] at digits ⊢
    rw [matchLength_integer, matchLength_integer, digitsLength_append stops, digits]
  | boolean =>
    rw [matchLength_boolean, matchLength_boolean, wordLength_append (by decide) stops,
      wordLength_append (by decide) stops]
  | nil => rw [matchLength_nil, matchLength_nil, wordLength_append (by decide) stops]
  | keyword =>
    rw [List.cons_append, matchLength_keyword, matchLength_keyword, symbolLength_append stops]
  | symbol => rw [matchLength_symbol, matchLength_symbol, symbolLength_append stops]
  | other => simp [matchLength]

/-! ### Matches in the front of a text -/

theorem digitsLength_take (n : Nat) (cs : List Char) :
    digitsLength (cs.take n) = min n (digitsLength cs) :=
  length_takeWhile_take Char.isDigit n cs

theorem symbolLength_take (n : Nat) (cs : List Char) :
    symbolLength (cs.take n) = min n (symbolLength cs) := by
  cases n with
  | zero => simp [symbolLength]
  | succ n =>
    cases cs with
    | nil => simp [symbolLength]
    | cons c cs =>
      rw [List.take_succ_cons, symbolLength, symbolLength]
      split
      · rw [length_takeWhile_take, Nat.add_min_add_right]
      · simp

theorem wordLength_take (word : List Char) (n : Nat) (cs : List Char) :
    wordLength word (cs.take n) = if word.length ≤ n then wordLength word cs else 0 := by
  have front : word.isPrefixOf (cs.take n) = true ↔
      word.isPrefixOf cs = true ∧ word.length ≤ n := by
    rw [List.isPrefixOf_iff_prefix, List.isPrefixOf_iff_prefix, List.prefix_take_iff]
  by_cases long : word.length ≤ n
  · rw [if_pos long, wordLength, wordLength]
    simp only [front, long, and_true]
  · have missing : ¬ word.isPrefixOf (cs.take n) = true := fun h => long (front.mp h).2
    rw [if_neg long, wordLength, if_neg missing]

theorem matchLength_of_nil (kind : TokenKind) : kind.matchLength [] = 0 := by
  cases kind <;> rfl

/-- No kind matches more in the front of a text than in all of it. -/
theorem matchLength_take_le (kind : TokenKind) (n : Nat) (cs : List Char) :
    kind.matchLength (cs.take n) ≤ kind.matchLength cs := by
  cases n with
  | zero => simp [matchLength_of_nil]
  | succ n =>
    cases cs with
    | nil => exact Nat.le_refl _
    | cons c cs =>
      have digits := digitsLength_take (n + 1) (c :: cs)
      rw [List.take_succ_cons] at digits ⊢
      cases kind with
      | opening => exact Nat.le_of_eq (by rw [matchLength_opening, matchLength_opening])
      | closing => exact Nat.le_of_eq (by rw [matchLength_closing, matchLength_closing])
      | blank =>
        rw [matchLength_blank, matchLength_blank, ← List.take_succ_cons, length_takeWhile_take]
        exact Nat.min_le_right _ _
      | integer =>
        rw [matchLength_integer, matchLength_integer, digitsLength_take, digits]
        split
        · split <;> split <;> omega
        · exact Nat.min_le_right _ _
      | boolean =>
        rw [matchLength_boolean, matchLength_boolean, ← List.take_succ_cons, wordLength_take,
          wordLength_take]
        split <;> split <;> omega
      | nil =>
        rw [matchLength_nil, matchLength_nil, ← List.take_succ_cons, wordLength_take]
        split <;> omega
      | keyword =>
        rw [matchLength_keyword, matchLength_keyword, symbolLength_take]
        split
        · split <;> split <;> omega
        · exact Nat.le_refl _
      | symbol =>
        rw [matchLength_symbol, matchLength_symbol, ← List.take_succ_cons, symbolLength_take]
        exact Nat.min_le_right _ _
      | other => simp [matchLength]

theorem wordLength_take_self (word cs : List Char) :
    wordLength word (cs.take (wordLength word cs)) = wordLength word cs := by
  rw [wordLength_take]
  by_cases found : word.isPrefixOf cs = true
  · simp [wordLength, found]
  · simp [wordLength, found]

/-- A kind matches all of what it matched. -/
theorem matchLength_take_self (kind : TokenKind) (cs : List Char) :
    kind.matchLength (cs.take (kind.matchLength cs)) = kind.matchLength cs := by
  cases cs with
  | nil => simp
  | cons c cs =>
    cases kind with
    | opening =>
      rw [matchLength_opening]
      split
      · rw [List.take_succ_cons, matchLength_opening, if_pos (by assumption)]
      · simp [matchLength_of_nil]
    | closing =>
      rw [matchLength_closing]
      split
      · rw [List.take_succ_cons, matchLength_closing, if_pos (by assumption)]
      · simp [matchLength_of_nil]
    | blank => rw [matchLength_blank, matchLength_blank, length_takeWhile_take, Nat.min_self]
    | integer =>
      rw [matchLength_integer]
      split
      · split
        · simp [matchLength_of_nil]
        · rename_i sign some
          rw [List.take_succ_cons, matchLength_integer, if_pos sign, digitsLength_take,
            Nat.min_self, if_neg some]
      · rename_i unsigned
        cases count : digitsLength (c :: cs) with
        | zero => simp [matchLength_of_nil]
        | succ n =>
          have same := digitsLength_take (n + 1) (c :: cs)
          rw [List.take_succ_cons] at same ⊢
          rw [matchLength_integer, if_neg unsigned, same, count, Nat.min_self]
    | boolean =>
      rw [matchLength_boolean, matchLength_boolean]
      -- The longer of the two words is the match, and it is still there after the cut.
      rcases Nat.le_total (wordLength ['t', 'r', 'u', 'e'] (c :: cs))
        (wordLength ['f', 'a', 'l', 's', 'e'] (c :: cs)) with least | least
      · rw [Nat.max_eq_right least, wordLength_take_self, wordLength_take]
        split <;> omega
      · rw [Nat.max_eq_left least, wordLength_take_self, wordLength_take]
        split <;> omega
    | nil => rw [matchLength_nil, matchLength_nil, wordLength_take_self]
    | keyword =>
      rw [matchLength_keyword]
      split
      · split
        · simp [matchLength_of_nil]
        · rename_i colon some
          rw [List.take_succ_cons, matchLength_keyword, if_pos colon, symbolLength_take,
            Nat.min_self, if_neg some]
      · simp [matchLength_of_nil]
    | symbol => rw [matchLength_symbol, matchLength_symbol, symbolLength_take, Nat.min_self]
    | other => simp [matchLength]

/-- What a kind matches does not depend on what comes behind it. -/
theorem matchLength_take_of_le {kind : TokenKind} {cs : List Char} {n : Nat}
    (kept : kind.matchLength cs ≤ n) : kind.matchLength (cs.take n) = kind.matchLength cs := by
  apply Nat.le_antisymm (matchLength_take_le kind n cs)
  have inner := matchLength_take_le kind (kind.matchLength cs) (cs.take n)
  rwa [List.take_take, Nat.min_eq_left kept, matchLength_take_self] at inner

theorem wordLength_le_length (word cs : List Char) : wordLength word cs ≤ cs.length := by
  rw [wordLength]
  split
  · rename_i found
    exact (List.isPrefixOf_iff_prefix.mp found).length_le
  · exact Nat.zero_le _

theorem digitsLength_le_length (cs : List Char) : digitsLength cs ≤ cs.length :=
  (List.takeWhile_sublist _).length_le

theorem symbolLength_le_length (cs : List Char) : symbolLength cs ≤ cs.length := by
  cases cs with
  | nil => exact Nat.le_refl _
  | cons c cs =>
    have run : (cs.takeWhile isSymbolPart).length ≤ cs.length :=
      (List.takeWhile_sublist _).length_le
    rw [symbolLength, List.length_cons]
    split <;> omega

/-- A match lies within the text. -/
theorem matchLength_le_length (kind : TokenKind) (cs : List Char) :
    kind.matchLength cs ≤ cs.length := by
  cases cs with
  | nil => simp [matchLength_of_nil]
  | cons c cs =>
    cases kind with
    | opening =>
      rw [matchLength_opening, List.length_cons]
      split <;> omega
    | closing =>
      rw [matchLength_closing, List.length_cons]
      split <;> omega
    | blank =>
      rw [matchLength_blank]
      exact (List.takeWhile_sublist _).length_le
    | integer =>
      have digits := digitsLength_le_length cs
      rw [matchLength_integer]
      split
      · rw [List.length_cons]
        split <;> omega
      · exact digitsLength_le_length (c :: cs)
    | boolean =>
      rw [matchLength_boolean]
      exact Nat.max_le.mpr ⟨wordLength_le_length _ _, wordLength_le_length _ _⟩
    | nil =>
      rw [matchLength_nil]
      exact wordLength_le_length _ _
    | keyword =>
      have symbol := symbolLength_le_length cs
      rw [matchLength_keyword, List.length_cons]
      split
      · split <;> omega
      · exact Nat.zero_le _
    | symbol =>
      rw [matchLength_symbol]
      exact symbolLength_le_length _
    | other => simp [matchLength]

/-! ### The first kind that matches -/

theorem eq_matchLength_of_firstOf {cs : List Char} {kinds : List TokenKind} {kind : TokenKind}
    {n : Nat} (found : firstOf cs kinds = some (kind, n)) : n = kind.matchLength cs := by
  induction kinds with
  | nil => cases found
  | cons k kinds ih =>
    rw [firstOf] at found
    split at found
    · exact ih found
    · cases found
      rfl

/-- A token lies within the text. -/
theorem le_length_of_first? {cs : List Char} {kind : TokenKind} {n : Nat}
    (found : first? cs = some (kind, n)) : n ≤ cs.length := by
  rw [eq_matchLength_of_firstOf found]
  exact matchLength_le_length kind cs

theorem firstOf_congr {cs ds : List Char} {kinds : List TokenKind}
    (same : ∀ kind ∈ kinds, kind.matchLength cs = kind.matchLength ds) :
    firstOf cs kinds = firstOf ds kinds := by
  induction kinds with
  | nil => rfl
  | cons kind kinds ih =>
    rw [firstOf, firstOf, same kind (by simp), ih fun k member => same k (by simp [member])]

theorem firstOf_take {cs : List Char} {kinds : List TokenKind} {kind : TokenKind} {n m : Nat}
    (found : firstOf cs kinds = some (kind, n)) (kept : n ≤ m) :
    firstOf (cs.take m) kinds = some (kind, n) := by
  induction kinds with
  | nil => cases found
  | cons k kinds ih =>
    rw [firstOf] at found ⊢
    -- A kind that was passed over in the whole text is passed over in its front as well.
    split at found
    · rename_i unmatched
      have least := matchLength_take_le k m cs
      rw [if_pos (by omega), ih found]
    · rename_i matched
      obtain ⟨rfl, rfl⟩ := Prod.mk.inj (Option.some.inj found)
      rw [matchLength_take_of_le kept, if_neg matched]

/-- A token is still cut if the text ends right behind it or anywhere later. -/
theorem first?_take_of_le {cs : List Char} {kind : TokenKind} {n m : Nat}
    (found : first? cs = some (kind, n)) (kept : n ≤ m) :
    first? (cs.take m) = some (kind, n) :=
  firstOf_take found kept

/-- A token taken out of its text is a single token of the same kind. -/
theorem first?_take {cs : List Char} {kind : TokenKind} {n : Nat}
    (found : first? cs = some (kind, n)) : first? (cs.take n) = some (kind, n) :=
  first?_take_of_le found (Nat.le_refl n)

theorem ne_nil_of_first? {cs : List Char} {token : TokenKind × Nat}
    (found : first? cs = some token) : cs ≠ [] := by
  rintro rfl
  cases found

/-- A parenthesis is a token whatever follows it. -/
theorem first?_opening (cs : List Char) : first? ('(' :: cs) = some (.opening, 1) := by
  rw [first?, priority, firstOf, matchLength_opening, if_pos rfl, if_neg Nat.one_ne_zero]

theorem first?_closing (cs : List Char) : first? (')' :: cs) = some (.closing, 1) := by
  have notOpening : ')' ≠ '(' := by decide
  rw [first?, priority, firstOf, matchLength_opening, if_neg notOpening, if_pos rfl, firstOf,
    matchLength_closing, if_pos rfl, if_neg Nat.one_ne_zero]

theorem isBlank_not_paren {c : Char} (blank : Text.isBlank c = true) : c ≠ '(' ∧ c ≠ ')' := by
  constructor <;> rintro rfl <;> exact absurd blank (by decide)

/-- A text that begins with a blank begins with a blank run. -/
theorem first?_of_isBlank {c : Char} (isBlank : Text.isBlank c = true) (cs : List Char) :
    first? (c :: cs) = some (.blank, ((c :: cs).takeWhile Text.isBlank).length) := by
  obtain ⟨notOpening, notClosing⟩ := isBlank_not_paren isBlank
  have matched : ((c :: cs).takeWhile Text.isBlank).length ≠ 0 := by simp [isBlank]
  rw [first?, priority, firstOf, matchLength_opening, if_neg notOpening, if_pos rfl, firstOf,
    matchLength_closing, if_neg notClosing, if_pos rfl, firstOf, matchLength_blank,
    if_neg matched]

/-- A token that is no blank run begins with no blank. -/
theorem isBlank_head_eq_false {cs : List Char} {kind : TokenKind} {n : Nat}
    (found : first? cs = some (kind, n)) (solid : kind ≠ .blank) :
    ∀ c ∈ cs.head?, Text.isBlank c = false := by
  intro c member
  cases cs with
  | nil => cases member
  | cons d cs =>
    cases member
    apply Bool.eq_false_iff.mpr
    intro blank
    rw [first?_of_isBlank blank] at found
    cases found
    exact solid rfl

/-- A token that is no blank run stays a token in front of any text that stops symbols. -/
theorem first?_append {cs rest : List Char} {kind : TokenKind} {n : Nat}
    (found : first? cs = some (kind, n)) (solid : kind ≠ .blank) (stops : StopsSymbol rest) :
    first? (cs ++ rest) = some (kind, n) := by
  have nonempty := ne_nil_of_first? found
  rw [← found]
  apply firstOf_congr
  intro k _
  by_cases blank : k = .blank
  · -- Blank runs do not match here at all: the token begins with something else.
    subst blank
    obtain ⟨c, cs, rfl⟩ := List.exists_cons_of_ne_nil nonempty
    have visible : Text.isBlank c = false := isBlank_head_eq_false found solid c rfl
    rw [List.cons_append, matchLength_blank, matchLength_blank, List.takeWhile_cons,
      List.takeWhile_cons, visible]
    rfl
  · exact matchLength_append blank nonempty stops

/-- Blanks are a token in front of any text that does not begin with a blank. -/
theorem first?_blanks {blanks rest : List Char} (nonempty : blanks ≠ [])
    (blank : ∀ c ∈ blanks, Text.isBlank c = true)
    (visible : ∀ c ∈ rest.head?, Text.isBlank c = false) :
    first? (blanks ++ rest) = some (.blank, blanks.length) := by
  have run : (blanks ++ rest).takeWhile Text.isBlank = blanks := by
    rw [List.takeWhile_append_of_pos blank, ← List.nil_append rest,
      takeWhile_append_of_stops visible, List.takeWhile_nil, List.append_nil]
  obtain ⟨c, cs, rfl⟩ := List.exists_cons_of_ne_nil nonempty
  rw [List.cons_append] at run ⊢
  rw [first?_of_isBlank (blank c List.mem_cons_self), run]

/-- A single space is a token in front of any text that does not begin with a blank. -/
theorem first?_space {rest : List Char} (visible : ∀ c ∈ rest.head?, Text.isBlank c = false) :
    first? (' ' :: rest) = some (.blank, 1) :=
  first?_blanks (List.cons_ne_nil ' ' []) (List.forall_mem_singleton.mpr (by decide)) visible

end TokenKind

/-! ### Cutting a text -/

namespace Lexing

theorem ofChars_nil (offset : Nat) : ofChars offset [] = ⟨[], none⟩ := by
  rw [ofChars]

/-- The front of a text is cut off, and cutting goes on behind it. -/
theorem ofChars_of_first? {cs : List Char} {kind : TokenKind} {n : Nat}
    (found : TokenKind.first? cs = some (kind, n)) (offset : Nat) :
    ofChars offset cs =
      ⟨⟨kind, String.ofList (cs.take n), offset⟩ :: (ofChars (offset + n) (cs.drop n)).tokens,
        (ofChars (offset + n) (cs.drop n)).stuck⟩ := by
  obtain ⟨c, cs, rfl⟩ := List.exists_cons_of_ne_nil (TokenKind.ne_nil_of_first? found)
  rw [ofChars]
  split
  · rename_i missing
    rw [missing] at found
    cases found
  · rename_i kind' n' found'
    rw [found'] at found
    cases found
    rfl

/-- Each token of a text, taken out of it, is a single token of the same kind. -/
theorem first?_of_mem_tokens {offset : Nat} {cs : List Char} {t : Token}
    (member : t ∈ (ofChars offset cs).tokens) :
    TokenKind.first? t.text.toList = some (t.kind, t.text.toList.length) := by
  fun_induction ofChars offset cs with
  | case1 => cases member
  | case2 => cases member
  | case3 offset c cs kind n found later ih =>
    rcases List.mem_cons.mp member with rfl | member
    · have alone := TokenKind.first?_take found
      have length := List.length_take_of_le (TokenKind.le_length_of_first? found)
      simpa only [String.toList_ofList, length] using alone
    · exact ih member

end Lexing

theorem tokens_of_tokenize {source : String} {tokens : List Token}
    (cut : tokenize source = .ok tokens) : tokens = (Lexing.ofChars 0 source.toList).tokens := by
  rw [tokenize, Lexing.ofSource] at cut
  split at cut
  · cases cut
    rfl
  · cases cut

end ContextLisp
