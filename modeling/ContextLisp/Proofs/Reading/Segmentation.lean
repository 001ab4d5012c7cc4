/-
# Where texts are cut

A text is cut into tokens without losing a character, each token where the one before it ends.
At every place it is the first kind that matches there, in the order in which kinds are tried,
and the longest match of that kind. Cutting goes on to the end of the text, or up to the first
place at which no kind matches, and one look at the character there, and at the one behind it if
it is a colon, tells that none does.

The place between two tokens is a seam. The text up to a seam, taken alone, is cut into the tokens
in front of it: no kind matches in a shorter text what it does not match in a longer one, and what
it does match does not depend on what comes behind. The text from a seam on, taken alone, is cut
into the tokens behind it, since cutting never looks back.
-/

import ContextLisp.Proofs.Reading.Concatenation

namespace ContextLisp

namespace TokenKind

/-! ### Longest matches -/

/-- The kind has a match at the front of the text. -/
def Matches (kind : TokenKind) (cs : List Char) : Prop :=
  ∃ w, w <+: cs ∧ kind.Describes w

/-- The longest match of the kind at the front of the text. -/
structure LongestMatch (kind : TokenKind) (cs w : List Char) : Prop where
  front : w <+: cs
  described : kind.Describes w
  longest : ∀ other, other <+: cs → kind.Describes other → other <+: w

variable {kind : TokenKind} {cs : List Char}

theorem length_le_matchLength {w : List Char} (front : w <+: cs) (described : kind.Describes w) :
    w.length ≤ kind.matchLength cs := by
  have inFront := matchLength_take_le kind w.length cs
  rwa [← List.prefix_iff_eq_take.mp front, (describes_iff described.ne_nil).mp described]
    at inFront

theorem describes_take (matched : kind.matchLength cs ≠ 0) :
    kind.Describes (cs.take (kind.matchLength cs)) := by
  have length := List.length_take_of_le (matchLength_le_length kind cs)
  have nonempty : cs.take (kind.matchLength cs) ≠ [] := by
    intro empty
    rw [empty] at length
    exact matched length.symm
  rw [describes_iff nonempty, matchLength_take_self, length]

theorem matches_iff : kind.Matches cs ↔ kind.matchLength cs ≠ 0 := by
  constructor
  · rintro ⟨w, front, described⟩ zero
    have length := length_le_matchLength front described
    exact described.ne_nil (List.length_eq_zero_iff.mp (by omega))
  · intro matched
    exact ⟨_, List.take_prefix _ cs, describes_take matched⟩

theorem longestMatch_take (matched : kind.matchLength cs ≠ 0) :
    kind.LongestMatch cs (cs.take (kind.matchLength cs)) := by
  refine ⟨List.take_prefix _ cs, describes_take matched, fun other front described => ?_⟩
  apply List.prefix_of_prefix_length_le front (List.take_prefix _ cs)
  rw [List.length_take_of_le (matchLength_le_length kind cs)]
  exact length_le_matchLength front described

/-- The kinds that are tried in vain before one that matches. -/
theorem exists_of_firstOf {kinds : List TokenKind} {n : Nat}
    (found : firstOf cs kinds = some (kind, n)) :
    ∃ earlier later, kinds = earlier ++ kind :: later ∧ ∀ k ∈ earlier, k.matchLength cs = 0 := by
  induction kinds with
  | nil => cases found
  | cons k kinds ih =>
    rw [firstOf] at found
    split at found
    · rename_i unmatched
      obtain ⟨earlier, later, rfl, none⟩ := ih found
      exact ⟨k :: earlier, later, rfl, List.forall_mem_cons.mpr ⟨unmatched, none⟩⟩
    · cases found
      exact ⟨[], kinds, rfl, List.forall_mem_nil _⟩

/-! ### Places where nothing matches -/

theorem firstOf_eq_none_iff {kinds : List TokenKind} :
    firstOf cs kinds = none ↔ ∀ k ∈ kinds, k.matchLength cs = 0 := by
  induction kinds with
  | nil => simp [firstOf]
  | cons k kinds ih =>
    rw [firstOf, List.forall_mem_cons]
    split
    · rename_i unmatched
      rw [ih, and_iff_right unmatched]
    · rename_i matched
      simp [matched]

theorem symbolLength_eq_zero_iff {cs : List Char} :
    symbolLength cs = 0 ↔ ∀ c ∈ cs.head?, isSymbolStart c = false := by
  cases cs with
  | nil => simp [symbolLength]
  | cons c cs => simp [symbolLength]

end TokenKind

/-- The character is no blank, no parenthesis, no ASCII digit and none that can begin a symbol,
nor is it a colon in front of one that can. -/
structure BeginsNoToken (c : Char) (rest : List Char) : Prop where
  visible : Text.isBlank c = false
  noOpening : c ≠ '('
  noClosing : c ≠ ')'
  noDigit : c.isDigit = false
  noSymbol : isSymbolStart c = false
  noKeyword : c = ':' → ∀ d ∈ rest.head?, isSymbolStart d = false

namespace TokenKind

/-- One look at the front of a text tells whether a token begins there. -/
theorem first?_eq_none_iff {c : Char} {rest : List Char} :
    first? (c :: rest) = none ↔ BeginsNoToken c rest := by
  have order : priority =
      [opening, closing, blank, integer, boolean, nil, keyword, symbol] := rfl
  have marked : ∀ n : Nat, (if n = 0 then 0 else n + 1) = 0 ↔ n = 0 := by
    intro n
    split <;> simp_all
  rw [first?, firstOf_eq_none_iff, order]
  simp only [List.forall_mem_cons, matchLength_opening, matchLength_closing, matchLength_blank,
    matchLength_integer, matchLength_boolean, matchLength_nil, matchLength_keyword,
    matchLength_symbol]
  constructor
  · rintro ⟨notOpening, notClosing, visible, notInteger, -, -, notKeyword, notSymbol, -⟩
    have noSymbol : isSymbolStart c = false := symbolLength_eq_zero_iff.mp notSymbol c rfl
    have noSign : c ≠ '-' := (ne_of_isSymbolStart (by decide) noSymbol).symm
    refine ⟨?_, ?_, ?_, ?_, noSymbol, ?_⟩
    · simpa [List.takeWhile_cons] using visible
    · simpa using notOpening
    · simpa using notClosing
    · simpa [noSign, digitsLength, List.takeWhile_cons] using notInteger
    · intro colon
      rw [if_pos colon, marked] at notKeyword
      exact symbolLength_eq_zero_iff.mp notKeyword
  · rintro ⟨visible, noOpening, noClosing, noDigit, noSymbol, noKeyword⟩
    have noSign : c ≠ '-' := (ne_of_isSymbolStart (by decide) noSymbol).symm
    have noWord : ∀ w word, isSymbolStart w = true → wordLength (w :: word) (c :: rest) = 0 := by
      intro w word start
      simp [wordLength, ne_of_isSymbolStart start noSymbol]
    refine ⟨if_neg noOpening, if_neg noClosing, ?_, ?_, ?_, ?_, ?_, ?_, List.forall_mem_nil _⟩
    · simp [visible]
    · simp [noSign, digitsLength, noDigit]
    · rw [noWord 't' _ (by decide), noWord 'f' _ (by decide), Nat.max_self]
    · exact noWord 'n' _ (by decide)
    · split
      · rename_i colon
        rw [marked]
        exact symbolLength_eq_zero_iff.mpr (noKeyword colon)
      · rfl
    · simp [symbolLength, noSymbol]

end TokenKind

/-! ### Seams -/

/-- What tokens are written with, one behind the other. -/
def textOf (ts : List Token) : List Char := ts.flatMap fun t => t.text.toList

/-- The token stands at the front of the text: its kind is the first that matches there, and it is
the longest match of that kind. -/
structure Token.Leads (t : Token) (cs : List Char) : Prop where
  first : ∃ earlier later, TokenKind.priority = earlier ++ t.kind :: later ∧
    ∀ kind ∈ earlier, ¬ kind.Matches cs
  longest : t.kind.LongestMatch cs t.text.toList

theorem leads_of_first? {cs : List Char} {kind : TokenKind} {n : Nat}
    (found : TokenKind.first? cs = some (kind, n)) (offset : Int) :
    (⟨kind, String.ofList (cs.take n), offset⟩ : Token).Leads cs := by
  have length := TokenKind.eq_matchLength_of_firstOf found
  have matched : kind.matchLength cs ≠ 0 := length ▸ (TokenKind.firstOf_pos found).ne'
  obtain ⟨earlier, later, order, unmatched⟩ := TokenKind.exists_of_firstOf found
  refine ⟨⟨earlier, later, order, fun k member => ?_⟩, ?_⟩
  · rw [TokenKind.matches_iff, not_not]
    exact unmatched k member
  · rw [String.toList_ofList, length]
    exact TokenKind.longestMatch_take matched

namespace Lexing

variable {offset : Nat} {cs : List Char}

/-- Where the first token comes from, and those behind it. -/
theorem first?_of_tokens_cons {t : Token} {later : List Token}
    (cut : (ofChars offset cs).tokens = t :: later) :
    ∃ n, TokenKind.first? cs = some (t.kind, n) ∧ t = ⟨t.kind, String.ofList (cs.take n), offset⟩ ∧
      ofChars (offset + n) (cs.drop n) = ⟨later, (ofChars offset cs).stuck⟩ := by
  cases found : TokenKind.first? cs with
  | none =>
    cases cs with
    | nil =>
      rw [ofChars_nil] at cut
      cases cut
    | cons c cs =>
      rw [ofChars_of_stuck found] at cut
      cases cut
  | some token =>
    obtain ⟨kind, n⟩ := token
    rw [ofChars_of_first? found] at cut ⊢
    obtain ⟨rfl, rfl⟩ := List.cons.inj cut
    exact ⟨n, rfl, rfl, rfl⟩

/-- At a seam the text falls apart into two that are cut as before. -/
theorem ofChars_seam {before after : List Token}
    (cut : (ofChars offset cs).tokens = before ++ after) :
    textOf before <+: cs ∧ ofChars offset (textOf before) = ⟨before, none⟩ ∧
      ofChars (offset + (textOf before).length) (cs.drop (textOf before).length) =
        ⟨after, (ofChars offset cs).stuck⟩ := by
  induction before generalizing offset cs with
  | nil =>
    obtain rfl : (ofChars offset cs).tokens = after := cut
    exact ⟨List.nil_prefix, ofChars_nil offset, rfl⟩
  | cons t before ih =>
    obtain ⟨n, found, shape, behind⟩ := first?_of_tokens_cons cut
    obtain ⟨front, alone, rest⟩ := ih (congrArg Lexing.tokens behind)
    have within := TokenKind.le_length_of_first? found
    have text : t.text.toList = cs.take n := by rw [shape, String.toList_ofList]
    have length : t.text.toList.length = n := by rw [text, List.length_take_of_le within]
    have written : textOf (t :: before) = cs.take n ++ textOf before := by
      rw [textOf, List.flatMap_cons, text, textOf]
    have isFront : textOf (t :: before) <+: cs := by
      obtain ⟨back, joined⟩ := front
      exact ⟨back, by rw [written, List.append_assoc, joined, List.take_append_drop]⟩
    refine ⟨isFront, ?_, ?_⟩
    · have shorter : TokenKind.first? (textOf (t :: before)) = some (t.kind, n) := by
        rw [List.prefix_iff_eq_take.mp isFront]
        apply TokenKind.first?_take_of_le found
        rw [written, List.length_append, List.length_take_of_le within]
        exact Nat.le_add_right n _
      have split : (cs.take n ++ textOf before).take n = cs.take n ∧
          (cs.take n ++ textOf before).drop n = textOf before := by
        have full := List.length_take_of_le within
        exact ⟨List.take_left' full, List.drop_left' full⟩
      rw [ofChars_of_first? shorter, written, split.1, split.2, alone, ← shape]
    · rw [written, List.length_append, List.length_take_of_le within, ← Nat.add_assoc,
        ← List.drop_drop, rest, behind]

/-- Cutting ends with the text, or in front of a character that begins no token. -/
theorem ofChars_ends (offset : Nat) (cs : List Char) :
    match (ofChars offset cs).stuck with
    | none => textOf (ofChars offset cs).tokens = cs
    | some (p, c) => p = offset + (textOf (ofChars offset cs).tokens).length ∧
      ∃ rest, cs = textOf (ofChars offset cs).tokens ++ c :: rest ∧ BeginsNoToken c rest := by
  obtain ⟨⟨back, joined⟩, -, behind⟩ :=
    ofChars_seam (List.append_nil (ofChars offset cs).tokens).symm
  generalize textOf (ofChars offset cs).tokens = front at joined behind ⊢
  subst joined
  rw [List.drop_left] at behind
  cases back with
  | nil =>
    rw [ofChars_nil] at behind
    rw [← congrArg Lexing.stuck behind]
    exact (List.append_nil front).symm
  | cons c rest =>
    cases found : TokenKind.first? (c :: rest) with
    | none =>
      rw [ofChars_of_stuck found] at behind
      rw [← congrArg Lexing.stuck behind]
      exact ⟨rfl, rest, rfl, TokenKind.first?_eq_none_iff.mp found⟩
    | some token =>
      rw [ofChars_of_first? found] at behind
      cases congrArg Lexing.tokens behind

/-- Cutting fails right where it begins if and only if no token begins there. -/
theorem stuck_at_front_iff {c : Char} :
    (ofChars offset cs).stuck = some (offset, c) ↔
      ∃ rest, cs = c :: rest ∧ BeginsNoToken c rest := by
  constructor
  · intro fails
    have ends := ofChars_ends offset cs
    rw [fails] at ends
    obtain ⟨place, rest, whole, none⟩ := ends
    have empty : textOf (ofChars offset cs).tokens = [] :=
      List.length_eq_zero_iff.mp (by omega)
    exact ⟨rest, by rwa [empty] at whole, none⟩
  · rintro ⟨rest, rfl, none⟩
    rw [ofChars_of_stuck (TokenKind.first?_eq_none_iff.mpr none)]

end Lexing

theorem tokenize_eq_ok_iff {source : String} {tokens : List Token} :
    tokenize source = .ok tokens ↔ Lexing.ofSource source = ⟨tokens, none⟩ := by
  rw [tokenize, Lexing.error?]
  obtain ⟨cut, stuck⟩ := Lexing.ofSource source
  cases stuck <;> simp

theorem tokenize_of_stuck {source : String} {tokens : List Token} {p : Nat} {c : Char}
    (cut : Lexing.ofSource source = ⟨tokens, some (p, c)⟩) :
    tokenize source = .error ⟨.badCharacter c, some p, some source⟩ := by
  rw [tokenize, cut]
  rfl

theorem moved_moved (first second : Int) (ts : List Token) :
    (ts.map (Token.moved first)).map (Token.moved second) =
      ts.map (Token.moved (first + second)) := by
  rw [List.map_map]
  apply List.map_congr_left
  intro t _
  simp [Token.moved, Int.add_assoc]

theorem moved_zero (ts : List Token) : ts.map (Token.moved 0) = ts := by
  conv => rhs; rw [← List.map_id ts]
  apply List.map_congr_left
  intro t _
  simp [Token.moved]

/-- At a seam of a text, the text in front of it is cut into the tokens before, and the text
behind it into those after, with the seam as their origin. -/
theorem ofSource_seam {source : String} {before after : List Token} {stuck : Option (Nat × Char)}
    (cut : Lexing.ofSource source = ⟨before ++ after, stuck⟩) :
    Lexing.ofSource (String.ofList (source.toList.take (textOf before).length)) = ⟨before, none⟩ ∧
    ∃ later : Option (Nat × Char),
      stuck = later.map (fun place => (place.1 + (textOf before).length, place.2)) ∧
      Lexing.ofSource (String.ofList (source.toList.drop (textOf before).length)) =
        ⟨after.map (Token.moved (-(textOf before).length)), later⟩ := by
  obtain ⟨front, alone, behind⟩ := Lexing.ofChars_seam (congrArg Lexing.tokens cut)
  rw [Lexing.ofChars_add] at behind
  have stopped : (Lexing.ofChars 0 source.toList).stuck = stuck := congrArg Lexing.stuck cut
  rw [Lexing.ofSource, Lexing.ofSource, String.toList_ofList, String.toList_ofList,
    ← List.prefix_iff_eq_take.mp front]
  refine ⟨alone, _, stopped ▸ (congrArg Lexing.stuck behind).symm, ?_⟩
  have origin := congrArg (List.map (Token.moved (-(textOf before).length)))
    (congrArg Lexing.tokens behind)
  rw [moved_moved, Int.add_right_neg, moved_zero] at origin
  rw [← origin]

/-- Cutting a text gives tokens that are not empty, each at the offset that the texts before it
add up to, and each the longest match, at its place, of the first kind that matches there. All
of them together are the text, or the text up to the place at which it is refused. Between two
tokens, in front of all and behind all of them, cutting fails exactly if the character there
begins no token. At each such place the text so far is cut into the tokens before it, and the text
from there on into the tokens after it and refused as the whole text is, only that offsets are
counted from there. -/
theorem text_is_cut_at_its_seams {source : String} {tokens : List Token}
    {stuck : Option (Nat × Char)} (cut : Lexing.ofSource source = ⟨tokens, stuck⟩) :
    (∀ before t after, tokens = before ++ t :: after →
      t.text ≠ "" ∧ t.offset = ((textOf before).length : Int) ∧
        t.Leads (source.toList.drop (textOf before).length)) ∧
    (stuck = none → textOf tokens = source.toList ∧ tokenize source = .ok tokens) ∧
    (∀ p c, stuck = some (p, c) → textOf tokens = source.toList.take p ∧ p < source.length ∧
      tokenize source = .error ⟨.badCharacter c, some p, some source⟩) ∧
    ∀ before after q, tokens = before ++ after → q = (textOf before).length →
      (∀ c, stuck = some (q, c) ↔
        ∃ rest, source.toList.drop q = c :: rest ∧ BeginsNoToken c rest) ∧
      tokenize (String.ofList (source.toList.take q)) = .ok before ∧
      (Lexing.ofSource (String.ofList (source.toList.drop q))).tokens =
        after.map (Token.moved (-q)) ∧
      (stuck = none → tokenize (String.ofList (source.toList.drop q)) =
        .ok (after.map (Token.moved (-q)))) ∧
      ∀ p c, stuck = some (p, c) → tokenize (String.ofList (source.toList.drop q)) =
        .error ⟨.badCharacter c, some (p - q), some (String.ofList (source.toList.drop q))⟩ := by
  have stopped : (Lexing.ofChars 0 source.toList).stuck = stuck := congrArg Lexing.stuck cut
  have listed : (Lexing.ofChars 0 source.toList).tokens = tokens := congrArg Lexing.tokens cut
  have ends := Lexing.ofChars_ends 0 source.toList
  rw [stopped, listed] at ends
  refine ⟨?_, ?_, ?_, ?_⟩
  · intro before t after shape
    obtain ⟨-, -, behind⟩ := Lexing.ofChars_seam (listed.trans shape)
    obtain ⟨n, found, whole, -⟩ := Lexing.first?_of_tokens_cons (congrArg Lexing.tokens behind)
    have leads := leads_of_first? found ((0 + (textOf before).length : Nat) : Int)
    rw [← whole] at leads
    refine ⟨?_, ?_, leads⟩
    · exact fun empty => leads.longest.described.ne_nil (String.toList_eq_nil_iff.mpr empty)
    · rw [whole, Nat.zero_add]
  · rintro rfl
    exact ⟨ends, tokenize_eq_ok_iff.mpr cut⟩
  · rintro p c rfl
    obtain ⟨length, rest, whole, -⟩ := ends
    rw [Nat.zero_add] at length
    refine ⟨?_, ?_, tokenize_of_stuck cut⟩
    · rw [whole, length, List.take_left]
    · rw [← String.length_toList, whole, length, List.length_append, List.length_cons]
      omega
  · rintro before after q rfl rfl
    obtain ⟨-, -, behind⟩ := Lexing.ofChars_seam listed
    obtain ⟨alone, later, fails, back⟩ := ofSource_seam cut
    refine ⟨fun c => ?_, tokenize_eq_ok_iff.mpr alone, by rw [back], ?_, ?_⟩
    · rw [← Lexing.stuck_at_front_iff, behind, stopped, Nat.zero_add]
    · rintro rfl
      rw [Option.map_eq_none_iff.mp fails.symm] at back
      exact tokenize_eq_ok_iff.mpr back
    · rintro p c rfl
      obtain ⟨⟨place, d⟩, rfl, same⟩ := Option.map_eq_some_iff.mp fails.symm
      obtain ⟨rfl, rfl⟩ := Prod.mk.inj same
      rw [tokenize_of_stuck back]
      simp

/-- A sign in front of a digit belongs to an integer, one in front of a letter to a symbol, a word
behind a colon to a keyword, and a comma to no token. -/
theorem signs_and_colons_are_seams :
    Lexing.ofSource "-1-x:true,y" =
      ⟨[⟨.integer, "-1", 0⟩, ⟨.symbol, "-x", 2⟩, ⟨.keyword, ":true", 4⟩], some (9, ',')⟩ ∧
    (⟨.symbol, "-x", 2⟩ : Token).Leads "-x:true,y".toList ∧
    tokenize "-1-x" = .ok [⟨.integer, "-1", 0⟩, ⟨.symbol, "-x", 2⟩] ∧
    tokenize ":true,y" = .error ⟨.badCharacter ',', some 5, some ":true,y"⟩ := by
  have cut : Lexing.ofSource "-1-x:true,y" =
      ⟨[⟨.integer, "-1", 0⟩, ⟨.symbol, "-x", 2⟩, ⟨.keyword, ":true", 4⟩], some (9, ',')⟩ := by cbv
  obtain ⟨placed, -, -, seams⟩ := text_is_cut_at_its_seams cut
  obtain ⟨-, front, -, -, back⟩ :=
    seams [⟨.integer, "-1", 0⟩, ⟨.symbol, "-x", 2⟩] [⟨.keyword, ":true", 4⟩] 4 rfl rfl
  exact ⟨cut, (placed [⟨.integer, "-1", 0⟩] _ [⟨.keyword, ":true", 4⟩] rfl).2.2, front,
    back 9 ',' rfl⟩

end ContextLisp
