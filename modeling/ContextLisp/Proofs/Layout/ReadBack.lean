/-
# Layouts read back or are refused

Without colours, the layout of a readable value is read as that value, however its lists are
broken into lines: a line break and the margin behind it are blanks as much as a space is.

If a layout leaves something out, it is refused. The ellipsis begins no token, and no token
holds one, so the text is cut up to the first ellipsis and no further. What stands in front of
it need not be a value, but it consists of whole tokens. So a layout is never read as another
value than the one that was laid out.

A layout of lists that nest deeper than the reader admits is refused though nothing is left out.
-/

import ContextLisp.Proofs.Layout.Bounded
import ContextLisp.Proofs.Reading.FirstForm

namespace ContextLisp

/-! ### Characters of tokens -/

/-- The characters of tokens that are not blank. -/
theorem TokenKind.Describes.solid_chars {kind : TokenKind} {cs : List Char}
    (described : kind.Describes cs) (solid : kind ≠ .blank) {c : Char} (member : c ∈ cs) :
    c ∈ ['(', ')', ':'] ∨ isSymbolPart c = true := by
  have symbol : ∀ {name : List Char}, IsSymbolText name → c ∈ name → isSymbolPart c = true := by
    rintro _ ⟨d, rest, rfl, start, parts⟩ member
    rcases List.mem_cons.mp member with rfl | member
    · simp [isSymbolPart, start]
    · exact parts c member
  have word : ∀ {w : List Char}, w.all isSymbolPart = true → c ∈ w → isSymbolPart c = true :=
    fun letters member => List.all_eq_true.mp letters c member
  cases kind with
  | opening | closing =>
    left
    rw [described] at member
    simp_all
  | blank => exact absurd rfl solid
  | integer =>
    obtain ⟨digits, _, all, rfl | rfl⟩ := described
    · exact .inr (by simp [isSymbolPart, all c member])
    · rcases List.mem_cons.mp member with rfl | member
      · exact .inr (by decide)
      · exact .inr (by simp [isSymbolPart, all c member])
  | boolean =>
    rcases described with rfl | rfl
    · exact .inr (word (by decide) member)
    · exact .inr (word (by decide) member)
  | nil =>
    subst described
    exact .inr (word (by decide) member)
  | keyword =>
    obtain ⟨name, rfl, shaped⟩ := described
    rcases List.mem_cons.mp member with rfl | member
    · exact .inl (by simp)
    · exact .inr (symbol shaped member)
  | symbol => exact .inr (symbol described member)
  | other => cases described

/-- The characters that tokens consist of. -/
theorem TokenKind.Describes.chars {kind : TokenKind} {cs : List Char}
    (described : kind.Describes cs) {c : Char} (member : c ∈ cs) :
    c ∈ ['(', ')', ':'] ∨ Text.isBlank c = true ∨ isSymbolPart c = true := by
  by_cases blank : kind = .blank
  · subst blank
    exact .inr (.inl (described.2 c member))
  · exact (described.solid_chars blank member).imp_right .inr

theorem ellipsis_beginsNoToken (rest : List Char) : BeginsNoToken '…' rest where
  visible := by decide
  noOpening := by decide
  noClosing := by decide
  noDigit := by decide
  noSymbol := by decide
  noKeyword colon := absurd colon (by decide)

/-- A text that can be cut to its end holds no ellipsis. -/
theorem ellipsis_not_mem {cs : List Char} {roles : List TokenRole} (cut : HasRoles cs roles) :
    '…' ∉ cs := by
  intro member
  obtain ⟨toEnd, -⟩ := cut 0
  have whole := Lexing.ofChars_ends 0 cs
  rw [toEnd] at whole
  rw [← whole, textOf, List.mem_flatMap] at member
  obtain ⟨t, among, inside⟩ := member
  rcases (Token.describes (Lexing.first?_of_mem_tokens among)).chars inside with
    mark | blank | part
  · exact absurd mark (by decide)
  · exact absurd blank (by decide)
  · exact absurd part (by decide)

/-! ### Texts that come to an ellipsis -/

/-- The text holds an ellipsis and can be cut up to it. It begins with no blank. -/
def Stalls (cs : List Char) : Prop :=
  ∃ front back roles, cs = front ++ '…' :: back ∧ HasRoles front roles ∧
    ∀ c ∈ front.head?, Text.isBlank c = false

theorem Stalls.append {cs : List Char} (stalls : Stalls cs) (ds : List Char) :
    Stalls (cs ++ ds) := by
  obtain ⟨front, back, roles, rfl, cut, visible⟩ := stalls
  exact ⟨front, back ++ ds, roles, by simp, cut, visible⟩

/-- A complete text in front of it does not hide the ellipsis. -/
theorem Stalls.behind {cs gap ds : List Char} {roles : List TokenRole} (stalls : Stalls ds)
    (apart : IsGap gap) (adds : AddsRoles cs roles) (begins : BeginsVisibly cs) :
    Stalls (cs ++ (gap ++ ds)) := by
  obtain ⟨front, back, more, rfl, cut, visible⟩ := stalls
  refine ⟨cs ++ (gap ++ front), back, roles ++ more, by simp, ?_, begins.head _⟩
  exact adds _ _ (apart.stops_append front) (hasRoles_gap apart visible cut)

/-- Nor does a parenthesis. -/
theorem Stalls.opened {cs : List Char} (stalls : Stalls cs) : Stalls ('(' :: cs) := by
  obtain ⟨front, back, roles, rfl, cut, -⟩ := stalls
  refine ⟨'(' :: front, back, .opening :: roles, rfl, ?_, ?_⟩
  · exact hasRoles_token ⟨.opening, "(", 0⟩ (TokenKind.first?_opening front) cut
  · rintro c ⟨⟩
    decide

/-- The text is refused at its first ellipsis. -/
theorem Stalls.refused {text : String} (stalls : Stalls text.toList) :
    '…' ∈ text.toList ∧ parseAll text = .error (.malformed
      ⟨.badCharacter '…', some (text.toList.idxOf '…'), some text⟩) := by
  obtain ⟨front, back, roles, whole, cut, -⟩ := stalls
  have stuck : (Lexing.ofChars 0 text.toList).stuck = some (front.length, '…') := by
    have stops : StopsSymbol ('…' :: back) := stopsSymbol_cons (by decide) back
    have missing : TokenKind.first? ('…' :: back) = none :=
      TokenKind.first?_eq_none_iff.mpr (ellipsis_beginsNoToken back)
    rw [whole, (Lexing.significant_append stops (cut 0).1).2, Lexing.ofChars_of_stuck missing,
      Nat.zero_add]
  have place : text.toList.idxOf '…' = front.length := by
    rw [whole, List.idxOf_append_of_notMem (ellipsis_not_mem cut), List.idxOf_cons_self,
      Nat.add_zero]
  refine ⟨by simp [whole], ?_⟩
  rw [parseAll_eq, stuck, place]

/-! ### What layouts show -/

namespace Value

/-- The text spells the value, or it comes to an ellipsis if not all of the value lies above the
greatest depth. -/
structure Shows (deepest depth : Int) (v : Value) (text : String) : Prop where
  whole : v.WithinDepth deepest depth → v.SpelledBy text
  truncated : ¬ v.WithinDepth deepest depth → Stalls text.toList

section

variable {width deepest indent depth : Int} {gap : String} {vs : List Value} {texts : List String}

end

end Value

/-- A text that spells a value which nests too deeply is refused where it begins. -/
theorem Value.SpelledBy.refused {v : Value} {text : String} (spelled : v.SpelledBy text)
    (deep : nestingLimit < v.nesting) :
    parseAll text = .error (.malformed ⟨.tooDeep, some 0, some text⟩) := by
  obtain ⟨toEnd, roles⟩ := spelled.hasRoles 0
  have cut : tokenize text = .ok (Lexing.ofChars 0 text.toList).tokens := by
    rw [tokenize_eq_ok_iff, Lexing.ofSource, ← toEnd]
  cases outcome : readForm [] (Lexing.ofChars 0 text.toList).tokens with
  | mk result later =>
    have stopped := refusedIfDeep v _ [] [] (by rw [roles, List.append_nil]) (Nat.zero_le _)
      (by rwa [List.length_nil, Nat.zero_add])
    rw [outcome] at stopped
    obtain rfl : result = .error .tooDeep := stopped
    cases significant : skipBlanks (Lexing.ofChars 0 text.toList).tokens with
    | nil =>
      rw [skipBlanks_eq_nil_iff, roles] at significant
      exact absurd significant v.spelling_ne_nil
    | cons first rest =>
      obtain ⟨begins, -, all⟩ := refused_of_first cut significant outcome
      obtain ⟨c, cs, shape, visible⟩ := spelled.visible
      rw [begins, shape, Text.leadingBlanks, List.takeWhile_cons_of_neg (by simp [visible])] at all
      exact all

end ContextLisp
