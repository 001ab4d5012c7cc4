/-
# Why a text is refused

A text is refused for a fault in it, which is told with its offset and the text, or because it
holds an integer with more digits than can be read. That the cut and the scan of parentheses
decide between the faults is another matter; here it only counts that there is nothing else.
-/

import ContextLisp.Proofs.Reading.Grammar

namespace ContextLisp

/-! ### Numerals that cannot be read -/

theorem badNumeral_of_shift {stack : List OpenList} {t : Token}
    (stopped : shift stack t = .stop (.error .numeral)) : t.role = .badNumeral := by
  cases role : t.role with
  | badNumeral => rfl
  | opening =>
    simp only [shift, role] at stopped
    split at stopped <;> cases stopped
  | closing =>
    cases stack with
    | nil => simp [shift, role] at stopped
    | cons inner outer =>
      rw [shift_closing role] at stopped
      cases outer <;> cases stopped
  | atom v =>
    rw [shift_atom role] at stopped
    cases stack <;> cases stopped
  | blank | stray => simp [shift, role] at stopped

theorem exists_badNumeral_of_readForm {stack : List OpenList} {ts rest : List Token}
    (failed : readForm stack ts = (.error .numeral, rest)) : ∃ t ∈ ts, t.role = .badNumeral := by
  induction ts generalizing stack with
  | nil => cases stack <;> cases failed
  | cons t ts ih =>
    rw [readForm_cons] at failed
    cases shifted : shift stack t with
    | goOn next =>
      rw [shifted] at failed
      obtain ⟨u, member, role⟩ := ih failed
      exact ⟨u, List.mem_cons_of_mem t member, role⟩
    | stop outcome =>
      rw [shifted] at failed
      cases failed
      exact ⟨t, List.mem_cons_self, badNumeral_of_shift shifted⟩

theorem exists_badNumeral_of_readAll {ts : List Token} {start : Int}
    (failed : readAll ts = .error (.numeral, start)) : ∃ t ∈ ts, t.role = .badNumeral := by
  fun_induction readAll ts with
  | case1 => cases failed
  | case2 ts first rest significant fault later outcome =>
    cases failed
    obtain ⟨t, member, role⟩ := exists_badNumeral_of_readForm outcome
    exact ⟨t, (skipBlanks_suffix ts).mem (significant ▸ member), role⟩
  | case3 ts first rest significant v later outcome fault failedLater ih =>
    cases failed
    obtain ⟨t, member, role⟩ := ih failedLater
    have behind := readForm_suffix [] (first :: rest)
    rw [outcome] at behind
    exact ⟨t, (skipBlanks_suffix ts).mem (significant ▸ behind.mem member), role⟩
  | case4 => cases failed

/-- An integer token of the text has more digits than can be read. -/
def HasLongNumeral (source : String) : Prop :=
  ∃ t ∈ (Lexing.ofChars 0 source.toList).tokens,
    t.kind = .integer ∧ Numeral.digitLimit < t.text.toList.countP Char.isDigit

theorem hasLongNumeral_of_badNumeral {source : String} {t : Token}
    (member : t ∈ (Lexing.ofChars 0 source.toList).tokens) (role : t.role = .badNumeral) :
    HasLongNumeral source := by
  have whole : t.IsWhole := Lexing.first?_of_mem_tokens member
  by_contra short
  refine (Token.isLegible_of_isWhole whole fun kind => ?_).numeral role
  exact Nat.le_of_not_lt fun long => short ⟨t, member, kind, long⟩

/-! ### Refused texts -/

/-- What a text can be refused for. -/
inductive Refused (source : String) : Error → Prop
  | malformed (fault : SyntaxFault) (offset : Int) :
      Refused source (.malformed ⟨fault, some offset, some source⟩)
  | numeral (long : HasLongNumeral source) : Refused source .numeral

theorem refused_of_tokenize {source : String} {e : SyntaxError}
    (uncut : tokenize source = .error e) : Refused source (.malformed e) := by
  rw [tokenize, Lexing.error?] at uncut
  cases place : (Lexing.ofSource source).stuck with
  | none =>
    rw [place] at uncut
    cases uncut
  | some place =>
    rw [place] at uncut
    cases uncut
    exact .malformed _ _

/-- A fault of the tokens is one of the text, wherever the form is said to begin. -/
theorem ReadFault.refused {source : String} {fault : ReadFault} (start : Int)
    (numeral : fault = .numeral → HasLongNumeral source) :
    Refused source (fault.toErrorAt source start) := by
  cases fault with
  | numeral => exact .numeral (numeral rfl)
  | _ => exact .malformed _ _

theorem refused_of_parse {source : String} {e : Error} (refused : parse source = .error e) :
    Refused source e := by
  unfold parse at refused
  split at refused
  · cases refused
    exact refused_of_tokenize ‹_›
  · rename_i tokens cut
    cases outcome : readForm [] tokens with
    | mk result rest =>
      rw [outcome] at refused
      cases result with
      | ok v => cases refused
      | error fault =>
        cases refused
        apply ReadFault.refused
        rintro rfl
        obtain ⟨t, member, role⟩ := exists_badNumeral_of_readForm outcome
        exact hasLongNumeral_of_badNumeral (tokens_of_tokenize cut ▸ member) role

theorem refused_of_parseAll {source : String} {e : Error} (refused : parseAll source = .error e) :
    Refused source e := by
  unfold parseAll at refused
  split at refused
  · cases refused
    exact refused_of_tokenize ‹_›
  · rename_i tokens cut
    cases outcome : readAll tokens with
    | ok vs =>
      rw [outcome] at refused
      cases refused
    | error failure =>
      obtain ⟨fault, start⟩ := failure
      rw [outcome] at refused
      cases refused
      apply ReadFault.refused
      rintro rfl
      obtain ⟨t, member, role⟩ := exists_badNumeral_of_readAll outcome
      exact hasLongNumeral_of_badNumeral (tokens_of_tokenize cut ▸ member) role

end ContextLisp
