/-
# The first form of a text

A text can be read for its first form alone, or for all its forms. The second way looks for the
next token that is not blank before each form, and tells where a form begins by that token; the
first way begins to read at once, and tells by the blanks in front of the text. Both come to the
same: if there is a first form both give it, and if there is none, or it cannot be read, they
are refused for the same reason at the same place. Only what comes behind the first form is the
business of the second way alone. A text that fails there falls apart, at a seam, into one that
is read as the first form and one that is refused for the same reason.
-/

import ContextLisp.Proofs.Reading.Segmentation

namespace ContextLisp

/-! ### Where the first form begins -/

/-- The first token that is not blank stands behind the blanks in front of the text. -/
theorem offset_of_skipBlanks {offset : Nat} {cs : List Char} {first : Token} {rest : List Token}
    (significant : skipBlanks (Lexing.ofChars offset cs).tokens = first :: rest) :
    first.offset = offset + Text.leadingBlanks cs := by
  have solids : (Lexing.ofChars offset cs).significant = first :: solid rest := by
    rw [Lexing.significant, ← solid_skipBlanks, significant,
      solid_of_visible (kind_ne_blank_of_skipBlanks significant)]
  rw [(Lexing.sameButBlanks_dropWhile offset cs).significant, Lexing.significant] at solids
  cases cut : (Lexing.ofChars (offset + (cs.takeWhile Text.isBlank).length)
      (cs.dropWhile Text.isBlank)).tokens with
  | nil =>
    rw [cut] at solids
    cases solids
  | cons t later =>
    obtain ⟨n, found, shape, -⟩ := Lexing.first?_of_tokens_cons cut
    have visible : t.kind ≠ .blank := by
      intro blank
      rw [blank] at found
      have length := TokenKind.eq_matchLength_of_firstOf found
      have none : ((cs.dropWhile Text.isBlank).takeWhile Text.isBlank) = [] :=
        List.takeWhile_eq_nil_iff.mpr (List.dropWhile_get_zero_not Text.isBlank cs)
      rw [TokenKind.matchLength_blank, none] at length
      exact absurd length (TokenKind.firstOf_pos found).ne'
    rw [cut, solid_of_visible visible] at solids
    rw [← (List.cons.inj solids).1, shape]
    exact Int.natCast_add _ _

/-! ### Tokens up to the end of a form -/

/-- A form is read from its own tokens alone. -/
theorem readForm_before {stack : List OpenList} {before later : List Token} {v : Value}
    (read : readForm stack (before ++ later) = (.ok v, later)) :
    readForm stack before = (.ok v, []) := by
  induction before generalizing stack with
  | nil =>
    exact absurd (length_lt_of_readForm_ok read) (Nat.lt_irrefl _)
  | cons t before ih =>
    rw [List.cons_append, readForm_cons] at read
    rw [readForm_cons]
    cases shifted : shift stack t with
    | goOn next =>
      rw [shifted] at read
      exact ih read
    | stop outcome =>
      rw [shifted] at read
      obtain ⟨rfl, rest⟩ := Prod.mk.inj read
      have none : before = [] := by simpa using rest
      rw [none]
      rfl

theorem readAll_of_one {ts : List Token} {v : Value} (read : readForm [] ts = (.ok v, [])) :
    readAll ts = .ok [v] := by
  have some : skipBlanks ts ≠ [] := by
    intro blank
    rw [← readForm_skipBlanks, blank] at read
    cases read
  rw [readAll_of_ok some (by rwa [readForm_skipBlanks]), readAll_of_blank rfl]
  rfl

/-! ### What is wrong behind the first form -/

/-- The text falls apart into one that is read as this form alone, and one that is refused: with
this error, seen from where the whole text begins. -/
def FailsBehind (source : String) (v : Value) (e : Error) : Prop :=
  ∃ front back : String, front ++ back = source ∧ parseAll front = .ok [v] ∧
    ∃ alone, parseAll back = .error alone ∧ e = alone.movedInto source front.length

theorem ReadFault.moved_back (distance : Int) (fault : ReadFault) :
    (fault.moved (-distance)).moved distance = fault := by
  cases fault <;> simp [ReadFault.moved, Token.moved]

theorem failsBehind_of_readAll {source : String} {tokens later : List Token} {v : Value}
    {fault : ReadFault} {start : Int} (cut : tokenize source = .ok tokens)
    (read : readForm [] tokens = (.ok v, later)) (failed : readAll later = .error (fault, start)) :
    FailsBehind source v (fault.toErrorAt source start) := by
  have suffix : later <:+ tokens := by
    have left := readForm_suffix [] tokens
    rwa [read] at left
  obtain ⟨before, rfl⟩ := suffix
  have whole := tokenize_eq_ok_iff.mp cut
  obtain ⟨prefixOf, -, -⟩ := Lexing.ofChars_seam (congrArg Lexing.tokens whole)
  obtain ⟨alone, stuck, never, behind⟩ := ofSource_seam whole
  obtain rfl := Option.map_eq_none_iff.mp never.symm
  generalize length : (textOf before).length = q at alone behind
  have within : q ≤ source.toList.length := length ▸ prefixOf.length_le
  have longer : source.length = (String.ofList (source.toList.drop q)).length + q := by
    rw [String.length_ofList, List.length_drop, ← String.length_toList]
    omega
  refine ⟨String.ofList (source.toList.take q), String.ofList (source.toList.drop q), ?_, ?_,
    (fault.moved (-q)).toErrorAt (String.ofList (source.toList.drop q)) (start + -q), ?_, ?_⟩
  · rw [← String.ofList_append, List.take_append_drop, String.ofList_toList]
  · rw [parseAll_of_tokenize (tokenize_eq_ok_iff.mpr alone), readAll_of_one (readForm_before read)]
    rfl
  · rw [parseAll_of_tokenize (tokenize_eq_ok_iff.mpr behind), readAll_moved, failed]
    rfl
  · have moved := toErrorAt_moved longer (start + -q) (fault.moved (-q))
    rw [ReadFault.moved_back, Int.neg_add_cancel_right] at moved
    rw [moved, String.length_ofList, List.length_take_of_le within]

/-! ### The first form alone, and all forms -/

/-- How reading the first form alone and reading all forms can come out together. -/
inductive ReadTogether (source : String) :
    Except Error Value → Except Error (List Value) → Prop
  | noForm : ReadTogether source
      (.error (.malformed ⟨.noForm, some source.length, some source⟩)) (.ok [])
  | forms (v : Value) (vs : List Value) : ReadTogether source (.ok v) (.ok (v :: vs))
  | refused (e : Error) : ReadTogether source (.error e) (.error e)
  | behind (v : Value) (e : Error) (fails : FailsBehind source v e) :
      ReadTogether source (.ok v) (.error e)

section

variable {source : String} {tokens : List Token}

theorem parse_of_tokenize (cut : tokenize source = .ok tokens) :
    parse source = (readForm [] tokens).1.mapError
      (ReadFault.toErrorAt source (Text.leadingBlanks source.toList)) := by
  rw [parse, cut]

/-- Both ways tell a fault of the first form with the same offset. -/
theorem refused_of_first {first : Token} {rest later : List Token} {fault : ReadFault}
    (cut : tokenize source = .ok tokens) (significant : skipBlanks tokens = first :: rest)
    (failed : readForm [] tokens = (.error fault, later)) :
    first.offset = Text.leadingBlanks source.toList ∧
      parse source = .error (fault.toErrorAt source first.offset) ∧
      parseAll source = .error (fault.toErrorAt source first.offset) := by
  have begins : first.offset = Text.leadingBlanks source.toList := by
    rw [tokens_of_tokenize cut] at significant
    simpa using offset_of_skipBlanks significant
  refine ⟨begins, ?_, ?_⟩
  · rw [parse_of_tokenize cut, failed, begins]
    rfl
  · rw [← readForm_skipBlanks, significant] at failed
    rw [parseAll_of_tokenize cut, readAll_of_first significant, failed]
    rfl

theorem readTogether_of_first {first : Token} {rest later : List Token} {v : Value}
    (cut : tokenize source = .ok tokens) (significant : skipBlanks tokens = first :: rest)
    (read : readForm [] tokens = (.ok v, later)) :
    ReadTogether source (parse source) (parseAll source) := by
  have one : parse source = .ok v := by
    rw [parse_of_tokenize cut, read]
    rfl
  have all : readAll tokens = (readAll later).map (v :: ·) := by
    rw [← readForm_skipBlanks, significant] at read
    rw [readAll_of_first significant, read]
  rw [one, parseAll_of_tokenize cut, all]
  cases others : readAll later with
  | ok vs => exact .forms v vs
  | error failure => exact .behind v _ (failsBehind_of_readAll cut read others)

end

theorem readTogether (source : String) :
    ReadTogether source (parse source) (parseAll source) := by
  cases cut : tokenize source with
  | error e =>
    rw [parse, parseAll, cut]
    exact .refused (.malformed e)
  | ok tokens =>
    cases significant : skipBlanks tokens with
    | nil =>
      rw [parse_of_tokenize cut, ← readForm_skipBlanks, parseAll_of_tokenize cut,
        readAll_of_blank significant, significant]
      exact .noForm
    | cons first rest =>
      cases read : readForm [] tokens with
      | mk outcome later =>
        cases outcome with
        | ok v => exact readTogether_of_first cut significant read
        | error fault =>
          obtain ⟨-, one, all⟩ := refused_of_first cut significant read
          rw [one, all]
          exact .refused _

/-- Reading the first form of a text alone and reading it among all forms come to the same. A
text that cannot be cut into tokens is refused alike. If there are forms, the first of them is
the one that is read alone; if there is none, reading one is refused at the end of the text. An
error among all forms is that of the first form alone, or the first form can be read and the
error lies behind it. A first form that nests too deeply is blamed on the place where it begins,
which is behind the blanks in front of the text, and is the same for both. -/
theorem first_form_alone_and_among_all (source : String) :
    (∀ e, tokenize source = .error e →
      parse source = .error (.malformed e) ∧ parseAll source = .error (.malformed e)) ∧
    (∀ v vs, parseAll source = .ok (v :: vs) → parse source = .ok v) ∧
    (parseAll source = .ok [] →
      parse source = .error (.malformed ⟨.noForm, some source.length, some source⟩) ∧
      SyntaxFault.noForm.message = "No tokens to compile for form") ∧
    (∀ e, parseAll source = .error e →
      parse source = .error e ∨ ∃ v, parse source = .ok v ∧ FailsBehind source v e) ∧
    ∀ tokens, tokenize source = .ok tokens → (readForm [] tokens).1 = .error .tooDeep →
      ∃ first rest, skipBlanks tokens = first :: rest ∧
        first.offset = (Text.leadingBlanks source.toList : Int) ∧
        parse source = .error (.malformed ⟨.tooDeep, some (Text.leadingBlanks source.toList),
          some source⟩) ∧
        parseAll source = .error (.malformed ⟨.tooDeep, some first.offset, some source⟩) := by
  have together := readTogether source
  refine ⟨?_, ?_, ?_, ?_, ?_⟩
  · intro e uncut
    rw [parse, parseAll, uncut]
    exact ⟨rfl, rfl⟩
  · intro v vs all
    rw [all] at together
    generalize parse source = one at together ⊢
    cases together with
    | forms => rfl
  · intro all
    rw [all] at together
    generalize parse source = one at together ⊢
    cases together with
    | noForm => exact ⟨rfl, rfl⟩
  · intro e all
    rw [all] at together
    generalize parse source = one at together ⊢
    cases together with
    | refused => exact .inl rfl
    | behind v _ fails => exact .inr ⟨v, rfl, fails⟩
  · intro tokens cut deep
    cases read : readForm [] tokens with
    | mk outcome later =>
      rw [read] at deep
      obtain rfl : outcome = .error .tooDeep := deep
      cases significant : skipBlanks tokens with
      | nil =>
        rw [← readForm_skipBlanks, significant] at read
        cases read
      | cons first rest =>
        obtain ⟨begins, one, all⟩ := refused_of_first cut significant read
        rw [begins] at one
        exact ⟨first, rest, rfl, begins, one, all⟩

/-- More opening tokens than lists may be open nest too deeply, whatever was open before. -/
theorem readForm_of_openings {stack : List OpenList} {ts : List Token}
    (opens : ∀ t ∈ ts, t.role = .opening) (within : stack.length ≤ nestingLimit)
    (deep : nestingLimit < stack.length + ts.length) :
    (readForm stack ts).1 = .error .tooDeep := by
  induction ts generalizing stack with
  | nil => exact absurd deep (Nat.not_lt.mpr within)
  | cons t ts ih =>
    obtain ⟨opening, others⟩ := List.forall_mem_cons.mp opens
    rw [List.length_cons] at deep
    rw [readForm_cons]
    by_cases room : stack.length < nestingLimit
    · rw [shift_opening opening room]
      exact ih others room (by rw [List.length_cons]; omega)
    · simp [shift, opening, room, Shift.proceed]

/-- A blank and more opening parentheses than lists may be open. -/
def deepText : String := String.ofList (' ' :: List.replicate (nestingLimit + 1) '(')

theorem ofChars_openings (offset n : Nat) :
    ∃ ts, Lexing.ofChars offset (List.replicate n '(') = ⟨ts, none⟩ ∧ ts.length = n ∧
      ∀ t ∈ ts, t.role = .opening := by
  induction n generalizing offset with
  | zero => exact ⟨[], Lexing.ofChars_nil offset, rfl, nofun⟩
  | succ n ih =>
    obtain ⟨ts, cut, length, opens⟩ := ih (offset + 1)
    refine ⟨⟨.opening, "(", offset⟩ :: ts, ?_, by rw [List.length_cons, length], ?_⟩
    · rw [List.replicate_succ, Lexing.ofChars_of_first? (TokenKind.first?_opening _)]
      simp [cut]
    · exact List.forall_mem_cons.mpr ⟨rfl, opens⟩

theorem exists_tokens_of_deepText :
    ∃ tokens, tokenize deepText = .ok tokens ∧ (readForm [] tokens).1 = .error .tooDeep := by
  obtain ⟨ts, cut, length, opens⟩ := ofChars_openings 1 (nestingLimit + 1)
  have blank : TokenKind.first? (' ' :: List.replicate (nestingLimit + 1) '(') =
      some (.blank, 1) := by
    apply TokenKind.first?_space
    rintro c ⟨rfl⟩
    decide
  refine ⟨⟨.blank, " ", 0⟩ :: ts, ?_, ?_⟩
  · rw [tokenize_eq_ok_iff, Lexing.ofSource, deepText, String.toList_ofList,
      Lexing.ofChars_of_first? blank]
    simp [cut]
  · rw [readForm_cons, shift_blank rfl]
    exact readForm_of_openings opens (Nat.zero_le _) (by rw [length, List.length_nil]; omega)

/-- A symbol in front of a stray parenthesis is read, and the parenthesis blamed only if all is
read; a text of blanks has no first form; a comma refuses everything; and lists that nest too
deeply are blamed on the first of them. -/
theorem brackets_alone_and_among_all :
    parse " a) (" = .ok (.symbol "a") ∧
    FailsBehind " a) (" (.symbol "a") (.malformed ⟨.unexpected ")", some 2, some " a) ("⟩) ∧
    parse " \n" = .error (.malformed ⟨.noForm, some 2, some " \n"⟩) ∧
    parse "(a) ," = .error (.malformed ⟨.badCharacter ',', some 4, some "(a) ,"⟩) ∧
    parse deepText = .error (.malformed ⟨.tooDeep, some 1, some deepText⟩) ∧
    parseAll deepText = .error (.malformed ⟨.tooDeep, some 1, some deepText⟩) := by
  have stray : parseAll " a) (" =
      .error (.malformed ⟨.unexpected ")", some 2, some " a) ("⟩) := by cbv
  have symbol : parse " a) (" = .ok (.symbol "a") := by cbv
  have blanks : parseAll " \n" = .ok [] := by cbv
  have comma : tokenize "(a) ," = .error ⟨.badCharacter ',', some 4, some "(a) ,"⟩ := by cbv
  obtain ⟨tokens, cut, deep⟩ := exists_tokens_of_deepText
  have begins : Text.leadingBlanks deepText.toList = 1 := by
    rw [deepText, String.toList_ofList]
    rfl
  obtain ⟨-, -, -, later, -⟩ := first_form_alone_and_among_all " a) ("
  obtain ⟨-, -, empty, -⟩ := first_form_alone_and_among_all " \n"
  obtain ⟨uncut, -⟩ := first_form_alone_and_among_all "(a) ,"
  obtain ⟨-, -, -, -, nested⟩ := first_form_alone_and_among_all deepText
  obtain ⟨first, rest, -, place, one, all⟩ := nested tokens cut deep
  rw [begins] at place one
  rw [place] at all
  refine ⟨symbol, ?_, (empty blanks).1, (uncut _ comma).1, one, all⟩
  rcases later _ stray with same | ⟨v, read, fails⟩
  · rw [symbol] at same
    cases same
  · rw [symbol] at read
    cases read
    exact fails

end ContextLisp
