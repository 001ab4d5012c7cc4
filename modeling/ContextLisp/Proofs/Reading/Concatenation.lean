/-
# Texts that are joined

A text that stands behind another one, with a blank between them, is cut as it is cut alone:
the blank stops whatever symbol or number comes before it, and what comes after it does not
look back. Only the blank runs themselves can grow together. So apart from blank runs the
tokens of the joined text are those of the first text and then those of the second, each of
these moved on by what stands before it.

The reader passes over blank tokens, comes to the second text with no list open once it has
read all of the first, and does nothing with offsets but tell them. So a text that can be
read, in front of another one, adds its forms to what is read from that one, and moves on the
place of whatever is wrong there.
-/

import ContextLisp.Proofs.Reading.Refusal

namespace ContextLisp

/-! ### The tokens that count -/

/-- The tokens that are not blank. -/
def solid (ts : List Token) : List Token := ts.filter fun t => t.kind ≠ .blank

theorem solid_of_blank {t : Token} (blank : t.kind = .blank) (ts : List Token) :
    solid (t :: ts) = solid ts := by
  simp [solid, blank]

theorem solid_of_visible {t : Token} (visible : t.kind ≠ .blank) (ts : List Token) :
    solid (t :: ts) = t :: solid ts := by
  simp [solid, visible]

theorem kind_ne_blank_of_skipBlanks {ts rest : List Token} {first : Token}
    (significant : skipBlanks ts = first :: rest) : first.kind ≠ .blank := by
  intro blank
  have stops := List.head?_dropWhile_not (fun t : Token => t.kind == .blank) ts
  rw [← skipBlanks, significant] at stops
  simp [blank] at stops

theorem solid_skipBlanks (ts : List Token) : solid (skipBlanks ts) = solid ts := by
  induction ts with
  | nil => rfl
  | cons t ts ih =>
    by_cases blank : t.kind = .blank
    · rw [solid_of_blank blank, ← ih, skipBlanks_of_blank blank]
    · rw [skipBlanks_of_visible blank]

theorem skipBlanks_solid {ts rest : List Token} {first : Token}
    (significant : skipBlanks ts = first :: rest) :
    skipBlanks (solid ts) = first :: solid rest := by
  have visible := kind_ne_blank_of_skipBlanks significant
  rw [← solid_skipBlanks, significant, solid_of_visible visible, skipBlanks_of_visible visible]

/-- The reader passes over blank tokens. -/
theorem readForm_solid (stack : List OpenList) (ts : List Token) :
    readForm stack (solid ts) = ((readForm stack ts).1, solid (readForm stack ts).2) := by
  induction ts generalizing stack with
  | nil => rfl
  | cons t ts ih =>
    by_cases blank : t.kind = .blank
    · rw [solid_of_blank blank, ih, readForm_cons, shift_blank (role_of_blank blank)]
      rfl
    · rw [solid_of_visible blank, readForm_cons, readForm_cons]
      cases shift stack t with
      | goOn next => exact ih next
      | stop outcome => rfl

/-- What is read from tokens that are not all blank, by what the first form comes to. -/
theorem readAll_of_first {ts rest : List Token} {first : Token}
    (significant : skipBlanks ts = first :: rest) :
    readAll ts =
      match readForm [] (first :: rest) with
      | (.error fault, _) => .error (fault, first.offset)
      | (.ok v, later) => (readAll later).map (v :: ·) := by
  rw [readAll]
  split
  · rename_i blank
    rw [significant] at blank
    cases blank
  · rename_i shape
    obtain ⟨rfl, rfl⟩ := List.cons.inj (significant.symm.trans shape)
    split
    · rename_i failed
      rw [failed]
    · rename_i later found
      rw [found]
      dsimp only
      cases readAll later <;> rfl

theorem readAll_solid_of_first {ts rest : List Token} {first : Token}
    (significant : skipBlanks ts = first :: rest) :
    readAll (solid ts) =
      match readForm [] (first :: rest) with
      | (.error fault, _) => .error (fault, first.offset)
      | (.ok v, later) => (readAll (solid later)).map (v :: ·) := by
  rw [readAll_of_first (skipBlanks_solid significant),
    ← solid_of_visible (kind_ne_blank_of_skipBlanks significant), readForm_solid]
  obtain ⟨outcome, later⟩ := readForm [] (first :: rest)
  cases outcome <;> rfl

theorem readAll_solid (ts : List Token) : readAll (solid ts) = readAll ts := by
  fun_induction readAll ts with
  | case1 ts blank =>
    rw [← solid_skipBlanks, blank]
    exact readAll_of_blank rfl
  | case2 ts first rest significant fault later outcome =>
    rw [readAll_solid_of_first significant, outcome]
  | case3 ts first rest significant v later outcome fault failed ih =>
    rw [readAll_solid_of_first significant, outcome]
    simp only [ih, failed]
    rfl
  | case4 ts first rest significant v later outcome vs read ih =>
    rw [readAll_solid_of_first significant, outcome]
    simp only [ih, read]
    rfl

/-! ### Tokens behind those of a text that can be read -/

/-- A form that is complete does not depend on what follows it. -/
theorem readForm_append {stack : List OpenList} {ts rest : List Token} {v : Value}
    (read : readForm stack ts = (.ok v, rest)) (us : List Token) :
    readForm stack (ts ++ us) = (.ok v, rest ++ us) := by
  induction ts generalizing stack with
  | nil => cases read
  | cons t ts ih =>
    rw [readForm_cons] at read
    rw [List.cons_append, readForm_cons]
    cases shifted : shift stack t with
    | goOn next =>
      rw [shifted] at read
      exact ih read
    | stop outcome =>
      rw [shifted] at read
      cases read
      rfl

/-- Behind tokens that are read, reading goes on as if it began there. -/
theorem readAll_append {ts : List Token} {vs : List Value} (read : readAll ts = .ok vs)
    (us : List Token) : readAll (ts ++ us) = (readAll us).map (vs ++ ·) := by
  fun_induction readAll ts generalizing vs with
  | case1 ts blank =>
    cases read
    have none : solid ts = [] := by rw [← solid_skipBlanks, blank, solid, List.filter_nil]
    rw [← readAll_solid, solid, List.filter_append, ← solid, ← solid, none, List.nil_append,
      readAll_solid]
    cases readAll us <;> rfl
  | case2 => cases read
  | case3 => cases read
  | case4 ts first rest significant v later outcome ws readRest ih =>
    cases read
    have front : skipBlanks (ts ++ us) = first :: (rest ++ us) := by
      have some : (ts.dropWhile fun t => t.kind == .blank).isEmpty = false := by
        rw [← skipBlanks, significant, List.isEmpty_cons]
      rw [skipBlanks, List.dropWhile_append, if_neg (by simp [some]), ← skipBlanks, significant,
        List.cons_append]
    rw [readAll_of_first front, ← List.cons_append, readForm_append outcome]
    simp only [ih readRest]
    cases readAll us <;> rfl

/-! ### Tokens that are moved on -/

/-- The token further on in a text. -/
def Token.moved (distance : Int) (t : Token) : Token := { t with offset := t.offset + distance }

/-- The open list further on in a text. -/
def OpenList.moved (distance : Int) (inner : OpenList) : OpenList :=
  { inner with offset := inner.offset + distance }

/-- The fault further on in a text. -/
def ReadFault.moved (distance : Int) : ReadFault → ReadFault
  | .unclosed offset => .unclosed (offset + distance)
  | .unexpected t => .unexpected (t.moved distance)
  | fault => fault

/-- What a token further on brings about. -/
def Shift.moved (distance : Int) : Shift → Shift
  | .goOn stack => .goOn (stack.map (OpenList.moved distance))
  | .stop outcome => .stop (outcome.mapError (ReadFault.moved distance))

theorem solid_map_moved (distance : Int) (ts : List Token) :
    solid (ts.map (Token.moved distance)) = (solid ts).map (Token.moved distance) := by
  rw [solid, List.filter_map, solid]
  rfl

theorem skipBlanks_map_moved (distance : Int) (ts : List Token) :
    skipBlanks (ts.map (Token.moved distance)) = (skipBlanks ts).map (Token.moved distance) := by
  rw [skipBlanks, List.dropWhile_map, skipBlanks]
  rfl

section

variable (distance : Int)

theorem deliver_moved (v : Value) (stack : List OpenList) :
    deliver v (stack.map (OpenList.moved distance)) = (deliver v stack).moved distance := by
  cases stack <;> rfl

theorem endFault_moved (stack : List OpenList) :
    endFault (stack.map (OpenList.moved distance)) = (endFault stack).moved distance := by
  cases stack <;> rfl

theorem shift_moved (stack : List OpenList) (t : Token) :
    shift (stack.map (OpenList.moved distance)) (t.moved distance) =
      (shift stack t).moved distance := by
  have role : (t.moved distance).role = t.role := rfl
  rw [shift.eq_def, shift.eq_def stack t, role]
  cases t.role with
  | blank => rfl
  | opening =>
    dsimp only
    rw [List.length_map, apply_ite (Shift.moved distance)]
    rfl
  | closing =>
    cases stack with
    | nil => rfl
    | cons inner outer => exact deliver_moved distance _ outer
  | atom v => exact deliver_moved distance v stack
  | badNumeral => rfl
  | stray => rfl

/-- The reader does not ask where tokens are. -/
theorem readForm_moved (stack : List OpenList) (ts : List Token) :
    readForm (stack.map (OpenList.moved distance)) (ts.map (Token.moved distance)) =
      ((readForm stack ts).1.mapError (ReadFault.moved distance),
        (readForm stack ts).2.map (Token.moved distance)) := by
  induction ts generalizing stack with
  | nil => rw [List.map_nil, readForm, endFault_moved]; rfl
  | cons t ts ih =>
    rw [List.map_cons, readForm_cons, shift_moved, readForm_cons]
    cases shift stack t with
    | goOn next => exact ih next
    | stop outcome => rfl

theorem readAll_moved_of_first {ts rest : List Token} {first : Token}
    (significant : skipBlanks ts = first :: rest) :
    readAll (ts.map (Token.moved distance)) =
      match readForm [] (first :: rest) with
      | (.error fault, _) => .error (fault.moved distance, first.offset + distance)
      | (.ok v, later) => (readAll (later.map (Token.moved distance))).map (v :: ·) := by
  have front : skipBlanks (ts.map (Token.moved distance)) =
      first.moved distance :: rest.map (Token.moved distance) := by
    rw [skipBlanks_map_moved, significant, List.map_cons]
  have moved := readForm_moved distance [] (first :: rest)
  rw [List.map_nil] at moved
  rw [readAll_of_first front, ← List.map_cons, moved]
  obtain ⟨outcome, later⟩ := readForm [] (first :: rest)
  cases outcome <;> rfl

theorem readAll_moved (ts : List Token) :
    readAll (ts.map (Token.moved distance)) =
      (readAll ts).mapError fun (fault, start) => (fault.moved distance, start + distance) := by
  fun_induction readAll ts with
  | case1 ts blank => exact readAll_of_blank (by rw [skipBlanks_map_moved, blank, List.map_nil])
  | case2 ts first rest significant fault later outcome =>
    rw [readAll_moved_of_first distance significant, outcome]
    rfl
  | case3 ts first rest significant v later outcome fault failed ih =>
    rw [readAll_moved_of_first distance significant, outcome]
    simp only [ih, failed]
    rfl
  | case4 ts first rest significant v later outcome vs read ih =>
    rw [readAll_moved_of_first distance significant, outcome]
    simp only [ih, read]
    rfl

end

/-! ### Cutting joined texts -/

namespace Lexing

/-- The tokens that are not blank. -/
def significant (lexing : Lexing) : List Token := solid lexing.tokens

theorem significant_cons (t : Token) (lexing : Lexing) :
    (⟨t :: lexing.tokens, lexing.stuck⟩ : Lexing).significant =
      if t.kind = .blank then lexing.significant else t :: lexing.significant := by
  by_cases blank : t.kind = .blank <;> simp [significant, solid, blank]

/-- The same tokens, apart from blank ones, and the same place where the cutting stopped. -/
structure SameButBlanks (first second : Lexing) : Prop where
  significant : first.significant = second.significant
  stuck : first.stuck = second.stuck

theorem SameButBlanks.refl (lexing : Lexing) : lexing.SameButBlanks lexing := ⟨rfl, rfl⟩

theorem SameButBlanks.symm {a b : Lexing} (same : a.SameButBlanks b) : b.SameButBlanks a :=
  ⟨same.significant.symm, same.stuck.symm⟩

theorem SameButBlanks.trans {a b c : Lexing} (first : a.SameButBlanks b)
    (second : b.SameButBlanks c) : a.SameButBlanks c :=
  ⟨first.significant.trans second.significant, first.stuck.trans second.stuck⟩

/-- A text is cut as what follows its leading blanks. -/
theorem sameButBlanks_dropWhile (offset : Nat) (cs : List Char) :
    (ofChars offset cs).SameButBlanks
      (ofChars (offset + (cs.takeWhile Text.isBlank).length) (cs.dropWhile Text.isBlank)) := by
  cases cs with
  | nil => exact .refl _
  | cons c cs =>
    by_cases blank : Text.isBlank c = true
    · have found := TokenKind.first?_of_isBlank blank cs
      have behind : (c :: cs).drop ((c :: cs).takeWhile Text.isBlank).length =
          (c :: cs).dropWhile Text.isBlank := by
        conv => lhs; rhs; rw [← List.takeWhile_append_dropWhile (p := Text.isBlank) (l := c :: cs)]
        exact List.drop_left
      rw [ofChars_of_first? found, behind]
      exact ⟨by rw [significant_cons, if_pos rfl], rfl⟩
    · simpa [blank] using SameButBlanks.refl (ofChars offset (c :: cs))

/-- Blanks in front of a text only move it on. -/
theorem sameButBlanks_append_blanks {blanks : List Char}
    (blank : ∀ c ∈ blanks, Text.isBlank c = true) (offset : Nat) (cs : List Char) :
    (ofChars offset (blanks ++ cs)).SameButBlanks (ofChars (offset + blanks.length) cs) := by
  have whole := sameButBlanks_dropWhile offset (blanks ++ cs)
  rw [List.takeWhile_append_of_pos blank, List.dropWhile_append_of_pos blank,
    List.length_append, ← Nat.add_assoc] at whole
  exact whole.trans (sameButBlanks_dropWhile _ cs).symm

/-- A text that can be cut to its end is cut in the same way in front of a text that stops
symbols, and that text is cut as it is behind it. -/
theorem significant_append {rest : List Char} (stops : StopsSymbol rest) {offset : Nat}
    {cs : List Char} (toEnd : (ofChars offset cs).stuck = none) :
    (ofChars offset (cs ++ rest)).significant =
      (ofChars offset cs).significant ++ (ofChars (offset + cs.length) rest).significant ∧
    (ofChars offset (cs ++ rest)).stuck = (ofChars (offset + cs.length) rest).stuck := by
  fun_induction ofChars offset cs with
  | case1 offset => exact ⟨rfl, rfl⟩
  | case2 => cases toEnd
  | case3 offset c cs kind n found later ih =>
    have within := TokenKind.le_length_of_first? found
    have length : offset + n + ((c :: cs).drop n).length = offset + (c :: cs).length := by
      rw [List.length_drop]
      omega
    obtain ⟨tokens, stuck⟩ := ih toEnd
    rw [length] at tokens stuck
    by_cases blank : kind = .blank
    · subst blank
      -- The run may go on into the other text, so it is passed over on both sides.
      have run : ∀ d ∈ (c :: cs).take n, Text.isBlank d = true := by
        rw [TokenKind.eq_matchLength_of_firstOf found, TokenKind.matchLength_blank]
        intro d member
        rw [← List.prefix_iff_eq_take.mp (List.takeWhile_prefix Text.isBlank)] at member
        exact List.mem_takeWhile_imp member
      have passed := sameButBlanks_append_blanks run offset ((c :: cs).drop n ++ rest)
      rw [← List.append_assoc, List.take_append_drop, List.length_take_of_le within] at passed
      rw [passed.significant, passed.stuck, tokens, stuck, significant_cons, if_pos rfl]
      exact ⟨rfl, rfl⟩
    · have found' := TokenKind.first?_append found blank stops
      rw [ofChars_of_first? found', List.take_append_of_le_length within,
        List.drop_append_of_le_length within, significant_cons, significant_cons, if_neg blank,
        if_neg blank, tokens]
      exact ⟨rfl, stuck⟩

theorem ofChars_of_stuck {c : Char} {cs : List Char}
    (missing : TokenKind.first? (c :: cs) = none) (offset : Nat) :
    ofChars offset (c :: cs) = ⟨[], some (offset, c)⟩ := by
  rw [ofChars]
  split
  · rfl
  · rename_i found
    rw [missing] at found
    cases found

/-- Where a text stands changes the offsets of its tokens only. -/
theorem ofChars_add (offset distance : Nat) (cs : List Char) :
    ofChars (offset + distance) cs =
      ⟨(ofChars offset cs).tokens.map (Token.moved distance),
        (ofChars offset cs).stuck.map fun place => (place.1 + distance, place.2)⟩ := by
  fun_induction ofChars offset cs with
  | case1 offset => rw [ofChars_nil]; rfl
  | case2 offset c cs missing => rw [ofChars_of_stuck missing]; rfl
  | case3 offset c cs kind n found later ih =>
    rw [ofChars_of_first? found, Nat.add_right_comm, ih]
    rfl

theorem significant_ofChars_add (offset distance : Nat) (cs : List Char) :
    (ofChars (offset + distance) cs).significant =
      (ofChars offset cs).significant.map (Token.moved distance) := by
  rw [significant, ofChars_add, significant, solid_map_moved]

end Lexing

/-! ### Reading joined texts -/

/-- The error of a text as that of a text at whose end it stands. -/
def Error.movedInto (source : String) (distance : Int) : Error → Error
  | .malformed e => .malformed ⟨e.fault, e.offset.map (· + distance), some source⟩
  | e => e

theorem toErrorAt_moved {back joined : String} {distance : Nat}
    (longer : joined.length = back.length + distance) (start : Int) (fault : ReadFault) :
    (fault.moved distance).toErrorAt joined (start + distance) =
      (fault.toErrorAt back start).movedInto joined distance := by
  cases fault with
  | noForm =>
    have ends : (joined.length : Int) = back.length + distance := by omega
    simp only [ReadFault.moved, ReadFault.toErrorAt, ReadFault.toError, Error.movedInto, ends,
      Option.map_some]
  | _ => rfl

/-- A text is read from those of its tokens that are not blank, if it can be cut to its end. -/
theorem parseAll_eq (source : String) :
    parseAll source =
      match (Lexing.ofChars 0 source.toList).stuck with
      | some (offset, c) => .error (.malformed ⟨.badCharacter c, some offset, some source⟩)
      | none => (readAll (Lexing.ofChars 0 source.toList).significant).mapError
          fun (fault, start) => fault.toErrorAt source start := by
  rw [parseAll, tokenize, Lexing.error?, Lexing.ofSource, Lexing.significant, readAll_solid]
  cases (Lexing.ofChars 0 source.toList).stuck <;> rfl

theorem isSymbolPart_eq_false_of_isBlank {c : Char} (blank : Text.isBlank c = true) :
    isSymbolPart c = false := by
  apply Bool.eq_false_iff.mpr
  intro part
  rw [isSymbolPart, Bool.or_eq_true, Bool.or_eq_true] at part
  rcases part with (start | digit) | quote
  · rw [isBlank_eq_false_of_isSymbolStart start] at blank
    cases blank
  · rw [isBlank_eq_false_of_isDigit digit] at blank
    cases blank
  · obtain rfl := beq_iff_eq.mp quote
    revert blank
    decide

section

variable {front blanks : String} {forms : List Value}

/-- Behind a text that can be read and blanks, a text is cut as it is cut alone. -/
theorem lexing_joined (first : parseAll front = .ok forms)
    (blank : ∀ c ∈ blanks.toList, Text.isBlank c = true) (apart : blanks ≠ "") (back : String) :
    (Lexing.ofChars 0 (front ++ blanks ++ back).toList).significant =
      (Lexing.ofChars 0 front.toList).significant ++
        (Lexing.ofChars 0 back.toList).significant.map
          (Token.moved (front.length + blanks.length : Nat)) ∧
    (Lexing.ofChars 0 (front ++ blanks ++ back).toList).stuck =
      (Lexing.ofChars 0 back.toList).stuck.map
        fun place => (place.1 + (front.length + blanks.length), place.2) := by
  have stops : StopsSymbol (blanks.toList ++ back.toList) := by
    obtain ⟨c, cs, shape⟩ := List.exists_cons_of_ne_nil (mt String.toList_eq_nil_iff.mp apart)
    have isBlank : Text.isBlank c = true := blank c (by simp [shape])
    rw [shape]
    exact stopsSymbol_cons (isSymbolPart_eq_false_of_isBlank isBlank) _
  obtain ⟨tokens, stuck⟩ := Lexing.significant_append stops (parseAll_eq_ok_iff.mp first).1
  have passed := Lexing.sameButBlanks_append_blanks blank (0 + front.toList.length) back.toList
  rw [passed.significant, Nat.add_assoc, Lexing.significant_ofChars_add] at tokens
  rw [passed.stuck, Nat.add_assoc, Lexing.ofChars_add] at stuck
  rw [String.toList_append, String.toList_append, List.append_assoc]
  exact ⟨tokens, stuck⟩

/-- A text that can be read, in front of another one, adds its forms to those of that one, and
moves on what is wrong there. -/
theorem parseAll_joined (first : parseAll front = .ok forms)
    (blank : ∀ c ∈ blanks.toList, Text.isBlank c = true) (apart : blanks ≠ "") (back : String) :
    parseAll (front ++ blanks ++ back) =
      match parseAll back with
      | .ok more => .ok (forms ++ more)
      | .error e =>
        .error (e.movedInto (front ++ blanks ++ back) (front.length + blanks.length : Nat)) := by
  obtain ⟨tokens, stuck⟩ := lexing_joined first blank apart back
  have read : readAll (Lexing.ofChars 0 front.toList).significant = .ok forms := by
    rw [Lexing.significant, readAll_solid]
    exact (parseAll_eq_ok_iff.mp first).2
  rw [parseAll_eq, parseAll_eq, tokens, stuck]
  cases (Lexing.ofChars 0 back.toList).stuck with
  | some place =>
    simp only [Option.map_some, Error.movedInto, Nat.cast_add]
  | none =>
    rw [Option.map_none, readAll_append read, readAll_moved]
    cases readAll (Lexing.ofChars 0 back.toList).significant with
    | ok more => rfl
    | error fault =>
      have longer : (front ++ blanks ++ back).length =
          back.length + (front.length + blanks.length) := by
        rw [String.length_append, String.length_append, Nat.add_comm]
      exact congrArg Except.error (toErrorAt_moved longer fault.2 fault.1)

/-- Texts that can be read, with blanks between them, are read as the forms of the one and
then those of the other. -/
theorem parseAll_append {back : String} {more : List Value}
    (first : parseAll front = .ok forms) (second : parseAll back = .ok more)
    (blank : ∀ c ∈ blanks.toList, Text.isBlank c = true) (apart : blanks ≠ "") :
    parseAll (front ++ blanks ++ back) = .ok (forms ++ more) := by
  rw [parseAll_joined first blank apart, second]

/-- Behind a text that can be read and at least one blank, any text is read as it is alone. If
it has forms, they come after those of the first text. If it is refused at an offset, whether
it cannot be cut, has too many or too few parentheses or nests too deeply, the joined text is
refused for the same fault, at that offset from where it begins. If one of its integers is too
long, so is that one of the joined text. There is no other way in which it can be refused. -/
theorem text_behind_blanks_is_read_alone (first : parseAll front = .ok forms)
    (blank : ∀ c ∈ blanks.toList, Text.isBlank c = true) (apart : blanks ≠ "") (back : String) :
    match parseAll back with
    | .ok more => parseAll (front ++ blanks ++ back) = .ok (forms ++ more)
    | .error (.malformed ⟨fault, some offset, _⟩) =>
      parseAll (front ++ blanks ++ back) =
        .error (.malformed ⟨fault, some (front.length + blanks.length + offset),
          some (front ++ blanks ++ back)⟩)
    | .error .numeral => parseAll (front ++ blanks ++ back) = .error .numeral
    | .error _ => False := by
  have joined := parseAll_joined first blank apart back
  cases outcome : parseAll back with
  | ok more =>
    rw [outcome] at joined
    exact joined
  | error e =>
    rw [outcome] at joined
    cases refused_of_parseAll outcome with
    | malformed fault offset =>
      have place : offset + ((front.length + blanks.length : Nat) : Int) =
          front.length + blanks.length + offset := by omega
      simpa only [Error.movedInto, Option.map_some, place] using joined
    | numeral => exact joined

end

/-- A bracket too many, a character that begins no token, a list that is not closed and a form,
each behind a form, a line break and a blank. -/
theorem texts_behind_a_list :
    parseAll "(a)\n b )" = .error (.malformed ⟨.unexpected ")", some 7, some "(a)\n b )"⟩) ∧
    parseAll "(a)\n (,)" = .error (.malformed ⟨.badCharacter ',', some 6, some "(a)\n (,)"⟩) ∧
    parseAll "(a)\n b (" = .error (.malformed ⟨.unclosed, some 7, some "(a)\n b ("⟩) ∧
    parseAll "(a)\n 1" = .ok [.list [.symbol "a"], .int 1] := by
  have first : parseAll "(a)" = .ok [.list [.symbol "a"]] := by cbv
  have blank : ∀ c ∈ "\n ".toList, Text.isBlank c = true := by simp [Text.isBlank]
  have behind := text_behind_blanks_is_read_alone first blank (by simp)
  have stray : parseAll "b )" = .error (.malformed ⟨.unexpected ")", some 2, some "b )"⟩) := by cbv
  have uncut : parseAll "(,)" = .error (.malformed ⟨.badCharacter ',', some 1, some "(,)"⟩) := by
    cbv
  have unclosed : parseAll "b (" = .error (.malformed ⟨.unclosed, some 2, some "b ("⟩) := by cbv
  have form : parseAll "1" = .ok [.int 1] := by cbv
  have begins : ("(a)".length + "\n ".length : Int) = 5 := rfl
  refine ⟨?_, ?_, ?_, ?_⟩
  · simpa [stray, begins] using behind "b )"
  · simpa [uncut, begins] using behind "(,)"
  · simpa [unclosed, begins] using behind "b ("
  · simpa [form] using behind "1"

end ContextLisp
