/-
# Forms from a stream

Reading a form takes a first part of the pending tokens, at least one, and leaves the others.
The form depends on the part that was taken alone: with other tokens behind it, in a stream that
keeps its tokens in other places, the same form is read, and just these other tokens are left.
Where no form can be read, what is left are still the last of the tokens that there were.

The question whether a stream is at its end takes the blank tokens in front, and if others are
left, puts the first of them on top of the buffer. So reading all forms of a text one by one
always finds a token there to blame for a form that fails.
-/

import ContextLisp.Proofs.Reading.Descent

namespace ContextLisp

namespace TokenStream

variable {stream : TokenStream} {v : Value}

/-! ### One form -/

theorem pending_readForm (stream : TokenStream) :
    stream.readForm.2.pending = (ContextLisp.readForm [] stream.pending).2 :=
  pending_advanceTo stream (readForm_suffix [] stream.pending)

theorem readForm_eq_ok_iff :
    stream.readForm.1 = .ok v ↔ (ContextLisp.readForm [] stream.pending).1 = .ok v := by
  show (ContextLisp.readForm [] stream.pending).1.mapError _ = .ok v ↔ _
  cases (ContextLisp.readForm [] stream.pending).1 <;> simp [Except.mapError]

/-- The tokens that were taken are those of a form. -/
theorem exists_tokens_of_readForm (read : stream.readForm.1 = .ok v) :
    ∃ form, form ≠ [] ∧ stream.pending = form ++ stream.readForm.2.pending ∧
      ContextLisp.readForm [] form = (.ok v, []) := by
  obtain ⟨form, whole⟩ := readForm_suffix [] stream.pending
  rw [pending_readForm]
  have found : ContextLisp.readForm [] (form ++ (ContextLisp.readForm [] stream.pending).2) =
      (.ok v, (ContextLisp.readForm [] stream.pending).2) := by
    rw [whole, ← readForm_eq_ok_iff.mp read]
  have alone := readForm_before found
  refine ⟨form, ?_, whole.symm, alone⟩
  rintro rfl
  cases alone

/-- Tokens of a form are read as that form wherever they are pending first. -/
theorem readForm_of_tokens {form rest : List Token}
    (alone : ContextLisp.readForm [] form = (.ok v, [])) (pending : stream.pending = form ++ rest) :
    stream.readForm.1 = .ok v ∧ stream.readForm.2.pending = rest := by
  have read := readForm_append alone rest
  rw [List.nil_append, ← pending] at read
  exact ⟨readForm_eq_ok_iff.mpr (by rw [read]), by rw [pending_readForm, read]⟩

theorem length_of_readForm {later : TokenStream} (read : stream.readForm = (.ok v, later)) :
    later.pending.length < stream.pending.length := by
  obtain ⟨form, taken, whole, -⟩ :=
    exists_tokens_of_readForm (show stream.readForm.1 = .ok v by rw [read])
  rw [read] at whole
  rw [whole, List.length_append]
  exact Nat.lt_add_of_pos_left (List.length_pos_iff.mpr taken)

/-! ### The end -/

theorem atEnd_of_nil (blank : skipBlanks stream.pending = []) :
    stream.atEnd = (true, stream.advanceTo []) := by
  simp only [atEnd, nextSignificant_of_nil blank]

theorem atEnd_of_cons {t : Token} {rest : List Token}
    (significant : skipBlanks stream.pending = t :: rest) :
    stream.atEnd = (false, (stream.advanceTo rest).pushBack t) := by
  simp only [atEnd, nextSignificant_of_cons significant]

/-- Only blank tokens are taken. -/
theorem pending_atEnd (stream : TokenStream) :
    stream.atEnd.2.pending = skipBlanks stream.pending := by
  cases shape : skipBlanks stream.pending with
  | nil => rw [atEnd_of_nil shape, pending_advanceTo stream List.nil_suffix]
  | cons t rest =>
    rw [atEnd_of_cons shape, pending_pushBack,
      pending_advanceTo stream (suffix_of_skipBlanks shape)]

theorem skipBlanks_eq_nil_iff_blank {ts : List Token} :
    skipBlanks ts = [] ↔ ∀ t ∈ ts, t.kind = .blank := by
  simp [skipBlanks, List.dropWhile_eq_nil_iff]

theorem atEnd_eq_true_iff : stream.atEnd.1 = true ↔ ∀ t ∈ stream.pending, t.kind = .blank := by
  rw [← skipBlanks_eq_nil_iff_blank]
  cases shape : skipBlanks stream.pending with
  | nil => simp [atEnd_of_nil shape]
  | cons t rest => simp [atEnd_of_cons shape]

/-- If the stream is not at its end, the first of the tokens that count comes to lie on top of
the buffer. -/
theorem exists_top_of_atEnd {ready : TokenStream} (unended : stream.atEnd = (false, ready)) :
    ∃ first rest, skipBlanks stream.pending = first :: rest ∧ ready.pending = first :: rest ∧
      ready.buffer.head? = some first ∧ ready.source = stream.source := by
  cases shape : skipBlanks stream.pending with
  | nil =>
    rw [atEnd_of_nil shape] at unended
    cases unended
  | cons first rest =>
    have left := pending_atEnd stream
    rw [unended, shape] at left
    rw [atEnd_of_cons shape] at unended
    cases unended
    exact ⟨first, rest, rfl, left, rfl, rfl⟩

/-! ### All forms -/

/-- The error of a form whose first token stands at an offset: if lists nest too deeply, the
form as a whole is to blame. -/
def blame (source : String) (start : Int) : Error → Error
  | .stackOverflow => .malformed ⟨.tooDeep, some start, some source⟩
  | e => e

theorem toErrorAt_eq_blame (source : String) (start : Int) (fault : ReadFault) :
    fault.toErrorAt source start = blame source start (fault.toError source) := by
  cases fault <;> rfl

/-- Read form after form until the stream is at its end. A form that fails is blamed on the
token on top of the buffer; there is no result if there is none. -/
def readForms (stream : TokenStream) : Option (Except Error (List Value)) :=
  match _unended : stream.atEnd with
  | (true, _) => some (.ok [])
  | (false, ready) =>
    match ready.buffer.head? with
    | none => none
    | some first =>
      match _read : ready.readForm with
      | (.error e, _) => some (.error (blame ready.source first.offset e))
      | (.ok v, later) => (readForms later).map (Except.map (v :: ·))
termination_by stream.pending.length
decreasing_by
  -- The question for the end takes blanks only, and the form at least one token.
  have fewer : ready.pending.length ≤ stream.pending.length := by
    rw [show ready = stream.atEnd.2 by rw [_unended], pending_atEnd]
    exact (skipBlanks_suffix stream.pending).length_le
  exact Nat.lt_of_lt_of_le (length_of_readForm _read) fewer

/-- All forms that tokens of a text stand for. -/
def formsIn (source : String) (ts : List Token) : Except Error (List Value) :=
  (readAll ts).mapError fun (fault, start) => fault.toErrorAt source start

theorem formsIn_of_first (source : String) {ts rest : List Token} {first : Token}
    (significant : skipBlanks ts = first :: rest) :
    formsIn source ts =
      match ContextLisp.readForm [] (first :: rest) with
      | (.error fault, _) => .error (fault.toErrorAt source first.offset)
      | (.ok v, later) => (formsIn source later).map (v :: ·) := by
  rw [formsIn, readAll_of_first significant]
  obtain ⟨outcome, later⟩ := ContextLisp.readForm [] (first :: rest)
  cases outcome with
  | error fault => rfl
  | ok v =>
    dsimp only [formsIn]
    cases readAll later <;> rfl

/-- What a stream gives as its next form is the first of all forms. -/
theorem formsIn_of_readForm {ts rest : List Token} {first : Token}
    (significant : skipBlanks ts = stream.pending) (top : stream.pending = first :: rest) :
    formsIn stream.source ts =
      match stream.readForm with
      | (.error e, _) => .error (blame stream.source first.offset e)
      | (.ok v, later) => (formsIn later.source later.pending).map (v :: ·) := by
  have left := pending_readForm stream
  rw [formsIn_of_first _ (significant.trans top), ← top]
  simp only [readForm, readWith] at left ⊢
  rcases read : ContextLisp.readForm [] stream.pending with ⟨outcome, later⟩
  rw [read] at left
  cases outcome with
  | error fault => exact congrArg Except.error (toErrorAt_eq_blame stream.source first.offset fault)
  | ok v =>
    have same : (stream.advanceTo later).pending = later := left
    simp only [Except.mapError, same]
    rfl

/-- Reading form after form never misses a token on top of the buffer, and comes to what all
pending tokens stand for. -/
theorem readForms_eq (stream : TokenStream) :
    stream.readForms = some (formsIn stream.source stream.pending) := by
  fun_induction readForms stream with
  | case1 stream after ended =>
    have blank : ∀ t ∈ stream.pending, t.kind = .blank := atEnd_eq_true_iff.mp (by rw [ended])
    rw [formsIn, readAll_of_blank (skipBlanks_eq_nil_iff_blank.mpr blank)]
    rfl
  | case2 stream ready unended missing =>
    obtain ⟨first, rest, -, -, top, -⟩ := exists_top_of_atEnd unended
    rw [missing] at top
    cases top
  | case3 stream ready unended first top e after failed =>
    obtain ⟨first, rest, significant, pending, same, source⟩ := exists_top_of_atEnd unended
    rw [top] at same
    cases same
    rw [← source, formsIn_of_readForm (significant.trans pending.symm) pending, failed]
  | case4 stream ready unended first top v later read ih =>
    obtain ⟨first, rest, significant, pending, -, source⟩ := exists_top_of_atEnd unended
    rw [ih, ← source, formsIn_of_readForm (significant.trans pending.symm) pending, read]
    rfl

theorem readForms_ofTokens {source : String} {tokens : List Token}
    (cut : tokenize source = .ok tokens) :
    (ofTokens tokens source).readForms = some (parseAll source) := by
  rw [readForms_eq, parseAll_of_tokenize cut]
  rfl

/-- Reading from any stream takes the tokens of one form, and takes them wherever they are
pending first. What is left after a fault was pending before. The reader takes and hands back
tokens as a descent does. A stream is at its end if nothing but blanks is pending; otherwise
only blanks are taken, and the next token lies on top of the buffer, so that all forms of a
stream, and of a text, are read one by one. -/
theorem reading_takes_one_form (stream : TokenStream) :
    (∀ v, stream.readForm.1 = .ok v →
      ∃ form, form ≠ [] ∧ stream.pending = form ++ stream.readForm.2.pending ∧
        ∀ (other : TokenStream) (rest : List Token), other.pending = form ++ rest →
          other.readForm.1 = .ok v ∧ other.readForm.2.pending = rest) ∧
    (∀ e, stream.readForm.1 = .error e → stream.readForm.2.pending <:+ stream.pending) ∧
    (∀ x final, stream.readForm = (x, final) ↔
      ∃ outcome, Descends nestingLimit .form stream outcome final ∧
        x = outcome.mapError (ReadFault.toError stream.source)) ∧
    (stream.atEnd.1 = true ↔ ∀ t ∈ stream.pending, t.kind = .blank) ∧
    (stream.atEnd.1 = false →
      ∃ blanks first rest, stream.pending = blanks ++ first :: rest ∧
        (∀ t ∈ blanks, t.kind = .blank) ∧ first.kind ≠ .blank ∧
        stream.atEnd.2.pending = first :: rest ∧ stream.atEnd.2.buffer.head? = some first) ∧
    stream.readForms = some (formsIn stream.source stream.pending) ∧
    ∀ source tokens, tokenize source = .ok tokens →
      (ofTokens tokens source).readForms = some (parseAll source) := by
  refine ⟨fun v read => ?_, fun e _ => ?_, fun x final => readForm_eq_iff_descends,
    atEnd_eq_true_iff, fun unended => ?_, readForms_eq stream,
    fun source tokens cut => readForms_ofTokens cut⟩
  · obtain ⟨form, taken, whole, alone⟩ := exists_tokens_of_readForm read
    exact ⟨form, taken, whole, fun other rest pending => readForm_of_tokens alone pending⟩
  · rw [pending_readForm]
    exact readForm_suffix [] stream.pending
  · obtain ⟨first, rest, significant, left, top, -⟩ :=
      exists_top_of_atEnd (Prod.ext unended rfl : stream.atEnd = (false, stream.atEnd.2))
    refine ⟨stream.pending.takeWhile fun t => t.kind == .blank, first, rest, ?_, ?_,
      kind_ne_blank_of_skipBlanks significant, left, top⟩
    · rw [← significant, skipBlanks, List.takeWhile_append_dropWhile]
    · intro t blank
      simpa using List.mem_takeWhile_imp blank

/-- The text `(a b) c`, of which two tokens were handed back. -/
def handedBack : TokenStream where
  buffer := [⟨.opening, "(", 0⟩, ⟨.symbol, "a", 1⟩]
  upcoming := [⟨.blank, " ", 2⟩, ⟨.symbol, "b", 3⟩, ⟨.closing, ")", 4⟩, ⟨.blank, " ", 5⟩,
    ⟨.symbol, "c", 6⟩]
  source := "(a b) c"

/-- The list is read from both places, and is read again in front of other tokens. Without its
last tokens it is refused. The stream is not at its end, and the tokens are those of the text. -/
theorem handedBack_gives_list :
    handedBack.readForm.1 = .ok (.list [.symbol "a", .symbol "b"]) ∧
    handedBack.readForm.2.pending = [⟨.blank, " ", 5⟩, ⟨.symbol, "c", 6⟩] ∧
    (∀ rest source, (ofTokens (handedBack.pending.take 5 ++ rest) source).readForm.1 =
        .ok (.list [.symbol "a", .symbol "b"]) ∧
      (ofTokens (handedBack.pending.take 5 ++ rest) source).readForm.2.pending = rest) ∧
    { handedBack with upcoming := [] }.readForm.1 =
      .error (.malformed ⟨.unclosed, some 0, some "(a b) c"⟩) ∧
    { handedBack with upcoming := [] }.readForm.2.pending <:+ handedBack.buffer ∧
    handedBack.atEnd.1 = false ∧
    (∃ first rest, first.kind ≠ .blank ∧ handedBack.atEnd.2.pending = first :: rest ∧
      handedBack.atEnd.2.buffer.head? = some first) ∧
    tokenize "(a b) c" = .ok handedBack.pending ∧
    (ofTokens handedBack.pending "(a b) c").readForms = some (parseAll "(a b) c") := by
  obtain ⟨gives, -, -, -, unended, -, text⟩ := reading_takes_one_form handedBack
  have read : handedBack.readForm.1 = .ok (.list [.symbol "a", .symbol "b"]) := by rfl
  have left : handedBack.readForm.2.pending = [⟨.blank, " ", 5⟩, ⟨.symbol, "c", 6⟩] := by rfl
  have cut : tokenize "(a b) c" = .ok handedBack.pending := by cbv
  obtain ⟨form, -, whole, again⟩ := gives _ read
  have taken : form = handedBack.pending.take 5 := by
    rw [left] at whole
    exact (List.append_cancel_right whole).symm
  have unread : handedBack.atEnd.1 = false := by rfl
  obtain ⟨_, first, rest, -, -, visible, next, top⟩ := unended unread
  have unclosed : { handedBack with upcoming := [] }.readForm.1 =
      .error (.malformed ⟨.unclosed, some 0, some "(a b) c"⟩) := by rfl
  refine ⟨read, left, fun rest source => ?_, unclosed,
    (reading_takes_one_form { handedBack with upcoming := [] }).2.1 _ unclosed, unread,
    ⟨first, rest, visible, next, top⟩, cut, text _ _ cut⟩
  rw [← taken]
  exact again (ofTokens (form ++ rest) source) rest rfl

end TokenStream

end ContextLisp
