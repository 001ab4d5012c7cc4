/-
# Reading by descent

A form can be read by descent: take the next token that is not blank; if it opens a list, take
tokens again until one closes it, and hand any other one back, since it begins the next item,
which is read in the same way. The reader keeps no stack of its own for this. It finds a token
that was handed back in the buffer of the stream, which may hold others from before, and all
others where they come from.

Such a descent comes to the same end as the reader that keeps the open lists on a stack: the
same form or fault, with the stream in the same state. What carries the proof is that a token
that is handed back is the next one to be taken, so that a descent as a whole only takes tokens.
-/

import ContextLisp.Proofs.Reading.FirstForm

namespace ContextLisp

namespace TokenStream

variable {stream after final : TokenStream} {t : Token}

/-! ### Taking tokens and handing them back -/

theorem advance_zero (stream : TokenStream) : stream.advance 0 = stream := by
  simp [advance]

theorem advance_advance (stream : TokenStream) (m n : Nat) :
    (stream.advance m).advance n = stream.advance (m + n) := by
  have left : m - stream.buffer.length + (n - (stream.buffer.length - m)) =
      m + n - stream.buffer.length := by omega
  simp only [advance, List.drop_drop, List.length_drop, left]

/-- However far a stream advanced, it advanced to the tokens that are pending then. -/
theorem advanceTo_pending_advance (stream : TokenStream) (n : Nat) :
    stream.advanceTo (stream.advance n).pending = stream.advance n := by
  rw [advanceTo, pending_advance, List.length_drop]
  rcases Nat.le_total n stream.pending.length with within | beyond
  · rw [Nat.sub_sub_self within]
  · have buffer : stream.buffer.length ≤ stream.pending.length := by simp [pending]
    have upcoming : stream.upcoming.length = stream.pending.length - stream.buffer.length := by
      simp [pending]
    rw [Nat.sub_eq_zero_of_le beyond, Nat.sub_zero, advance, advance,
      List.drop_eq_nil_of_le buffer, List.drop_eq_nil_of_le (Nat.le_trans buffer beyond),
      List.drop_eq_nil_of_le (Nat.le_of_eq upcoming), List.drop_eq_nil_of_le (by omega)]

/-- The other stream is this one after some tokens were taken. -/
def LeadsTo (stream after : TokenStream) : Prop := ∃ n, after = stream.advance n

theorem LeadsTo.refl (stream : TokenStream) : stream.LeadsTo stream :=
  ⟨0, stream.advance_zero.symm⟩

theorem LeadsTo.trans (first : stream.LeadsTo after) (second : after.LeadsTo final) :
    stream.LeadsTo final := by
  obtain ⟨m, rfl⟩ := first
  obtain ⟨n, rfl⟩ := second
  exact ⟨m + n, advance_advance stream m n⟩

theorem LeadsTo.suffix (leads : stream.LeadsTo after) : after.pending <:+ stream.pending := by
  obtain ⟨n, rfl⟩ := leads
  rw [pending_advance]
  exact List.drop_suffix n _

theorem LeadsTo.eq_advanceTo (leads : stream.LeadsTo after) :
    after = stream.advanceTo after.pending := by
  obtain ⟨n, rfl⟩ := leads
  exact (stream.advanceTo_pending_advance n).symm

/-- Advancing further on comes to the same as advancing at once. -/
theorem LeadsTo.advanceTo_eq {rest : List Token} (leads : stream.LeadsTo after)
    (suffix : rest <:+ after.pending) : after.advanceTo rest = stream.advanceTo rest := by
  have further : stream.LeadsTo (after.advanceTo rest) := leads.trans ⟨_, rfl⟩
  rw [further.eq_advanceTo, pending_advanceTo after suffix]

/-- A token is taken off the buffer, and one never handed out where the buffer is empty. -/
theorem next_eq (stream : TokenStream) :
    stream.next =
      match stream.buffer, stream.upcoming with
      | t :: buffer, _ => (some t, { stream with buffer := buffer })
      | [], t :: upcoming => (some t, { stream with upcoming := upcoming })
      | [], [] => (none, stream) := by
  obtain ⟨buffer, upcoming, source⟩ := stream
  cases buffer with
  | cons t buffer => simp [next, pending, advance]
  | nil => cases upcoming <;> simp [next, pending, advance]

theorem nextSignificant_of_nil (blank : skipBlanks stream.pending = []) :
    stream.nextSignificant = (none, stream.advanceTo []) := by
  simp only [nextSignificant, blank]

theorem nextSignificant_of_cons {rest : List Token}
    (significant : skipBlanks stream.pending = t :: rest) :
    stream.nextSignificant = (some t, stream.advanceTo rest) := by
  simp only [nextSignificant, significant]

theorem leadsTo_nextSignificant (stream : TokenStream) :
    stream.LeadsTo stream.nextSignificant.2 := by
  unfold nextSignificant
  split
  · exact ⟨_, rfl⟩
  · exact ⟨_, rfl⟩

/-- Without a next token only blank ones were pending. -/
theorem skipBlanks_of_next_none (next : stream.nextSignificant = (none, after)) :
    skipBlanks stream.pending = [] ∧ after.pending = [] := by
  cases shape : skipBlanks stream.pending with
  | nil =>
    rw [nextSignificant_of_nil shape] at next
    cases next
    exact ⟨rfl, pending_advanceTo stream (List.nil_suffix)⟩
  | cons t rest =>
    rw [nextSignificant_of_cons shape] at next
    cases next

/-- The next token and those that are pending behind it. -/
theorem skipBlanks_of_next_some (next : stream.nextSignificant = (some t, after)) :
    skipBlanks stream.pending = t :: after.pending := by
  cases shape : skipBlanks stream.pending with
  | nil =>
    rw [nextSignificant_of_nil shape] at next
    cases next
  | cons first rest =>
    rw [nextSignificant_of_cons shape] at next
    cases next
    rw [pending_advanceTo stream (suffix_of_skipBlanks shape)]

/-- Tokens are taken until one of them is not blank. -/
theorem nextSignificant_eq_next (stream : TokenStream) :
    stream.nextSignificant =
      match stream.next with
      | (none, after) => (none, after)
      | (some t, after) => if t.kind = .blank then after.nextSignificant else (some t, after) := by
  have advanced : stream.LeadsTo (stream.advance 1) := ⟨1, rfl⟩
  have left := pending_advance stream 1
  cases shape : stream.pending with
  | nil =>
    rw [shape, List.drop_nil] at left
    rw [nextSignificant_of_nil (by rw [shape]; rfl), ← left, ← advanced.eq_advanceTo]
    simp only [next, shape, List.head?_nil]
  | cons t rest =>
    rw [shape, List.drop_one, List.tail_cons] at left
    simp only [next, shape, List.head?_cons]
    split
    · rename_i blank
      have skipped : skipBlanks stream.pending = skipBlanks (stream.advance 1).pending := by
        rw [shape, left, skipBlanks_of_blank blank]
      cases later : skipBlanks (stream.advance 1).pending with
      | nil =>
        rw [nextSignificant_of_nil (skipped.trans later), nextSignificant_of_nil later,
          advanced.advanceTo_eq List.nil_suffix]
      | cons first others =>
        rw [nextSignificant_of_cons (skipped.trans later), nextSignificant_of_cons later,
          advanced.advanceTo_eq (suffix_of_skipBlanks later)]
    · rename_i visible
      have significant : skipBlanks stream.pending = t :: rest := by
        rw [shape, skipBlanks_of_visible visible]
      rw [nextSignificant_of_cons significant, ← left, ← advanced.eq_advanceTo]

/-- A token that is handed back is the next one, and the stream is as it was. -/
theorem nextSignificant_pushBack (stream : TokenStream) (visible : t.kind ≠ .blank) :
    (stream.pushBack t).nextSignificant = (some t, stream) := by
  have significant : skipBlanks (stream.pushBack t).pending = t :: stream.pending := by
    rw [pending_pushBack, skipBlanks_of_visible visible]
  rw [nextSignificant_of_cons significant, advanceTo, pending_pushBack, List.length_cons,
    Nat.add_sub_cancel_left]
  simp [advance, pushBack]

theorem visible_of_next_some (next : stream.nextSignificant = (some t, after)) :
    t.kind ≠ .blank :=
  kind_ne_blank_of_skipBlanks (skipBlanks_of_next_some next)

/-! ### The descent -/

/-- What a descent reads: a form, or a list of which the opening token and some items were
read. -/
inductive Aim where
  | form
  | list (opening : Token) (items : List Value)

/-- A descent from one stream to another, with what it comes to, if so many more lists can be
open at once. -/
inductive Descends :
    Nat → Aim → TokenStream → Except ReadFault Value → TokenStream → Prop
  | noForm {room : Nat} {stream after : TokenStream}
      (next : stream.nextSignificant = (none, after)) :
      Descends room .form stream (.error .noForm) after
  | atom {room : Nat} {stream after : TokenStream} {t : Token} {v : Value}
      (next : stream.nextSignificant = (some t, after)) (role : t.role = .atom v) :
      Descends room .form stream (.ok v) after
  | badNumeral {room : Nat} {stream after : TokenStream} {t : Token}
      (next : stream.nextSignificant = (some t, after)) (role : t.role = .badNumeral) :
      Descends room .form stream (.error .numeral) after
  | unexpected {room : Nat} {stream after : TokenStream} {t : Token}
      (next : stream.nextSignificant = (some t, after))
      (role : t.role = .closing ∨ t.role = .stray) :
      Descends room .form stream (.error (.unexpected t)) after
  | tooDeep {stream after : TokenStream} {t : Token}
      (next : stream.nextSignificant = (some t, after)) (role : t.role = .opening) :
      Descends 0 .form stream (.error .tooDeep) after
  | opened {room : Nat} {stream after final : TokenStream} {t : Token}
      {outcome : Except ReadFault Value}
      (next : stream.nextSignificant = (some t, after)) (role : t.role = .opening)
      (inside : Descends room (.list t []) after outcome final) :
      Descends (room + 1) .form stream outcome final
  | unclosed {room : Nat} {stream after : TokenStream} {opening : Token} {items : List Value}
      (next : stream.nextSignificant = (none, after)) :
      Descends room (.list opening items) stream (.error (.unclosed opening.offset)) after
  | closed {room : Nat} {stream after : TokenStream} {opening t : Token} {items : List Value}
      (next : stream.nextSignificant = (some t, after)) (role : t.role = .closing) :
      Descends room (.list opening items) stream (.ok (.list items)) after
  /-- The token that was looked at is handed back for the item that it begins. -/
  | item {room : Nat} {stream after between final : TokenStream} {opening t : Token}
      {items : List Value} {v : Value} {outcome : Except ReadFault Value}
      (next : stream.nextSignificant = (some t, after)) (other : t.role ≠ .closing)
      (first : Descends room .form (after.pushBack t) (.ok v) between)
      (others : Descends room (.list opening (items ++ [v])) between outcome final) :
      Descends room (.list opening items) stream outcome final
  | failed {room : Nat} {stream after final : TokenStream} {opening t : Token}
      {items : List Value} {fault : ReadFault}
      (next : stream.nextSignificant = (some t, after)) (other : t.role ≠ .closing)
      (first : Descends room .form (after.pushBack t) (.error fault) final) :
      Descends room (.list opening items) stream (.error fault) final

/-- A descent takes the next token for good, and then only takes tokens: it ends with what it
handed back taken again. -/
theorem Descends.leadsTo_of_next {room : Nat} {aim : Aim} {outcome : Except ReadFault Value}
    (descends : Descends room aim stream outcome final) :
    stream.nextSignificant.2.LeadsTo final := by
  induction descends with
  | opened next role inside ih =>
    rw [next]
    exact (leadsTo_nextSignificant _).trans ih
  | item next other first others ih₁ ih₂ =>
    rw [nextSignificant_pushBack _ (visible_of_next_some next)] at ih₁
    rw [next]
    exact ih₁.trans ((leadsTo_nextSignificant _).trans ih₂)
  | failed next other first ih =>
    rw [nextSignificant_pushBack _ (visible_of_next_some next)] at ih
    rw [next]
    exact ih
  | noForm next | atom next | badNumeral next | unexpected next | tooDeep next | unclosed next
  | closed next =>
    rw [next]
    exact .refl _

theorem Descends.leadsTo {room : Nat} {aim : Aim} {outcome : Except ReadFault Value}
    (descends : Descends room aim stream outcome final) : stream.LeadsTo final :=
  (leadsTo_nextSignificant stream).trans descends.leadsTo_of_next

/-! ### It comes to what is read with a stack -/

/-- How reading proceeds with lists open around what a descent came to. -/
def proceedAround (stack : List OpenList) (rest : List Token) :
    Except ReadFault Value → Except ReadFault Value × List Token
  | .ok v => (deliver v stack).proceed rest
  | .error fault => (.error fault, rest)

/-- The lists that are open while a descent reads, given those around it. -/
def Aim.openLists (outer : List OpenList) : Aim → List OpenList
  | .form => outer
  | .list opening items => ⟨opening.offset, items.reverse⟩ :: outer

/-- A descent to a form is begun outside of all lists, or where the next token does not close
one. -/
def Aim.Fits (outer : List OpenList) (stream : TokenStream) : Aim → Prop
  | .form => outer = [] ∨ ∃ t after, stream.nextSignificant = (some t, after) ∧ t.role ≠ .closing
  | .list _ _ => True

theorem readForm_of_next_none (next : stream.nextSignificant = (none, after))
    (stack : List OpenList) :
    ContextLisp.readForm stack stream.pending = (.error (endFault stack), after.pending) := by
  obtain ⟨blank, done⟩ := skipBlanks_of_next_none next
  rw [← readForm_skipBlanks, blank, done]
  rfl

theorem readForm_of_next_some (next : stream.nextSignificant = (some t, after))
    (stack : List OpenList) :
    ContextLisp.readForm stack stream.pending = (shift stack t).proceed after.pending := by
  rw [← readForm_skipBlanks, skipBlanks_of_next_some next, readForm_cons]

/-- What a descent comes to is what reading comes to with the same lists open. -/
theorem Descends.readForm_eq {room : Nat} {aim : Aim} {outcome : Except ReadFault Value}
    (descends : Descends room aim stream outcome final) (outer : List OpenList)
    (fits : aim.Fits outer stream) (left : (aim.openLists outer).length + room = nestingLimit) :
    ContextLisp.readForm (aim.openLists outer) stream.pending =
      proceedAround outer final.pending outcome := by
  induction descends generalizing outer with
  | noForm next =>
    rcases fits with rfl | ⟨t, after, other, -⟩
    · rw [readForm_of_next_none next]
      rfl
    · rw [next] at other
      cases other
  | atom next role =>
    rw [readForm_of_next_some next, shift_atom role]
    rfl
  | badNumeral next role =>
    rw [readForm_of_next_some next]
    simp only [shift, role, Shift.proceed, proceedAround]
  | @unexpected _ _ _ t next role =>
    rw [readForm_of_next_some next]
    rcases role with closing | stray
    · rcases fits with rfl | ⟨t', after, same, other⟩
      · simp only [Aim.openLists, shift, closing, Shift.proceed, proceedAround]
      · rw [next] at same
        cases same
        exact absurd closing other
    · simp only [shift, stray, Shift.proceed, proceedAround]
  | tooDeep next role =>
    have full : ¬ (Aim.form.openLists outer).length < nestingLimit := by omega
    rw [readForm_of_next_some next]
    simp only [shift, role, if_neg full, Shift.proceed, proceedAround]
  | opened next role inside ih =>
    rw [readForm_of_next_some next, shift_opening role (by omega)]
    refine ih outer trivial ?_
    simp only [Aim.openLists, List.length_cons] at left ⊢
    omega
  | unclosed next =>
    rw [readForm_of_next_none next]
    rfl
  | @closed _ _ _ opening _ items next role =>
    rw [readForm_of_next_some next, Aim.openLists, shift_closing role, List.reverse_reverse]
    rfl
  | @item _ _ after _ _ opening t items v _ next other first others ih₁ ih₂ =>
    have back := nextSignificant_pushBack after (visible_of_next_some next)
    have read := ih₁ ((Aim.list opening items).openLists outer) (.inr ⟨t, after, back, other⟩) left
    have later := ih₂ outer trivial left
    rw [Aim.openLists, List.reverse_append] at later
    rw [readForm_of_next_some next, ← readForm_of_next_some back]
    exact read.trans later
  | @failed _ _ after _ opening t items _ next other first ih =>
    have back := nextSignificant_pushBack after (visible_of_next_some next)
    rw [readForm_of_next_some next, ← readForm_of_next_some back]
    exact ih ((Aim.list opening items).openLists outer) (.inr ⟨t, after, back, other⟩) left

/-! ### It comes to an end -/

theorem length_of_next_some (next : stream.nextSignificant = (some t, after)) :
    after.pending.length < stream.pending.length := by
  have shorter := (skipBlanks_suffix stream.pending).length_le
  rwa [skipBlanks_of_next_some next, List.length_cons, Nat.succ_le_iff] at shorter

/-- A descent to a form comes to an end if descents to lists do, further on. -/
theorem exists_descends_form (stream : TokenStream)
    (lists : ∀ after : TokenStream, after.pending.length < stream.pending.length →
      ∀ room opening, ∃ outcome final, Descends room (.list opening []) after outcome final)
    (room : Nat) : ∃ outcome final, Descends room .form stream outcome final := by
  rcases next : stream.nextSignificant with ⟨token, after⟩
  cases token with
  | none => exact ⟨_, _, .noForm next⟩
  | some t =>
    cases role : t.role with
    | blank => exact absurd (kind_of_role_blank role) (visible_of_next_some next)
    | atom v => exact ⟨_, _, .atom next role⟩
    | badNumeral => exact ⟨_, _, .badNumeral next role⟩
    | closing => exact ⟨_, _, .unexpected next (.inl role)⟩
    | stray => exact ⟨_, _, .unexpected next (.inr role)⟩
    | opening =>
      cases room with
      | zero => exact ⟨_, _, .tooDeep next role⟩
      | succ room =>
        obtain ⟨outcome, final, inside⟩ := lists after (length_of_next_some next) room t
        exact ⟨outcome, final, .opened next role inside⟩

/-- Every descent to a list comes to an end, because every token that is handed back is taken by
the item that it begins. -/
theorem exists_descends_list (stream : TokenStream) (room : Nat) (opening : Token)
    (items : List Value) :
    ∃ outcome final, Descends room (.list opening items) stream outcome final := by
  induction size : stream.pending.length using Nat.strong_induction_on
    generalizing stream room opening items with
  | _ n ih =>
    subst size
    rcases next : stream.nextSignificant with ⟨token, after⟩
    cases token with
    | none => exact ⟨_, _, .unclosed next⟩
    | some t =>
      by_cases closing : t.role = .closing
      · exact ⟨_, _, .closed next closing⟩
      · have shorter := length_of_next_some next
        have lists : ∀ later : TokenStream,
            later.pending.length < (after.pushBack t).pending.length → ∀ room opening,
              ∃ outcome final, Descends room (.list opening []) later outcome final := by
          intro later less room opening
          rw [pending_pushBack, List.length_cons] at less
          exact ih _ (by omega) later room opening [] rfl
        obtain ⟨outcome, between, first⟩ := exists_descends_form (after.pushBack t) lists room
        cases outcome with
        | error fault => exact ⟨_, _, .failed next closing first⟩
        | ok v =>
          -- The item took the token that was handed back, so fewer are pending than before it.
          have taken := first.leadsTo_of_next
          rw [nextSignificant_pushBack after (visible_of_next_some next)] at taken
          have less := Nat.lt_of_le_of_lt taken.suffix.length_le shorter
          obtain ⟨outcome, final, others⟩ := ih _ less between room opening (items ++ [v]) rfl
          exact ⟨outcome, final, .item next closing first others⟩

/-- The reader with a stack gives what a descent comes to, and moves the stream as the descent
does. -/
theorem readForm_eq_iff_descends {x : Except Error Value} :
    stream.readForm = (x, final) ↔
      ∃ outcome, Descends nestingLimit .form stream outcome final ∧
        x = outcome.mapError (ReadFault.toError stream.source) := by
  have agrees : ∀ outcome final, Descends nestingLimit .form stream outcome final →
      stream.readForm = (outcome.mapError (ReadFault.toError stream.source), final) := by
    intro outcome final descends
    have read := descends.readForm_eq [] (.inl rfl) (Nat.zero_add _)
    have outside : proceedAround [] final.pending outcome = (outcome, final.pending) := by
      cases outcome <;> rfl
    rw [Aim.openLists, outside] at read
    simp only [readForm, readWith, read]
    rw [← descends.leadsTo.eq_advanceTo]
  constructor
  · intro read
    obtain ⟨outcome, final', descends⟩ := exists_descends_form stream
      (fun after _ room opening => exists_descends_list after room opening []) nestingLimit
    obtain ⟨rfl, rfl⟩ := Prod.mk.inj ((agrees _ _ descends).symm.trans read)
    exact ⟨outcome, descends, rfl⟩
  · rintro ⟨outcome, descends, rfl⟩
    exact agrees outcome final descends

end TokenStream

end ContextLisp
