/-
# What the reader reads

A value is spelled by a sequence of token roles: an atom by one that stands for it, a
list by its items between an opening and a closing one. Blank tokens have no part in
it. Reading undoes spelling, in both directions: forms that were read are spelled by
the tokens there were, and tokens that spell forms are read as these forms, as long as
no more lists are open at once than the reader admits.

The reader keeps the lists that are open on a stack. The invariant that carries the
first direction is that the roles consumed so far are those the stack was built from.
-/

import ContextLisp.Form.Reader

namespace ContextLisp

namespace Value

/-- The value is no list. -/
def IsAtom (v : Value) : Prop := ∀ items, v ≠ .list items

/-- Induction over lists within lists; whatever is no list is an atom. -/
@[elab_as_elim]
theorem listInduction {motive : Value → Prop} (atom : ∀ v : Value, v.IsAtom → motive v)
    (list : ∀ items, (∀ v ∈ items, motive v) → motive (.list items)) (v : Value) : motive v :=
  @Value.rec motive (fun vs => ∀ v ∈ vs, motive v)
    (fun _ => atom _ nofun) (fun _ => atom _ nofun) (atom _ nofun) (fun _ => atom _ nofun)
    (fun _ => atom _ nofun) (fun _ => atom _ nofun) list
    (fun _ _ _ _ _ => atom _ nofun) (fun _ _ _ _ => atom _ nofun) (fun _ => atom _ nofun)
    (by simp) (fun _ _ head tail => by simpa [head] using tail) v

mutual

/-- The roles of the tokens that spell a value. -/
def spelling : Value → List TokenRole
  | .list items => .opening :: (spellingOfItems items ++ [.closing])
  | v => [.atom v]

/-- The roles of the tokens that spell several values. -/
def spellingOfItems : List Value → List TokenRole
  | [] => []
  | v :: vs => v.spelling ++ spellingOfItems vs

end

mutual

/-- The most lists that are open at once while a value is read. -/
def nesting : Value → Nat
  | .list items => nestingOfItems items + 1
  | _ => 0

/-- The most lists that are open at once while one of several values is read. -/
def nestingOfItems : List Value → Nat
  | [] => 0
  | v :: vs => max v.nesting (nestingOfItems vs)

end

theorem spellingOfItems_eq_flatMap (vs : List Value) :
    spellingOfItems vs = vs.flatMap spelling := by
  induction vs with
  | nil => rfl
  | cons v vs ih => rw [spellingOfItems, ih, List.flatMap_cons]

theorem spelling_list (items : List Value) :
    (Value.list items).spelling = .opening :: (items.flatMap spelling ++ [.closing]) := by
  rw [spelling, spellingOfItems_eq_flatMap]

/-- The atoms of a list are those of its items. -/
theorem mem_spelling_list_iff {a : Value} {items : List Value} :
    .atom a ∈ (Value.list items).spelling ↔ ∃ v ∈ items, .atom a ∈ v.spelling := by
  simp only [spelling_list, List.mem_cons, List.mem_append, List.mem_flatMap, reduceCtorEq,
    List.not_mem_nil, or_false, false_or]

theorem spelling_of_isAtom {v : Value} (atom : v.IsAtom) : v.spelling = [.atom v] := by
  cases v with
  | list items => exact absurd rfl (atom items)
  | _ => rfl

theorem spelling_ne_nil (v : Value) : v.spelling ≠ [] := by
  cases v <;> simp [spelling]

theorem nestingOfItems_le_iff {vs : List Value} {n : Nat} :
    nestingOfItems vs ≤ n ↔ ∀ v ∈ vs, v.nesting ≤ n := by
  induction vs with
  | nil => simp [nestingOfItems]
  | cons v vs ih => rw [nestingOfItems, Nat.max_le, ih, List.forall_mem_cons]

theorem lt_nestingOfItems_iff {vs : List Value} {n : Nat} :
    n < nestingOfItems vs ↔ ∃ v ∈ vs, n < v.nesting := by
  rw [← Nat.not_le, nestingOfItems_le_iff]
  simp

theorem nesting_lt_of_mem {items : List Value} {v : Value} (member : v ∈ items) :
    v.nesting < (Value.list items).nesting := by
  rw [nesting]
  exact Nat.lt_succ_of_le (nestingOfItems_le_iff.mp (Nat.le_refl _) v member)

end Value

theorem skipBlanks_suffix (ts : List Token) : skipBlanks ts <:+ ts := List.dropWhile_suffix _

theorem skipBlanks_of_blank {t : Token} (blank : t.kind = .blank) (ts : List Token) :
    skipBlanks (t :: ts) = skipBlanks ts :=
  List.dropWhile_cons_of_pos (by simp [blank])

theorem skipBlanks_of_visible {t : Token} (visible : t.kind ≠ .blank) (ts : List Token) :
    skipBlanks (t :: ts) = t :: ts :=
  List.dropWhile_cons_of_neg (by simp [visible])

theorem suffix_of_skipBlanks {ts rest : List Token} {first : Token}
    (significant : skipBlanks ts = first :: rest) : rest <:+ ts :=
  (List.suffix_cons first rest).trans (significant ▸ skipBlanks_suffix ts)

/-- The roles of tokens, without the blank ones. -/
def rolesOf : List Token → List TokenRole
  | [] => []
  | t :: ts => if t.kind = .blank then rolesOf ts else t.role :: rolesOf ts

theorem role_of_blank {t : Token} (blank : t.kind = .blank) : t.role = .blank := by
  rw [Token.role, blank]

theorem rolesOf_skipBlanks (ts : List Token) : rolesOf (skipBlanks ts) = rolesOf ts := by
  induction ts with
  | nil => rfl
  | cons t ts ih =>
    by_cases blank : t.kind = .blank
    · rw [skipBlanks_of_blank blank, ih, rolesOf, if_pos blank]
    · rw [skipBlanks_of_visible blank]

theorem skipBlanks_eq_nil_iff (ts : List Token) : skipBlanks ts = [] ↔ rolesOf ts = [] := by
  induction ts with
  | nil => simp [skipBlanks, rolesOf]
  | cons t ts ih =>
    by_cases blank : t.kind = .blank
    · rw [skipBlanks_of_blank blank, ih, rolesOf, if_pos blank]
    · simp [skipBlanks_of_visible blank, rolesOf, blank]

/-! ### Tokens that spell a value are read as that value -/

/-- How reading proceeds after a token, given those behind it. -/
def Shift.proceed (rest : List Token) : Shift → Except ReadFault Value × List Token
  | .goOn stack => readForm stack rest
  | .stop outcome => (outcome, rest)

theorem readForm_cons (stack : List OpenList) (t : Token) (ts : List Token) :
    readForm stack (t :: ts) = (shift stack t).proceed ts := by
  rw [readForm]
  cases shift stack t <;> rfl

theorem shift_blank {t : Token} (role : t.role = .blank) (stack : List OpenList) :
    shift stack t = .goOn stack := by
  simp only [shift, role]

theorem shift_opening {t : Token} (role : t.role = .opening) {stack : List OpenList}
    (room : stack.length < nestingLimit) : shift stack t = .goOn (⟨t.offset, []⟩ :: stack) := by
  simp only [shift, role, if_pos room]

theorem shift_closing {t : Token} (role : t.role = .closing) (inner : OpenList)
    (outer : List OpenList) :
    shift (inner :: outer) t = deliver (.list inner.items.reverse) outer := by
  simp only [shift, role]

theorem shift_atom {t : Token} {v : Value} (role : t.role = .atom v) (stack : List OpenList) :
    shift stack t = deliver v stack := by
  simp only [shift, role]

theorem readForm_skipBlanks (stack : List OpenList) (ts : List Token) :
    readForm stack (skipBlanks ts) = readForm stack ts := by
  induction ts with
  | nil => rfl
  | cons t ts ih =>
    by_cases blank : t.kind = .blank
    · rw [readForm_cons, shift_blank (role_of_blank blank), Shift.proceed, ← ih,
        skipBlanks_of_blank blank]
    · rw [skipBlanks_of_visible blank]

/-- Reading comes to the next token that is not blank and does what it brings about. -/
theorem readForm_next {ts : List Token} {role : TokenRole} {roles : List TokenRole}
    (spelled : rolesOf ts = role :: roles) (stack : List OpenList) :
    ∃ t rest, t.role = role ∧ rolesOf rest = roles ∧
      readForm stack ts = (shift stack t).proceed rest := by
  induction ts with
  | nil => cases spelled
  | cons t ts ih =>
    rw [rolesOf] at spelled
    split at spelled
    · rename_i blank
      obtain ⟨t', rest, here, later, read⟩ := ih spelled
      refine ⟨t', rest, here, later, ?_⟩
      rw [readForm_cons, shift_blank (role_of_blank blank)]
      exact read
    · obtain ⟨here, later⟩ := List.cons.inj spelled
      exact ⟨t, ts, here, later, readForm_cons stack t ts⟩

/-- The value is read wherever it is spelled, whatever follows. -/
def ReadsBack (v : Value) : Prop :=
  ∀ (ts : List Token) (roles : List TokenRole) (stack : List OpenList),
    rolesOf ts = v.spelling ++ roles → stack.length + v.nesting ≤ nestingLimit →
      ∃ rest, rolesOf rest = roles ∧ readForm stack ts = (deliver v stack).proceed rest

/-- Items are read one by one into the innermost list. -/
theorem readForm_items {items : List Value} (each : ∀ v ∈ items, ReadsBack v)
    {ts : List Token} {roles : List TokenRole}
    (spelled : rolesOf ts = items.flatMap Value.spelling ++ roles) (inner : OpenList)
    (outer : List OpenList)
    (fits : ∀ v ∈ items, outer.length + 1 + v.nesting ≤ nestingLimit) :
    ∃ rest, rolesOf rest = roles ∧ readForm (inner :: outer) ts =
      readForm ({ inner with items := items.reverse ++ inner.items } :: outer) rest := by
  induction items generalizing ts inner with
  | nil => exact ⟨ts, spelled, rfl⟩
  | cons v items ih =>
    rw [List.flatMap_cons, List.append_assoc] at spelled
    obtain ⟨between, spelledRest, read⟩ :=
      each v (by simp) ts _ (inner :: outer) spelled (fits v (by simp))
    -- The next items find this one in front of those that were there.
    obtain ⟨rest, remaining, readRest⟩ := ih (fun w member => each w (by simp [member]))
      spelledRest { inner with items := v :: inner.items }
      (fun w member => fits w (by simp [member]))
    refine ⟨rest, remaining, ?_⟩
    rw [read, deliver, Shift.proceed]
    simpa using readRest

theorem readsBack (v : Value) : ReadsBack v := by
  induction v using Value.listInduction with
  | atom v atom =>
    intro ts roles stack spelled _
    rw [Value.spelling_of_isAtom atom] at spelled
    obtain ⟨t, rest, here, later, read⟩ := readForm_next spelled stack
    exact ⟨rest, later, by rw [read, shift_atom here]⟩
  | list items each =>
    intro ts roles stack spelled fits
    rw [Value.nesting] at fits
    rw [Value.spelling_list, List.cons_append, List.append_assoc] at spelled
    have room : stack.length < nestingLimit := by omega
    obtain ⟨t, ts₁, opening, spelled₁, read₁⟩ := readForm_next spelled stack
    have eachFits : ∀ v ∈ items, stack.length + 1 + v.nesting ≤ nestingLimit := by
      intro v member
      have deepest := Value.nestingOfItems_le_iff.mp (Nat.le_refl _) v member
      omega
    obtain ⟨ts₂, spelled₂, read₂⟩ := readForm_items each spelled₁ ⟨t.offset, []⟩ stack eachFits
    obtain ⟨t', rest, closing, remaining, read₃⟩ :=
      readForm_next spelled₂ (⟨t.offset, items.reverse ++ []⟩ :: stack)
    refine ⟨rest, remaining, ?_⟩
    rw [read₁, shift_opening opening room, Shift.proceed, read₂, read₃, shift_closing closing,
      List.append_nil, List.reverse_reverse]

theorem nesting_of_isAtom {v : Value} (atom : v.IsAtom) : v.nesting = 0 := by
  cases v with
  | list items => exact absurd rfl (atom items)
  | _ => rfl

/-- The value is refused where it nests deeper than the lists that are open leave room for. -/
def RefusedIfDeep (v : Value) : Prop :=
  ∀ (ts : List Token) (roles : List TokenRole) (stack : List OpenList),
    rolesOf ts = v.spelling ++ roles → stack.length ≤ nestingLimit →
      nestingLimit < stack.length + v.nesting → (readForm stack ts).1 = .error .tooDeep

/-- Items are read up to the first that nests too deeply. -/
theorem readForm_deep_items {items : List Value} (each : ∀ v ∈ items, RefusedIfDeep v)
    {ts : List Token} {roles : List TokenRole}
    (spelled : rolesOf ts = items.flatMap Value.spelling ++ roles) (inner : OpenList)
    (outer : List OpenList) (room : outer.length < nestingLimit)
    (deep : ∃ v ∈ items, nestingLimit < outer.length + 1 + v.nesting) :
    (readForm (inner :: outer) ts).1 = .error .tooDeep := by
  induction items generalizing ts inner with
  | nil =>
    obtain ⟨v, member, -⟩ := deep
    cases member
  | cons v items ih =>
    rw [List.flatMap_cons, List.append_assoc] at spelled
    by_cases fits : outer.length + 1 + v.nesting ≤ nestingLimit
    · obtain ⟨rest, remaining, read⟩ := readsBack v ts _ (inner :: outer) spelled fits
      have later : ∃ w ∈ items, nestingLimit < outer.length + 1 + w.nesting := by
        obtain ⟨w, member, deeper⟩ := deep
        rcases List.mem_cons.mp member with rfl | member
        · exact absurd fits (Nat.not_le_of_lt deeper)
        · exact ⟨w, member, deeper⟩
      rw [read]
      exact ih (fun w member => each w (by simp [member])) remaining _ later
    · exact each v (by simp) ts _ (inner :: outer) spelled room (Nat.lt_of_not_le fits)

theorem refusedIfDeep (v : Value) : RefusedIfDeep v := by
  induction v using Value.listInduction with
  | atom v atom =>
    intro ts roles stack _ within deep
    rw [nesting_of_isAtom atom] at deep
    exact absurd within (Nat.not_le_of_lt deep)
  | list items each =>
    intro ts roles stack spelled within deep
    rw [Value.spelling_list, List.cons_append, List.append_assoc] at spelled
    obtain ⟨t, rest, opening, later, read⟩ := readForm_next spelled stack
    rw [read]
    by_cases room : stack.length < nestingLimit
    · rw [shift_opening opening room]
      have items : nestingLimit - (stack.length + 1) < Value.nestingOfItems items := by
        rw [Value.nesting] at deep
        omega
      obtain ⟨v, member, deeper⟩ := Value.lt_nestingOfItems_iff.mp items
      exact readForm_deep_items each later ⟨t.offset, []⟩ stack room ⟨v, member, by omega⟩
    · simp [shift, opening, room, Shift.proceed]

theorem readAll_of_blank {ts : List Token} (blank : skipBlanks ts = []) : readAll ts = .ok [] := by
  rw [readAll]
  split
  · rfl
  · rename_i significant
    rw [blank] at significant
    cases significant

/-- After a form, the rest is read in the same way. -/
theorem readAll_of_ok {ts later : List Token} {v : Value} (significant : skipBlanks ts ≠ [])
    (read : readForm [] (skipBlanks ts) = (.ok v, later)) :
    readAll ts = (readAll later).map (v :: ·) := by
  rw [readAll]
  split
  · rename_i blank
    exact absurd blank significant
  · rename_i first rest shape
    rw [shape] at read
    split
    · rename_i failed
      rw [failed] at read
      cases read
    · rename_i found
      rw [found] at read
      cases read
      cases readAll later <;> rfl

/-- The first of all forms is the one that is read alone. -/
theorem readForm_of_readAll {ts : List Token} {v : Value} {vs : List Value}
    (read : readAll ts = .ok (v :: vs)) : (readForm [] ts).1 = .ok v := by
  rw [readAll] at read
  split at read
  · cases read
  · rename_i significant
    split at read
    · cases read
    · rename_i outcome
      split at read <;> cases read
      rw [← readForm_skipBlanks, significant, outcome]

/-- Tokens that spell values are read as these values. -/
theorem readAll_of_spelled {ts : List Token} {vs : List Value}
    (spelled : rolesOf ts = vs.flatMap Value.spelling)
    (fits : ∀ v ∈ vs, v.nesting ≤ nestingLimit) : readAll ts = .ok vs := by
  induction vs generalizing ts with
  | nil => exact readAll_of_blank ((skipBlanks_eq_nil_iff ts).mpr spelled)
  | cons v vs ih =>
    rw [List.flatMap_cons] at spelled
    obtain ⟨later, remaining, read⟩ := readsBack v (skipBlanks ts) _ []
      (by rw [rolesOf_skipBlanks, spelled]) (by simpa using fits v (by simp))
    have significant : skipBlanks ts ≠ [] := by
      intro blank
      rw [(skipBlanks_eq_nil_iff ts).mp blank] at spelled
      exact v.spelling_ne_nil (List.append_eq_nil_iff.mp spelled.symm).1
    rw [readAll_of_ok significant read, ih remaining fun w member => fits w (by simp [member])]
    rfl

/-! ### What was read is spelled by the tokens there were -/

theorem kind_of_role_blank {t : Token} (role : t.role = .blank) : t.kind = .blank := by
  cases kind : t.kind with
  | blank => rfl
  | integer =>
    simp only [Token.role, kind] at role
    split at role <;> cases role
  | _ => simp [Token.role, kind] at role

/-- No single token stands for a list. -/
theorem isAtom_of_role {t : Token} {v : Value} (role : t.role = .atom v) : v.IsAtom := by
  rintro items rfl
  cases kind : t.kind with
  | integer =>
    simp only [Token.role, kind] at role
    split at role <;> cases role
  | _ => simp [Token.role, kind] at role

theorem rolesOf_singleton {t : Token} (visible : t.role ≠ .blank) : rolesOf [t] = [t.role] := by
  have solid : t.kind ≠ .blank := fun blank => visible (role_of_blank blank)
  rw [rolesOf, if_neg solid, rolesOf]

theorem rolesOf_cons (t : Token) (ts : List Token) :
    rolesOf (t :: ts) = rolesOf [t] ++ rolesOf ts := by
  simp only [rolesOf]
  split <;> rfl

/-- The roles that a stack of open lists was built from. -/
def consumed : List OpenList → List TokenRole
  | [] => []
  | inner :: outer => consumed outer ++ .opening :: inner.items.reverse.flatMap Value.spelling

/-- The open lists and their items keep within the nesting limit. -/
def Fits : List OpenList → Prop
  | [] => True
  | inner :: outer =>
    outer.length < nestingLimit ∧
      (∀ v ∈ inner.items, outer.length + 1 + v.nesting ≤ nestingLimit) ∧ Fits outer

theorem length_le_of_fits {stack : List OpenList} (fits : Fits stack) :
    stack.length ≤ nestingLimit := by
  cases stack with
  | nil => exact Nat.zero_le _
  | cons inner outer => exact fits.1

theorem consumed_deliver {v : Value} {stack next : List OpenList}
    (delivered : deliver v stack = .goOn next) (fits : Fits stack)
    (within : stack.length + v.nesting ≤ nestingLimit) :
    consumed next = consumed stack ++ v.spelling ∧ Fits next := by
  cases stack with
  | nil => cases delivered
  | cons inner outer =>
    cases delivered
    obtain ⟨room, items, rest⟩ := fits
    constructor
    · simp [consumed]
    · refine ⟨room, fun w member => ?_, rest⟩
      rcases List.mem_cons.mp member with rfl | member
      · exact within
      · exact items w member

theorem deliver_stop {v w : Value} {stack : List OpenList}
    (delivered : deliver v stack = .stop (.ok w)) : stack = [] ∧ w = v := by
  cases stack with
  | nil =>
    cases delivered
    exact ⟨rfl, rfl⟩
  | cons inner outer => cases delivered

/-- A list that is closed is spelled by what was consumed since it was opened, and fits
in its place. -/
theorem closed_list_spelling {inner : OpenList} {outer : List OpenList}
    (fits : Fits (inner :: outer)) :
    consumed outer ++ (Value.list inner.items.reverse).spelling =
      consumed (inner :: outer) ++ [.closing] ∧
    outer.length + (Value.list inner.items.reverse).nesting ≤ nestingLimit := by
  obtain ⟨room, items, _⟩ := fits
  constructor
  · simp [Value.spelling_list, consumed]
  · have deepest :
        Value.nestingOfItems inner.items.reverse ≤ nestingLimit - (outer.length + 1) := by
      apply Value.nestingOfItems_le_iff.mpr
      intro v member
      have fit := items v (by simpa using member)
      omega
    rw [Value.nesting]
    omega

/-- A token that lets reading go on is accounted for in the open lists. -/
theorem consumed_shift {stack next : List OpenList} {t : Token}
    (shifted : shift stack t = .goOn next) (fits : Fits stack) :
    consumed next = consumed stack ++ rolesOf [t] ∧ Fits next := by
  cases role : t.role with
  | blank =>
    rw [shift_blank role] at shifted
    cases shifted
    rw [rolesOf, if_pos (kind_of_role_blank role), rolesOf, List.append_nil]
    exact ⟨rfl, fits⟩
  | opening =>
    rw [rolesOf_singleton (by simp [role]), role]
    by_cases room : stack.length < nestingLimit
    · rw [shift_opening role room] at shifted
      cases shifted
      exact ⟨rfl, room, by simp, fits⟩
    · simp [shift, role, room] at shifted
  | closing =>
    rw [rolesOf_singleton (by simp [role]), role]
    cases stack with
    | nil => simp [shift, role] at shifted
    | cons inner outer =>
      rw [shift_closing role] at shifted
      obtain ⟨spelled, within⟩ := closed_list_spelling fits
      rw [← spelled]
      exact consumed_deliver shifted fits.2.2 within
  | atom v =>
    rw [rolesOf_singleton (by simp [role]), role]
    rw [shift_atom role] at shifted
    have atom := isAtom_of_role role
    have within : stack.length + v.nesting ≤ nestingLimit := by
      rw [nesting_of_isAtom atom]
      exact length_le_of_fits fits
    rw [← Value.spelling_of_isAtom atom]
    exact consumed_deliver shifted fits within
  | badNumeral => simp [shift, role] at shifted
  | stray => simp [shift, role] at shifted

/-- A token that completes a form is the last of those that spell it. -/
theorem spelling_of_shift {stack : List OpenList} {t : Token} {v : Value}
    (shifted : shift stack t = .stop (.ok v)) (fits : Fits stack) :
    consumed stack ++ rolesOf [t] = v.spelling ∧ v.nesting ≤ nestingLimit := by
  cases role : t.role with
  | closing =>
    rw [rolesOf_singleton (by simp [role]), role]
    cases stack with
    | nil => simp [shift, role] at shifted
    | cons inner outer =>
      rw [shift_closing role] at shifted
      obtain ⟨rfl, rfl⟩ := deliver_stop shifted
      obtain ⟨spelled, within⟩ := closed_list_spelling fits
      exact ⟨spelled.symm, by simpa using within⟩
  | atom w =>
    rw [rolesOf_singleton (by simp [role]), role]
    rw [shift_atom role] at shifted
    obtain ⟨rfl, rfl⟩ := deliver_stop shifted
    have atom := isAtom_of_role role
    rw [Value.spelling_of_isAtom atom, nesting_of_isAtom atom]
    exact ⟨rfl, Nat.zero_le _⟩
  | opening =>
    simp only [shift, role] at shifted
    split at shifted <;> cases shifted
  | blank | badNumeral | stray => simp [shift, role] at shifted

/-- A form that was read is spelled by the open lists and the tokens taken. -/
theorem spelling_of_readForm {stack : List OpenList} {ts rest : List Token} {v : Value}
    (read : readForm stack ts = (.ok v, rest)) (fits : Fits stack) :
    consumed stack ++ rolesOf ts = v.spelling ++ rolesOf rest ∧ v.nesting ≤ nestingLimit := by
  induction ts generalizing stack with
  | nil => cases read
  | cons t ts ih =>
    rw [readForm_cons] at read
    rw [rolesOf_cons, ← List.append_assoc]
    cases shifted : shift stack t with
    | goOn next =>
      rw [shifted] at read
      -- The token moves from those to come into the account of the open lists.
      obtain ⟨account, fitsNext⟩ := consumed_shift shifted fits
      rw [← account]
      exact ih read fitsNext
    | stop outcome =>
      rw [shifted] at read
      cases read
      obtain ⟨spelled, within⟩ := spelling_of_shift shifted fits
      rw [spelled]
      exact ⟨rfl, within⟩

/-- Forms that were read are spelled by the tokens there were. -/
theorem spelled_of_readAll {ts : List Token} {vs : List Value} (read : readAll ts = .ok vs) :
    rolesOf ts = vs.flatMap Value.spelling ∧ ∀ v ∈ vs, v.nesting ≤ nestingLimit := by
  fun_induction readAll ts generalizing vs with
  | case1 ts blank =>
    cases read
    exact ⟨(skipBlanks_eq_nil_iff ts).mp blank, by simp⟩
  | case2 => cases read
  | case3 => cases read
  | case4 ts first rest significant v later outcome ws readRest ih =>
    cases read
    obtain ⟨spelledRest, within⟩ := ih readRest
    obtain ⟨spelled, fits⟩ := spelling_of_readForm outcome trivial
    rw [← significant, rolesOf_skipBlanks, spelledRest] at spelled
    exact ⟨spelled, by simpa using ⟨fits, within⟩⟩

end ContextLisp
