/-
# The grammar of texts

A text that can be cut into tokens is read exactly if its parentheses are balanced, provided
that its numerals are not too long and its lists not nested too deeply. What is read, written
as tokens again, is what was there. What is not read is refused for one of two reasons, and
the parentheses alone tell which, and which token is to blame.

The reader's stack is followed by the scan of `leftOpen`: it holds the lists that the scan
has open, with the offsets of the tokens that opened them.
-/

import ContextLisp.Proofs.Reading.Balance

namespace ContextLisp

/-! ### The reader follows the scan -/

/-- The token has a place in the grammar. -/
structure Token.IsLegible (t : Token) : Prop where
  numeral : t.role ≠ .badNumeral
  known : t.role ≠ .stray

/-- Exactly the parentheses open and close lists. -/
theorem parenthesis_iff (t : Token) :
    (t.role = .opening ↔ t.kind = .opening) ∧ (t.role = .closing ↔ t.kind = .closing) := by
  cases kind : t.kind with
  | integer =>
    simp only [Token.role, kind]
    split <;> simp
  | _ => simp [Token.role, kind]

/-- Tokens that are blank or stand for a value open and close nothing. -/
theorem kind_of_role_other {t : Token} (notOpening : t.role ≠ .opening)
    (notClosing : t.role ≠ .closing) : t.kind ≠ .opening ∧ t.kind ≠ .closing :=
  ⟨mt (parenthesis_iff t).1.mpr notOpening, mt (parenthesis_iff t).2.mpr notClosing⟩

/-- The fault of tokens, by what a scan of them finds. -/
def scanFault : Except Token (List Token) → ReadFault
  | .error t => .unexpected t
  | .ok [] => .noForm
  | .ok (t :: _) => .unclosed t.offset

/-- What the reader gives agrees with a scan: behind a form the scan goes on with nothing open
and within the limit, and a fault is the one the scan finds. -/
def Agrees (scan : Except Token (List Token)) : Except ReadFault Value × List Token → Prop
  | (.ok _, rest) => scan = leftOpen [] rest ∧ NestsWithin 0 rest
  | (.error fault, _) => fault = scanFault scan

/-- The lists on the stack were opened by these tokens. -/
def Tracks (stack : List OpenList) (opened : List Token) : Prop :=
  stack.map OpenList.offset = opened.map Token.offset

theorem Tracks.length_eq {stack : List OpenList} {opened : List Token}
    (tracks : Tracks stack opened) : stack.length = opened.length := by
  simpa using congrArg List.length tracks

theorem endFault_of_tracks {stack : List OpenList} {opened : List Token}
    (tracks : Tracks stack opened) : endFault stack = scanFault (.ok opened) := by
  cases stack <;> cases opened <;> simp_all [Tracks, endFault, scanFault]

/-- A value that is delivered changes no list that is open; with none open it is the form. -/
theorem agrees_deliver {ts : List Token} {stack : List OpenList} {opened : List Token}
    (ih : ∀ {stack opened}, Tracks stack opened → NestsWithin opened.length ts →
      Agrees (leftOpen opened ts) (readForm stack ts))
    (tracks : Tracks stack opened) (nests : NestsWithin opened.length ts) (v : Value) :
    Agrees (leftOpen opened ts) ((deliver v stack).proceed ts) := by
  cases stack with
  | nil =>
    have none : opened = [] := List.length_eq_zero_iff.mp tracks.length_eq.symm
    subst none
    exact ⟨rfl, nests⟩
  | cons inner outer =>
    exact @ih ({ inner with items := v :: inner.items } :: outer) opened tracks nests

theorem agrees_readForm {ts : List Token} (legible : ∀ t ∈ ts, t.IsLegible)
    {stack : List OpenList} {opened : List Token} (tracks : Tracks stack opened)
    (nests : NestsWithin opened.length ts) :
    Agrees (leftOpen opened ts) (readForm stack ts) := by
  induction ts generalizing stack opened with
  | nil => exact endFault_of_tracks tracks
  | cons t ts ih =>
    have later := fun {stack opened} => @ih (fun u member => legible u (by simp [member]))
      stack opened
    obtain ⟨_, within⟩ := nestsWithin_cons.mp nests
    rw [readForm_cons]
    cases role : t.role with
    | blank =>
      obtain ⟨notOpening, notClosing⟩ := kind_of_role_other (t := t) (by simp [role])
        (by simp [role])
      rw [step_of_other notOpening notClosing, Int.add_zero] at within
      rw [leftOpen_other notOpening notClosing, shift_blank role]
      exact later tracks within
    | opening =>
      have kind := (parenthesis_iff t).1.mp role
      rw [step_of_opening kind] at within
      -- The limit leaves room for one more list, since the depth right behind it is within.
      have room : stack.length < nestingLimit := by
        have depth := within [] List.nil_prefix
        rw [tracks.length_eq]
        simp only [depth_nil] at depth
        omega
      rw [leftOpen_opening kind, shift_opening role room]
      exact later (by simpa [Tracks] using tracks) within
    | closing =>
      have kind := (parenthesis_iff t).2.mp role
      rw [step_of_closing kind] at within
      cases stack with
      | nil =>
        have none : opened = [] := List.length_eq_zero_iff.mp tracks.length_eq.symm
        subst none
        rw [leftOpen_closing_nil kind]
        simp [shift, role, Shift.proceed, Agrees, scanFault]
      | cons inner outer =>
        cases opened with
        | nil => simp [Tracks] at tracks
        | cons u opened =>
          rw [List.length_cons, Int.natCast_succ, Int.add_neg_cancel_right] at within
          rw [leftOpen_closing_cons kind, shift_closing role]
          exact agrees_deliver later (List.cons.inj tracks).2 within _
    | atom v =>
      obtain ⟨notOpening, notClosing⟩ := kind_of_role_other (t := t) (by simp [role])
        (by simp [role])
      rw [step_of_other notOpening notClosing, Int.add_zero] at within
      rw [leftOpen_other notOpening notClosing, shift_atom role]
      exact agrees_deliver later tracks within v
    | badNumeral => exact absurd role (legible t (by simp)).numeral
    | stray => exact absurd role (legible t (by simp)).known

/-! ### All forms -/

/-- Only tokens that are all blank hold no form. -/
theorem skipBlanks_of_readForm_noForm {stack : List OpenList} {ts rest : List Token}
    (read : readForm stack ts = (.error .noForm, rest)) : stack = [] ∧ skipBlanks ts = [] := by
  induction ts generalizing stack with
  | nil =>
    cases stack with
    | nil => exact ⟨rfl, rfl⟩
    | cons => cases read
  | cons t ts ih =>
    rw [readForm_cons] at read
    have nonempty : ∀ {inner : OpenList} {outer : List OpenList},
        readForm (inner :: outer) ts ≠ (.error .noForm, rest) := by
      intro inner outer failed
      cases (ih failed).1
    cases role : t.role with
    | blank =>
      rw [shift_blank role] at read
      obtain ⟨none, blank⟩ := ih read
      exact ⟨none, by rwa [skipBlanks_of_blank (kind_of_role_blank role)]⟩
    | opening =>
      simp only [shift, role] at read
      split at read
      · exact absurd read nonempty
      · cases read
    | closing =>
      cases stack with
      | nil => simp [shift, role, Shift.proceed] at read
      | cons inner outer =>
        rw [shift_closing role] at read
        cases outer with
        | nil => cases read
        | cons => exact absurd read nonempty
    | atom v =>
      rw [shift_atom role] at read
      cases stack with
      | nil => cases read
      | cons => exact absurd read nonempty
    | badNumeral => simp [shift, role, Shift.proceed] at read
    | stray => simp [shift, role, Shift.proceed] at read

theorem leftOpen_skipBlanks (opened ts : List Token) :
    leftOpen opened (skipBlanks ts) = leftOpen opened ts := by
  induction ts with
  | nil => rfl
  | cons t ts ih =>
    by_cases blank : t.kind = .blank
    · rw [leftOpen_other (by simp [blank]) (by simp [blank]), skipBlanks_of_blank blank, ih]
    · rw [skipBlanks_of_visible blank]

theorem nestsWithin_skipBlanks {start : Int} {ts : List Token} (nests : NestsWithin start ts) :
    NestsWithin start (skipBlanks ts) := by
  induction ts with
  | nil => exact nests
  | cons t ts ih =>
    by_cases blank : t.kind = .blank
    · obtain ⟨_, within⟩ := nestsWithin_cons.mp nests
      rw [step_of_other (by simp [blank]) (by simp [blank]), Int.add_zero] at within
      rw [skipBlanks_of_blank blank]
      exact ih within
    · rwa [skipBlanks_of_visible blank]

/-- The first form is read as a scan of all tokens says. -/
theorem agrees_first {ts : List Token} (legible : ∀ t ∈ ts, t.IsLegible)
    (nests : NestsWithin 0 ts) : Agrees (leftOpen [] ts) (readForm [] (skipBlanks ts)) := by
  rw [← leftOpen_skipBlanks]
  exact agrees_readForm (fun t member => legible t ((skipBlanks_suffix ts).subset member))
    rfl (nestsWithin_skipBlanks nests)

theorem legible_of_readForm {ts rest : List Token} {outcome : Except ReadFault Value}
    (legible : ∀ t ∈ ts, t.IsLegible) (read : readForm [] (skipBlanks ts) = (outcome, rest)) :
    ∀ t ∈ rest, t.IsLegible := by
  intro t member
  have suffix := readForm_suffix [] (skipBlanks ts)
  rw [read] at suffix
  exact legible t ((skipBlanks_suffix ts).subset (suffix.subset member))

/-- All forms are read only if the scan leaves nothing open. Otherwise it leaves something open
or fails, and the fault is the one it finds. -/
theorem leftOpen_of_readAll {ts : List Token} (legible : ∀ t ∈ ts, t.IsLegible)
    (nests : NestsWithin 0 ts) :
    match readAll ts with
    | .ok _ => leftOpen [] ts = .ok []
    | .error (fault, _) => leftOpen [] ts ≠ .ok [] ∧ fault = scanFault (leftOpen [] ts) := by
  have agrees := agrees_first legible nests
  fun_induction readAll ts with
  | case1 ts blank =>
    rw [← leftOpen_skipBlanks, blank]
    rfl
  | case2 ts first rest significant fault later outcome =>
    rw [significant, outcome] at agrees
    refine ⟨fun nothing => ?_, agrees⟩
    -- Nothing is left open, so the fault would be that there is no form, but there is a token.
    have noForm : fault = .noForm := by
      rw [nothing] at agrees
      exact agrees
    rw [noForm, ← significant] at outcome
    have blank := (skipBlanks_of_readForm_noForm outcome).2
    rw [skipBlanks_eq_nil_iff, rolesOf_skipBlanks, ← skipBlanks_eq_nil_iff, significant] at blank
    cases blank
  | case3 ts first rest significant v later outcome fault failed ih =>
    rw [significant, outcome] at agrees
    rw [← significant] at outcome
    have legibleLater := legible_of_readForm legible outcome
    have scanned := ih legibleLater agrees.2 (agrees_first legibleLater agrees.2)
    rw [failed] at scanned
    rwa [agrees.1]
  | case4 ts first rest significant v later outcome ws read ih =>
    rw [significant, outcome] at agrees
    rw [← significant] at outcome
    have legibleLater := legible_of_readForm legible outcome
    have scanned := ih legibleLater agrees.2 (agrees_first legibleLater agrees.2)
    rw [read] at scanned
    rwa [agrees.1]

/-! ### Forms as tokens -/

/-- A token as it is written: an integer by the number that its digits write in base ten, all else
by kind and text. -/
inductive Lexeme where
  | number (n : Int)
  | word (kind : TokenKind) (text : String)
  deriving DecidableEq, Repr

/-- How a token is written. -/
def Token.lexeme (t : Token) : Lexeme :=
  if t.kind = .integer then .number (Numeral.signedDecimal t.text.toList)
  else .word t.kind t.text

mutual

/-- A value as tokens: one literal for an atom, and parentheses around the items of a list. Texts
and what can be called have no literals. -/
def Value.lexemes : Value → List Lexeme
  | .int n => [.number n]
  | .bool b => [.word .boolean (if b then "true" else "false")]
  | .nil => [.word .nil "nil"]
  | .symbol name => [.word .symbol name]
  | .keyword name => [.word .keyword (":" ++ name)]
  | .list items => .word .opening "(" :: (lexemesOfItems items ++ [.word .closing ")"])
  | _ => []

/-- Several values as tokens. -/
def Value.lexemesOfItems : List Value → List Lexeme
  | [] => []
  | v :: vs => v.lexemes ++ lexemesOfItems vs

end

theorem Value.lexemesOfItems_eq_flatMap (vs : List Value) :
    lexemesOfItems vs = vs.flatMap lexemes := by
  induction vs with
  | nil => rfl
  | cons v vs ih => rw [lexemesOfItems, ih, List.flatMap_cons]

/-- How a token of a role is written. -/
def TokenRole.lexemes : TokenRole → List Lexeme
  | .opening => [.word .opening "("]
  | .closing => [.word .closing ")"]
  | .atom v => v.lexemes
  | _ => []

/-- A value is written as the roles that spell it are. -/
theorem Value.lexemes_eq_flatMap_spelling (v : Value) :
    v.lexemes = v.spelling.flatMap TokenRole.lexemes := by
  induction v using Value.listInduction with
  | atom v atom => simp [spelling_of_isAtom atom, TokenRole.lexemes]
  | list items each =>
    have inside : items.flatMap lexemes = (items.flatMap spelling).flatMap TokenRole.lexemes := by
      rw [List.flatMap_assoc, List.flatMap_def, List.flatMap_def, List.map_congr_left each]
    simp [spelling_list, lexemes, lexemesOfItems_eq_flatMap, inside, TokenRole.lexemes]

/-- A token that has a place in the grammar is written as its role is. -/
theorem Token.lexemes_role {t : Token} (whole : t.IsWhole) (legible : t.IsLegible)
    (visible : t.kind ≠ .blank) : t.role.lexemes = [t.lexeme] := by
  cases role : t.role with
  | blank => exact absurd (kind_of_role_blank role) visible
  | opening =>
    have kind := (parenthesis_iff t).1.mp role
    simp [TokenRole.lexemes, Token.lexeme, kind, text_of_opening whole kind]
  | closing =>
    have kind := (parenthesis_iff t).2.mp role
    simp [TokenRole.lexemes, Token.lexeme, kind, text_of_closing whole kind]
  | atom v =>
    rcases atom_cases role with ⟨kind, n, read, rfl⟩ | ⟨kind, rfl⟩ | ⟨kind, rfl⟩ |
      ⟨kind, rfl⟩ | ⟨kind, rfl⟩
    · rw [Numeral.ofText?_of_isWhole whole kind, Option.ite_none_right_eq_some] at read
      obtain ⟨-, written⟩ := read
      simp [TokenRole.lexemes, Value.lexemes, Token.lexeme, kind, Option.some.inj written]
    · rcases text_of_boolean whole kind with text | text <;>
        simp [TokenRole.lexemes, Value.lexemes, Token.lexeme, kind, text]
    · simp [TokenRole.lexemes, Value.lexemes, Token.lexeme, kind, text_of_nil whole kind]
    · rw [TokenRole.lexemes, Value.lexemes, text_of_keyword whole kind, Token.lexeme]
      simp [kind]
    · simp [TokenRole.lexemes, Value.lexemes, Token.lexeme, kind]
  | badNumeral => exact absurd role legible.numeral
  | stray => exact absurd role legible.known

theorem lexemes_of_rolesOf {ts : List Token}
    (each : ∀ t ∈ ts, t.IsWhole ∧ t.IsLegible) :
    (rolesOf ts).flatMap TokenRole.lexemes =
      (ts.filter fun t => t.kind ≠ .blank).map Token.lexeme := by
  induction ts with
  | nil => rfl
  | cons t ts ih =>
    have later := ih fun u member => each u (by simp [member])
    obtain ⟨whole, legible⟩ := each t (by simp)
    by_cases blank : t.kind = .blank
    · simpa [rolesOf, blank] using later
    · rw [rolesOf, if_neg blank, List.flatMap_cons, Token.lexemes_role whole legible blank, later]
      simp [blank]

/-! ### Texts -/

theorem TokenKind.mem_of_firstOf {cs : List Char} {kinds : List TokenKind} {kind : TokenKind}
    {n : Nat} (found : firstOf cs kinds = some (kind, n)) : kind ∈ kinds := by
  induction kinds with
  | nil => cases found
  | cons k kinds ih =>
    rw [firstOf] at found
    split at found
    · exact List.mem_cons_of_mem k (ih found)
    · cases found
      exact List.mem_cons_self

/-- A single token has a place in the grammar, unless it is a numeral that is too long. -/
theorem Token.isLegible_of_isWhole {t : Token} (whole : t.IsWhole)
    (numeral : t.kind = .integer → t.text.toList.countP Char.isDigit ≤ Numeral.digitLimit) :
    t.IsLegible := by
  have kinds : t.kind ∈ TokenKind.priority := TokenKind.mem_of_firstOf whole
  cases kind : t.kind with
  | integer =>
    have read := Numeral.ofText?_of_isWhole whole kind
    rw [if_pos (numeral kind)] at read
    constructor <;> simp [Token.role, kind, read]
  | other tag =>
    rw [kind] at kinds
    simp [TokenKind.priority] at kinds
  | _ => constructor <;> simp [Token.role, kind]

/-- The text is read as its tokens are. -/
theorem parseAll_of_tokenize {source : String} {tokens : List Token}
    (cut : tokenize source = .ok tokens) :
    parseAll source =
      (readAll tokens).mapError fun (fault, start) => fault.toErrorAt source start := by
  rw [parseAll, cut]

/-- The parentheses of the tokens decide what reading gives: forms if the scan leaves nothing
open, else the error that the scan tells. -/
theorem parseAll_of_leftOpen {source : String} {tokens : List Token}
    (cut : tokenize source = .ok tokens) (legible : ∀ t ∈ tokens, t.IsLegible)
    (nests : NestsWithin 0 tokens) :
    (leftOpen [] tokens = .ok [] → ∃ forms, parseAll source = .ok forms) ∧
    (leftOpen [] tokens ≠ .ok [] →
      parseAll source = .error ((scanFault (leftOpen [] tokens)).toError source)) := by
  have scanned := leftOpen_of_readAll legible nests
  rw [parseAll_of_tokenize cut]
  cases outcome : readAll tokens with
  | ok forms =>
    rw [outcome] at scanned
    exact ⟨fun _ => ⟨forms, rfl⟩, fun something => absurd scanned something⟩
  | error failure =>
    obtain ⟨fault, start⟩ := failure
    rw [outcome] at scanned
    obtain ⟨something, told⟩ := scanned
    refine ⟨fun nothing => absurd nothing something, fun _ => ?_⟩
    subst told
    -- The scan never finds that lists are nested too deeply, so the form's start is not told.
    cases leftOpen [] tokens with
    | error t => rfl
    | ok left => cases left <;> rfl

/-- Let a text be cut into tokens, with numerals and nesting within the limits. Then all of it
is read as forms exactly if its parentheses are balanced, and the forms, written as tokens, are
the tokens of the text, blank ones aside and integers taken for the numbers that their digits write
in base ten. If a closing token finds no list open, the first one that does is refused as
unexpected. If there is none and a list is never closed, the list opened last of these is said not
to terminate, at the place where it was opened. Nothing else can go wrong. -/
theorem text_is_read_iff_balanced {source : String} {tokens : List Token}
    (cut : tokenize source = .ok tokens)
    (numerals : ∀ t ∈ tokens, t.kind = .integer →
      t.text.toList.countP Char.isDigit ≤ Numeral.digitLimit)
    (nests : ∀ front, front <+: tokens → openings front ≤ closings front + nestingLimit) :
    ((∃ forms, parseAll source = .ok forms) ↔ Balanced tokens) ∧
    (∀ forms, parseAll source = .ok forms →
      forms.flatMap Value.lexemes =
        (tokens.filter fun t => t.kind ≠ .blank).map Token.lexeme) ∧
    (∀ t, FirstStray tokens t →
      parseAll source = .error (.malformed ⟨.unexpected ")", some t.offset, some source⟩)) ∧
    ((¬ ∃ t, FirstStray tokens t) → ∀ t, LastUnclosed tokens t →
      parseAll source = .error (.malformed ⟨.unclosed, some t.offset, some source⟩)) ∧
    (∀ e, parseAll source = .error e →
      (∃ t, FirstStray tokens t) ∨ ∃ t, LastUnclosed tokens t) ∧
    (SyntaxFault.unexpected ")").message = "Unexpected token ')'" ∧
    SyntaxFault.unclosed.message = "Invalid list form: did not terminate" := by
  have whole : ∀ t ∈ tokens, t.IsWhole := by
    intro t member
    rw [tokens_of_tokenize cut] at member
    exact Lexing.first?_of_mem_tokens member
  have legible : ∀ t ∈ tokens, t.IsLegible := fun t member =>
    Token.isLegible_of_isWhole (whole t member) (numerals t member)
  have within : NestsWithin 0 tokens := by
    intro front before
    have bound := nests front before
    rw [depth_eq]
    omega
  obtain ⟨accepts, refuses⟩ := parseAll_of_leftOpen cut legible within
  refine ⟨?_, ?_, ?_, ?_, ?_, by decide +kernel, rfl⟩
  · rw [← leftOpen_eq_nil_iff]
    refine ⟨fun ⟨forms, read⟩ => ?_, accepts⟩
    by_contra something
    rw [refuses something] at read
    cases read
  · intro forms read
    obtain ⟨_, readTokens⟩ := parseAll_eq_ok_iff.mp read
    rw [← tokens_of_tokenize cut] at readTokens
    obtain ⟨spelled, _⟩ := spelled_of_readAll readTokens
    rw [← lexemes_of_rolesOf fun t member => ⟨whole t member, legible t member⟩, spelled,
      List.flatMap_assoc]
    simp only [← Value.lexemes_eq_flatMap_spelling]
  · intro t stray
    have scanned := (leftOpen_eq_error_iff tokens t).mpr stray
    obtain ⟨member, closing⟩ := closing_of_leftOpen_error scanned
    rw [refuses (by simp [scanned]), scanned, scanFault, ReadFault.toError,
      Token.text_of_closing (whole t member) closing]
  · intro noStray t last
    have never : NeverBelow 0 tokens := by
      cases scanned : leftOpen [] tokens with
      | error u => exact absurd ⟨u, (leftOpen_eq_error_iff tokens u).mp scanned⟩ noStray
      | ok left => simpa using (depth_of_leftOpen_ok scanned).1
    obtain ⟨outer, scanned⟩ := leftOpen_of_lastUnclosed never last
    rw [refuses (by simp [scanned]), scanned]
    rfl
  · intro e failed
    cases scanned : leftOpen [] tokens with
    | error t => exact .inl ⟨t, (leftOpen_eq_error_iff tokens t).mp scanned⟩
    | ok left =>
      cases left with
      | nil =>
        obtain ⟨forms, read⟩ := accepts scanned
        rw [read] at failed
        cases failed
      | cons t outer => exact .inr ⟨t, lastUnclosed_of_leftOpen scanned⟩

/-- A balanced text is read: the numeral in it counts by its value, and the list within the list is
taken for what it is. Of two lists that are never closed the inner one is blamed, and a closing
token that is one too many before a list that is not closed. -/
theorem unbalanced_texts_are_blamed :
    (parseAll "(a (-07)) 9" = .ok [.list [.symbol "a", .list [.int (-7)]], .int 9] ∧
      [Value.list [.symbol "a", .list [.int (-7)]], .int 9].flatMap Value.lexemes =
        [.word .opening "(", .word .symbol "a", .word .opening "(", .number (-7),
          .word .closing ")", .word .closing ")", .number 9]) ∧
    parseAll "(a (-1 ()" = .error (.malformed ⟨.unclosed, some 3, some "(a (-1 ()"⟩) ∧
    parseAll "(a)) (" = .error (.malformed ⟨.unexpected ")", some 3, some "(a)) ("⟩) := by
  have shallow : ∀ {tokens : List Token}, openings tokens ≤ nestingLimit →
      ∀ front, front <+: tokens → openings front ≤ closings front + nestingLimit := by
    intro tokens few front before
    have fewer : openings front ≤ openings tokens := before.sublist.countP_le
    omega
  refine ⟨?_, ?_, ?_⟩
  · have cut : tokenize "(a (-07)) 9" = .ok
        [⟨.opening, "(", 0⟩, ⟨.symbol, "a", 1⟩, ⟨.blank, " ", 2⟩, ⟨.opening, "(", 3⟩,
          ⟨.integer, "-07", 4⟩, ⟨.closing, ")", 7⟩, ⟨.closing, ")", 8⟩, ⟨.blank, " ", 9⟩,
          ⟨.integer, "9", 10⟩] := by cbv
    have read : parseAll "(a (-07)) 9" =
        .ok [.list [.symbol "a", .list [.int (-7)]], .int 9] := by
      rw [parseAll_of_tokenize cut]
      exact congrArg (Except.mapError _) (readAll_of_spelled (by cbv) (by decide))
    obtain ⟨_, spelled, _⟩ := text_is_read_iff_balanced cut (by decide) (shallow (by decide))
    exact ⟨read, (spelled _ read).trans (by decide)⟩
  · have cut : tokenize "(a (-1 ()" = .ok
        [⟨.opening, "(", 0⟩, ⟨.symbol, "a", 1⟩, ⟨.blank, " ", 2⟩, ⟨.opening, "(", 3⟩,
          ⟨.integer, "-1", 4⟩, ⟨.blank, " ", 6⟩, ⟨.opening, "(", 7⟩, ⟨.closing, ")", 8⟩] := by cbv
    obtain ⟨_, _, _, unclosed, _⟩ :=
      text_is_read_iff_balanced cut (by decide) (shallow (by decide))
    refine unclosed ?_ ⟨.opening, "(", 3⟩ (lastUnclosed_of_leftOpen rfl)
    rintro ⟨t, stray⟩
    rw [← leftOpen_eq_error_iff] at stray
    cases stray
  · have cut : tokenize "(a)) (" = .ok
        [⟨.opening, "(", 0⟩, ⟨.symbol, "a", 1⟩, ⟨.closing, ")", 2⟩, ⟨.closing, ")", 3⟩,
          ⟨.blank, " ", 4⟩, ⟨.opening, "(", 5⟩] := by cbv
    obtain ⟨_, _, stray, _⟩ :=
      text_is_read_iff_balanced cut (by decide) (shallow (by decide))
    exact stray ⟨.closing, ")", 3⟩ ((leftOpen_eq_error_iff _ _).mp rfl)

end ContextLisp
