/-
# Which values can be read back

A host can build symbols and keywords of any name, also of names that no text is read as.
Source text is made all the same: the name is written as it is. So the text of a value that
holds such a name means something else, or nothing.

The source text of a value is read back as that value exactly if every name in it can be read.
One direction holds because what is read consists of single tokens, the other because the
text of a readable value spells it. So whatever is read from a text has readable names only.
-/

import ContextLisp.Proofs.Reading.Literals

namespace ContextLisp

namespace Value

/-- Integers that can be written, booleans, nil, symbols and keywords of any name, and lists
of these. -/
inductive IsDatum : Value → Prop
  | int {n : Int} (short : n.natAbs < 10 ^ Numeral.digitLimit) : IsDatum (.int n)
  | bool (b : Bool) : IsDatum (.bool b)
  | nil : IsDatum .nil
  | symbol (name : String) : IsDatum (.symbol name)
  | keyword (name : String) : IsDatum (.keyword name)
  | list {items : List Value} (each : ∀ v ∈ items, IsDatum v) : IsDatum (.list items)

/-- One value stands somewhere in the other. -/
inductive Occurs (a : Value) : Value → Prop
  | self : Occurs a a
  | item {items : List Value} {v : Value} (member : v ∈ items) (inside : Occurs a v) :
      Occurs a (.list items)

theorem isAtom_symbol (name : String) : (Value.symbol name).IsAtom := nofun

theorem isAtom_keyword (name : String) : (Value.keyword name).IsAtom := nofun

theorem isReadable_symbol_iff (name : String) :
    (Value.symbol name).IsReadable ↔ IsReadableSymbol name.toList := by
  rw [← isLiteral_symbol_iff]
  constructor
  · intro readable
    exact readable _ (by simp [spelling_of_isAtom (isAtom_symbol name)])
  · exact isReadable_of_isAtom (isAtom_symbol name)

/-- An atom stands in a value exactly if it is spelled there. -/
theorem mem_spelling_iff {a : Value} (atom : a.IsAtom) (v : Value) :
    .atom a ∈ v.spelling ↔ Occurs a v := by
  induction v using Value.listInduction with
  | atom v other =>
    rw [spelling_of_isAtom other, List.mem_singleton, TokenRole.atom.injEq]
    constructor
    · rintro rfl
      exact .self
    · intro occurs
      cases occurs with
      | self => rfl
      | item => exact absurd rfl (other _)
  | list items each =>
    rw [mem_spelling_list_iff]
    constructor
    · rintro ⟨v, member, inside⟩
      exact .item member ((each v member).mp inside)
    · intro occurs
      cases occurs with
      | self => exact absurd rfl (atom items)
      | item member inside => exact ⟨_, member, (each _ member).mpr inside⟩

theorem isAtom_of_mem_spelling {a v : Value} (spelled : .atom a ∈ v.spelling) : a.IsAtom := by
  induction v using Value.listInduction with
  | atom v atom =>
    rw [spelling_of_isAtom atom, List.mem_singleton, TokenRole.atom.injEq] at spelled
    exact spelled ▸ atom
  | list items each =>
    obtain ⟨v, member, inside⟩ := mem_spelling_list_iff.mp spelled
    exact each v member inside

theorem sourceItems?_of_forall {items : List Value}
    (each : ∀ v ∈ items, ∃ text, v.source? = some text) :
    ∃ texts, sourceItems? items = some texts := by
  induction items with
  | nil => exact ⟨[], rfl⟩
  | cons v items ih =>
    obtain ⟨text, source⟩ := each v (by simp)
    obtain ⟨texts, sources⟩ := ih fun w member => each w (by simp [member])
    exact ⟨text :: texts, by simp [sourceItems?, source, sources]⟩

/-- Every datum has source text, whether it can be read or not. -/
theorem IsDatum.exists_source {v : Value} (datum : v.IsDatum) :
    ∃ text, v.source? = some text := by
  induction datum with
  | int short => exact ⟨_, Numeral.write?_of_lt short⟩
  | bool | nil | symbol | keyword => exact ⟨_, rfl⟩
  | list _ each =>
    obtain ⟨texts, sources⟩ := sourceItems?_of_forall each
    exact ⟨_, by rw [source?, sources, Option.map_some]⟩

theorem IsDatum.of_occurs {a v : Value} (datum : v.IsDatum) (occurs : Occurs a v) :
    a.IsDatum := by
  induction occurs with
  | self => exact datum
  | item member _ ih =>
    cases datum with
    | list each => exact ih (each _ member)

theorem isDatum_of_role {t : Token} {v : Value} (role : t.role = .atom v) : v.IsDatum := by
  rcases atom_cases role with ⟨_, n, read, rfl⟩ | ⟨_, rfl⟩ | ⟨_, rfl⟩ | ⟨_, rfl⟩ | ⟨_, rfl⟩
  · exact .int (Numeral.ofText?_natAbs_lt read)
  · exact .bool _
  · exact .nil
  · exact .keyword _
  · exact .symbol _

/-- Every name in the value can be read. -/
structure HasReadableNames (v : Value) : Prop where
  symbols : ∀ name, Occurs (.symbol name) v → IsReadableSymbol name.toList
  keywords : ∀ name, Occurs (.keyword name) v → IsSymbolText name.toList

/-- Of a datum, only the names decide whether it is readable. -/
theorem IsDatum.isReadable_iff {v : Value} (datum : v.IsDatum) :
    v.IsReadable ↔ v.HasReadableNames := by
  constructor
  · intro readable
    refine ⟨fun name occurs => ?_, fun name occurs => ?_⟩
    · exact (isLiteral_symbol_iff name).mp
        (readable _ ((mem_spelling_iff (isAtom_symbol name) v).mpr occurs))
    · exact (isLiteral_keyword_iff name).mp
        (readable _ ((mem_spelling_iff (isAtom_keyword name) v).mpr occurs))
  · intro names a spelled
    have atom : a.IsAtom := isAtom_of_mem_spelling spelled
    have occurs : Occurs a v := (mem_spelling_iff atom v).mp spelled
    cases datum.of_occurs occurs with
    | int short => exact isLiteral_int short
    | bool b => exact isLiteral_bool b
    | nil => exact isLiteral_nil
    | symbol name => exact (isLiteral_symbol_iff name).mpr (names.symbols name occurs)
    | keyword name => exact (isLiteral_keyword_iff name).mpr (names.keywords name occurs)
    | list => exact absurd rfl (atom _)

/-- The value is as it can be read from a text: single tokens stand for its atoms, and no more
lists are open at once than the reader admits. -/
structure FromText (v : Value) : Prop where
  atoms : ∀ a, .atom a ∈ v.spelling → ∃ t : Token, t.IsWhole ∧ t.role = .atom a
  nests : v.nesting ≤ nestingLimit

namespace FromText

variable {v : Value}

theorem isReadable (fromText : v.FromText) : v.IsReadable := by
  intro a inside
  obtain ⟨t, whole, role⟩ := fromText.atoms a inside
  exact isLiteral_of_role whole role

theorem item {items : List Value} (fromText : (Value.list items).FromText) (member : v ∈ items) :
    v.FromText where
  atoms a inside := fromText.atoms a (mem_spelling_list_iff.mpr ⟨v, member, inside⟩)
  nests := Nat.le_of_lt (Nat.lt_of_lt_of_le (nesting_lt_of_mem member) fromText.nests)

theorem of_occurs {a : Value} (fromText : v.FromText) (occurs : Occurs a v) : a.FromText := by
  induction occurs with
  | self => exact fromText
  | item member _ ih => exact ih (fromText.item member)

/-- A property of lists of values that have it, and of what single tokens stand for, is one of
everything that is read. -/
theorem holds {P : Value → Prop} (list : ∀ items, (∀ v ∈ items, P v) → P (.list items))
    (atom : ∀ (t : Token) v, t.role = .atom v → P v) (fromText : v.FromText) : P v := by
  induction v using listInduction with
  | atom v isAtom =>
    obtain ⟨t, _, role⟩ := fromText.atoms v (by simp [spelling_of_isAtom isAtom])
    exact atom t v role
  | list items each =>
    exact list items fun v member => each v member (fromText.item member)

theorem isDatum (fromText : v.FromText) : v.IsDatum :=
  fromText.holds (fun _ => .list) fun _ _ => isDatum_of_role

end FromText

/-- The first form of a text is read from it. -/
theorem fromText_of_parse {source : String} {v : Value} (read : parse source = .ok v) :
    v.FromText := by
  unfold parse at read
  split at read
  · cases read
  · rename_i tokens cut
    cases outcome : readForm [] tokens with
    | mk result rest =>
      rw [outcome] at read
      cases result with
      | error fault => cases read
      | ok w =>
        cases read
        obtain ⟨account, nests⟩ := spelling_of_readForm outcome trivial
        refine ⟨fun a inside => ?_, nests⟩
        have among : .atom a ∈ consumed [] ++ rolesOf tokens := by
          rw [account]
          exact List.mem_append_left _ inside
        rw [tokens_of_tokenize cut] at among
        exact exists_isWhole_of_mem_rolesOf among

/-- So are all forms of it. -/
theorem fromText_of_parseAll {source : String} {forms : List Value}
    (read : parseAll source = .ok forms) : ∀ v ∈ forms, v.FromText := by
  obtain ⟨spelled, nests⟩ := spelled_of_readAll (parseAll_eq_ok_iff.mp read).2
  intro v member
  refine ⟨fun a inside => ?_, nests v member⟩
  have among : .atom a ∈ rolesOf (Lexing.ofChars 0 source.toList).tokens := by
    rw [spelled]
    exact List.mem_flatMap_of_mem member inside
  exact exists_isWhole_of_mem_rolesOf among

/-- The text of a readable value is read as that value alone. -/
theorem parseAll_of_isReadable {v : Value} {text : String} (readable : v.IsReadable)
    (source : v.source? = some text) (nests : v.nesting ≤ nestingLimit) :
    parseAll text = .ok [v] := by
  obtain ⟨text', prints⟩ := prints_of_isReadable readable
  obtain rfl : text = text' := Option.some.inj (source.symm.trans prints.source)
  exact SpelledBy.parseAll_eq_ok ⟨prints.visible, prints.adds⟩ nests

end Value

/-- Every datum has source text. The text is read back, as this datum and nothing else, exactly
if each symbol in the datum has the shape of a symbol and begins neither with `true`, `false`
or `nil` nor with a minus sign and a digit, and each keyword has the shape of a symbol behind
its colon. -/
theorem source_reads_back_iff_names_readable {v : Value} (datum : v.IsDatum)
    (nests : v.nesting ≤ nestingLimit) :
    ∃ text, v.source? = some text ∧ (parseAll text = .ok [v] ↔ v.HasReadableNames) := by
  obtain ⟨text, source⟩ := datum.exists_source
  refine ⟨text, source, ?_⟩
  rw [← datum.isReadable_iff]
  constructor
  · intro read
    obtain ⟨_, readTokens⟩ := parseAll_eq_ok_iff.mp read
    obtain ⟨spelled, _⟩ := spelled_of_readAll readTokens
    exact isReadable_of_spelled spelled v (by simp)
  · intro readable
    exact Value.parseAll_of_isReadable readable source nests

/-- `(-x :true (-12 nil))`. -/
def readableDatum : Value :=
  .list [.symbol "-x", .keyword "true", .list [.int (-12), .nil]]

/-- A list of one symbol whose name holds a space; its text is that of two symbols. -/
def spacedDatum : Value := .list [.symbol "a b"]

theorem readableDatum_names : readableDatum.HasReadableNames := by
  constructor
  · intro name occurs
    have spelled := (Value.mem_spelling_iff (Value.isAtom_symbol name) readableDatum).mpr occurs
    obtain rfl : name = "-x" := by
      simpa [readableDatum, Value.spelling, Value.spellingOfItems] using spelled
    have parts : ∀ c ∈ ['x'], isSymbolPart c = true := List.all_eq_true.mp (by decide)
    refine ⟨⟨'-', ['x'], rfl, by decide, parts⟩, by decide, by decide, by decide, ?_⟩
    rintro d rest ⟨⟩
    decide
  · intro name occurs
    have spelled := (Value.mem_spelling_iff (Value.isAtom_keyword name) readableDatum).mpr occurs
    obtain rfl : name = "true" := by
      simpa [readableDatum, Value.spelling, Value.spellingOfItems] using spelled
    exact ⟨'t', ['r', 'u', 'e'], rfl, by decide, List.all_eq_true.mp (by decide)⟩

/-- A keyword may be called `true`, and a symbol may begin with a minus sign: the first datum is
read back. The text of the second one is read, but as another value. -/
theorem readable_and_spaced_names :
    (∃ text, readableDatum.source? = some text ∧ parseAll text = .ok [readableDatum]) ∧
    ∃ text, spacedDatum.source? = some text ∧ parseAll text ≠ .ok [spacedDatum] := by
  have datum : readableDatum.IsDatum := by
    refine .list ?_
    simp only [List.forall_mem_cons, List.not_mem_nil, false_implies, implies_true, and_true]
    refine ⟨.symbol _, .keyword _, .list ?_⟩
    simp only [List.forall_mem_cons, List.not_mem_nil, false_implies, implies_true, and_true]
    exact ⟨.int (by decide +kernel), .nil⟩
  have spaced : spacedDatum.IsDatum := by
    refine .list ?_
    simpa using Value.IsDatum.symbol "a b"
  obtain ⟨text, source, reads⟩ :=
    source_reads_back_iff_names_readable datum (by decide)
  obtain ⟨text', source', reads'⟩ :=
    source_reads_back_iff_names_readable spaced (by decide)
  refine ⟨⟨text, source, reads.mpr readableDatum_names⟩, text', source', fun back => ?_⟩
  obtain ⟨c, rest, shape, _, parts⟩ :=
    ((reads'.mp back).symbols "a b" (.item List.mem_cons_self .self)).shaped
  cases shape
  exact absurd (parts ' ' (by decide)) (by decide)

end ContextLisp
