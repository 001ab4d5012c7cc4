/-
# How the evaluation of a text can fail

Evaluation of a text reports most of its failures itself. Apart from that it can fail for a
resource: an integer that is too long to be read or written, a sequence that would be too long,
or a count that is too large. There is nothing else: data are never of a kind that a builtin
trips over, and the stack that runs out is reported.

Each of these failures has a cause that can be told from outside. A product that repeats a
sequence is the last call on record if its size is at fault. A numeral is at fault only if one
stands in the text, if one was bound in the beginning, or if a sum or a product has become that
long. The invariant behind the latter: as long as no call gave an integer that is too long, every
value that is about can be written.
-/

import ContextLisp.Proofs.Arithmetic
import ContextLisp.Proofs.Evaluation.Agreement
import ContextLisp.Proofs.Rendering
import ContextLisp.Proofs.Session.Isolation

namespace ContextLisp

/-! ### Builtins that fail -/

namespace Builtin

/-- A builtin fails with an error of the language, for a numeral in what it was to show, or
because it multiplies a sequence. -/
theorem run_error_cases {b : Builtin} {args : List Value} {e : Error}
    (failed : b.run args = .error e) :
    e.isReported = true ∨ (e = .numeral ∧ ∃ a ∈ args, ¬ a.IsWritable) ∨
      (e = .countOverflow ∨ e = .outOfMemory) ∧ b = .mul ∧ ∃ a ∈ args, a.isSequence = true := by
  cases b with
  | add =>
    rw [sum_error failed]
    exact .inl rfl
  | mul =>
    have refuses := combine_error (fun _ _ _ => refuses_of_times) failed
    rcases product_error failed with found | rfl
    · cases refuses with
      | notNumbers => exact .inl rfl
      | countOverflow => exact .inr (.inr ⟨.inl rfl, rfl, found⟩)
      | outOfMemory => exact .inr (.inr ⟨.inr rfl, rfl, found⟩)
    · exact .inl rfl
  | compare c =>
    simp only [run, compareAll] at failed
    split at failed
    · cases failed
      rcases (Rejection.arity _).settle_cases with reported | ⟨_, v, none, _⟩
      · exact .inl reported
      · cases none
    · split at failed
      · cases failed
      · cases failed
        exact (Rejection.wrongKind _).settle_cases.imp_right .inl

end Builtin

/-! ### Causes -/

/-- The call gives an integer that is too long to be written, itself or in a sequence. -/
def Call.GivesLong (call : Call) : Prop :=
  ∃ b v, call.primitive = .builtin b ∧ b.run call.args = .ok v ∧ ¬ v.IsWritable

/-- The call multiplies, and there is a list or a text among the factors. -/
def Call.RepeatsSequence (call : Call) : Prop :=
  call.primitive = .builtin .mul ∧ ∃ a ∈ call.args, a.isSequence = true

/-- What can be got at from the root holds an integer that is too long to be written. -/
def Store.HoldsLong (store : Store) (root : ContextId) : Prop :=
  ∃ k, store.Accessible root k ∧ ∃ entry ∈ store.bindingsOf k, ¬ entry.2.IsWritable

/-- The calls on record that an earlier state has not. -/
def State.callsSince (origin s : State) : List Call :=
  s.calls.toList.drop origin.calls.size

/-- There was one in the beginning, or a call gave one since. -/
def LongArose (held : Prop) (origin s : State) : Prop :=
  held ∨ ∃ call ∈ origin.callsSince s, call.GivesLong

/-- The error is reported by the language, or it has one of the two other causes. -/
inductive Explained (held : Prop) (origin s : State) : Error → Prop
  | reported {e : Error} (reported : e.isReported = true) : Explained held origin s e
  | numeral (arose : LongArose held origin s) : Explained held origin s .numeral
  | repetition {e : Error} {earlier : List Call} {last : Call}
      (size : e = .countOverflow ∨ e = .outOfMemory)
      (calls : origin.callsSince s = earlier ++ [last]) (repeats : last.RepeatsSequence)
      (failed : Builtin.product last.args = .error e) : Explained held origin s e

section

variable {held : Prop} {origin s t : State}

theorem LongArose.later (arose : LongArose held origin s) (later : s.Before t) :
    LongArose held origin t :=
  arose.imp_right fun ⟨call, member, long⟩ =>
    ⟨call, (later.calls.drop origin.calls.size).mem member, long⟩

theorem calls_eq_append_callsSince (before : origin.Before s) :
    s.calls.toList = origin.calls.toList ++ origin.callsSince s := by
  have front := List.prefix_iff_eq_take.mp before.calls
  rw [Array.length_toList] at front
  conv => rhs; lhs; rw [front]
  exact (List.take_append_drop _ _).symm

theorem callsSince_push (before : origin.Before s) (call : Call) :
    origin.callsSince { s with calls := s.calls.push call } = origin.callsSince s ++ [call] := by
  have within : origin.calls.size ≤ s.calls.toList.length := by
    simpa using before.calls.length_le
  rw [State.callsSince, Array.toList_push, List.drop_append_of_le_length within]
  rfl

end

/-! ### Evaluation -/

/-- Every value that is bound in the region can be written. -/
def Store.WritableOn (store : Store) (region : ContextId → Prop) : Prop :=
  ∀ k, region k → ∀ entry ∈ store.bindingsOf k, entry.2.IsWritable

namespace Store.WritableOn

variable {store : Store} {region : ContextId → Prop}

theorem create (writable : store.WritableOn region) (parents : List ContextId) :
    (store.create parents).2.WritableOn region := by
  intro k within entry member
  rw [bindingsOf_create] at member
  exact writable k within entry member

theorem define (writable : store.WritableOn region) (id : ContextId) (name : String) {v : Value}
    (short : v.IsWritable) : (store.define id name v).WritableOn region := by
  intro k within entry member
  rcases mem_bindingsOf_define member with old | new
  · exact writable k within entry old
  · exact new ▸ short

end Store.WritableOn

/-- The region is closed, as the isolation of sessions has it, and unless an integer that is too
long arose, whatever is about in it can be written. Errors are excused or explained. -/
def failureInvariant (region : ContextId → Prop) (held : Prop) (origin : State)
    (excused : Error → Prop) : Invariant where
  state s := s.store.ClosedOn region ∧ origin.Before s ∧
    (LongArose held origin s ∨ s.store.WritableOn region)
  value s v := v.Confined region s.store.size ∧ (LongArose held origin s ∨ v.IsWritable)
  context s c := region c ∧ c < s.store.size
  error s e := excused e ∨ Explained held origin s e

section

variable {region : ContextId → Prop} {held : Prop} {origin : State} {excused : Error → Prop}

theorem failureInvariant_lasting : (failureInvariant region held origin excused).Lasting where
  value_later later holds :=
    ⟨holds.1.later later.contexts, holds.2.imp_left fun arose => arose.later later⟩
  context_later later known := ⟨known.1, Nat.lt_of_lt_of_le known.2 later.contexts⟩

/-- Plain data without integers. -/
theorem failureInvariant_plain {s : State} {v : Value} (plain : v.callables = [])
    (none : v.integers = []) : (failureInvariant region held origin excused).value s v :=
  ⟨Value.eachCallable_of_plain plain, .inr (Value.isWritable_of_integers_eq_nil none)⟩

/-- What a builtin gives can be written if its arguments can, unless it is the cause itself. -/
theorem failureInvariant_callBuiltin {start : State} {b : Builtin} {args : List Value}
    (values : ∀ v ∈ args, (failureInvariant region held origin excused).value start v)
    (host : Host) (c : ContextId) :
    Keeps (failureInvariant region held origin excused) start
      (failureInvariant region held origin excused).value
      (callPrimitive host (.builtin b) c args) := by
  rintro s later ⟨closed, since, writable⟩
  have values' : ∀ v ∈ args, (failureInvariant region held origin excused).value s v :=
    fun v member => failureInvariant_lasting.value_later later (values v member)
  have recorded := State.Before.of_call s ⟨.builtin b, args⟩
  have writable' := writable.imp_left fun arose => arose.later recorded
  have latest := callsSince_push since ⟨.builtin b, args⟩
  have called : callPrimitive host (.builtin b) c args s =
      Eval.ofExcept (b.run args) { s with calls := s.calls.push ⟨.builtin b, args⟩ } := rfl
  rw [called]
  cases ran : b.run args with
  | ok v =>
    refine ⟨recorded, ⟨closed, since.trans recorded, writable'⟩,
      Builtin.eachCallable_run ran fun a member => (values' a member).1, ?_⟩
    by_cases short : v.IsWritable
    · exact .inr short
    · refine .inl (.inr ⟨⟨.builtin b, args⟩, ?_, b, v, rfl, ran, short⟩)
      simp [latest]
  | error e =>
    refine ⟨recorded, ⟨closed, since.trans recorded, writable'⟩, .inr ?_⟩
    rcases Builtin.run_error_cases ran with reported | ⟨rfl, a, member, long⟩ | ⟨size, rfl, found⟩
    · exact .reported reported
    · exact .numeral (((values' a member).2.resolve_right long).later recorded)
    · exact .repetition size latest ⟨rfl, found⟩ ran

theorem failureInvariant_sustained (fresh : ∀ k, origin.store.size ≤ k → region k) (host : Host) :
    (failureInvariant region held origin (· = .stackOverflow)).Sustained host where
  toLasting := failureInvariant_lasting
  nil := failureInvariant_plain rfl rfl
  symbol _ := failureInvariant_plain rfl rfl
  list := by
    intro s items
    simp only [failureInvariant, Value.Confined, Value.eachCallable_list, Value.isWritable_list]
    grind
  function holds := by
    obtain ⟨⟨_, made⟩, code⟩ := Value.eachCallable_function.mp holds.1
    exact ⟨⟨code, holds.2⟩, made _ rfl⟩
  expander holds := ⟨(Value.eachCallable_expander.mp holds.1).2, holds.2⟩
  create := by
    rintro start parents known s later ⟨closed, since, writable⟩
    have inside : ∀ p ∈ parents, region p ∧ p < s.store.size := fun p member =>
      ⟨(known p member).1, Nat.lt_of_lt_of_le (known p member).2 later.contexts⟩
    have more : s.store.size ≤ (s.store.create parents).2.size := by simp
    refine ⟨.of_store more, ⟨closed.create inside, since.trans (.of_store more),
      writable.imp_right fun each => each.create parents⟩, fresh _ since.contexts, ?_⟩
    show s.store.size < (s.store.create parents).2.size
    simp
  define := by
    rintro start c name v known holds s later ⟨closed, since, writable⟩
    obtain ⟨confined, short⟩ := failureInvariant_lasting.value_later later holds
    have same : s.store.size ≤ (s.store.define c name v).size := by simp
    refine ⟨.of_store same, ⟨closed.define c name confined, since.trans (.of_store same), ?_⟩,
      trivial⟩
    rcases writable with arose | each
    · exact .inl arose
    · exact short.imp_right fun short => each.define c name short
  resolve := by
    rintro start c name known s later ⟨closed, since, writable⟩
    rw [resolve_apply]
    cases found : s.store.resolve? c name with
    | some v =>
      obtain ⟨home, there, bound⟩ := closed.exists_home known.1 found
      exact ⟨.refl s, ⟨closed, since, writable⟩, closed.resolve? known.1 found,
        writable.imp_right fun each => each home there (name, v) bound⟩
    | none => exact ⟨.refl s, ⟨closed, since, writable⟩, .inr (.reported rfl)⟩
  freshTag start := by
    rintro s _ ⟨closed, since, writable⟩
    refine ⟨.of_tag s, ⟨closed, since.trans (.of_tag s), writable⟩,
      fun params body c code known => ⟨⟨?_, code.2⟩, ?_, code.2⟩⟩
    · refine Value.eachCallable_function.mpr ⟨⟨rfl, ?_⟩, code.1⟩
      rintro _ ⟨⟩
      exact known
    · exact Value.eachCallable_expander.mpr ⟨⟨rfl, nofun⟩, code.1⟩
  call := by
    intro start c p args called known values
    cases p with
    | builtin b => exact failureInvariant_callBuiltin values host c
    | host h =>
      have hostless := (called.1 (.primitive (.host h)) List.mem_cons_self).1
      cases hostless
  rejection rejection values := by
    rcases rejection.settle_cases with reported | ⟨numeral, v, shown, long⟩
    · exact .inr (.reported reported)
    · rw [numeral]
      exact .inr (.numeral ((values v shown).2.resolve_right long))
  stackOverflow := .inl rfl

/-- Under a limit that was set, exceeding it is reported. -/
theorem failureInvariant_limits {setting : Option String} {limit : Option Int}
    (set : DepthLimit.ofSetting setting = .ok limit) :
    (failureInvariant region held origin excused).Limits limit := by
  rintro most rfl s depth
  rw [settle_tooDeep (DepthLimit.reportable_of_ofSetting set)]
  exact .inr (.reported rfl)

/-- What is reported instead of a stack that ran out needs no excuse. -/
theorem failureInvariant_reportOverflow {start : State} {α : Type} {Q : State → α → Prop}
    {m : Eval α}
    (kept : Keeps (failureInvariant region held origin (· = .stackOverflow)) start Q m) :
    Keeps (failureInvariant region held origin fun _ => False) start Q (reportOverflow m) := by
  intro s later holds
  have inner := kept s later holds
  rcases reportOverflow_cases m s with ⟨same, other⟩ | ⟨t, overflow, reported⟩
  · rw [same]
    cases outcome : m s with
    | ok a t =>
      rw [outcome] at inner
      exact inner
    | error e t =>
      rw [outcome] at inner
      obtain ⟨later', holds', excuse | explained⟩ := inner
      · exact absurd (excuse ▸ outcome) (other t)
      · exact ⟨later', holds', .inr explained⟩
  · rw [overflow] at inner
    rw [reported]
    exact ⟨inner.1, inner.2.1, .inr (.reported rfl)⟩

theorem failureInvariant_evaluate (fresh : ∀ k, origin.store.size ≤ k → region k) (host : Host)
    {setting : Option String} {limit : Option Int}
    (set : DepthLimit.ofSetting setting = .ok limit) :
    (failureInvariant region held origin fun _ => False).KeptBy
      fun e c _ => evaluate ⟨host, setting⟩ e c := by
  intro start e c _ holds known
  simp only [evaluate_of_ofSetting set]
  exact failureInvariant_reportOverflow
    ((failureInvariant_sustained fresh host).evalWithin (failureInvariant_limits set) stackRoom 0
      holds known)

end

/-! ### Texts -/

/-- What is read can be written. -/
theorem isWritable_of_role {t : Token} {v : Value} (role : t.role = .atom v) : v.IsWritable := by
  rcases atom_cases role with ⟨_, n, read, rfl⟩ | ⟨_, rfl⟩ | ⟨_, rfl⟩ | ⟨_, rfl⟩ | ⟨_, rfl⟩
  · exact Value.isWritable_int.mpr (Numeral.ofText?_natAbs_lt read)
  all_goals exact Value.isWritable_of_integers_eq_nil rfl

theorem TextCall.isWritable_of_forms {call : TextCall} {forms : List Value}
    (read : call.forms = .ok forms) : ∀ v ∈ forms, v.IsWritable := fun v member =>
  (fromText_of_forms read v member).holds (fun _ => Value.isWritable_list.mpr)
    fun _ _ => isWritable_of_role

theorem explained_of_refusal {held : Prop} {origin s : State} {call : TextCall} {e : Error}
    (refused : call.forms = .error e) (long : HasLongNumeral call.source → held) :
    Explained held origin s e := by
  cases TextCall.refused_of_forms refused with
  | malformed => exact .reported rfl
  | numeral inSource => exact .numeral (.inl (long inSource))

theorem Store.writableOn_regionOf {store : Store} {root : ContextId}
    (none : ¬ store.HoldsLong root) : store.WritableOn (store.RegionOf root) := by
  rintro k (path | beyond) entry member
  · by_contra long
    exact none ⟨k, path, entry, member, long⟩
  · rw [bindingsOf_of_size_le beyond] at member
    cases member

/-- A text, evaluated in a root from which no primitive of the host can be got at, under a depth
setting that is valid. If it fails, the language reports the error, or it is one of three others.
The error for numerals means that the text holds a numeral with too many digits, that something
which can be got at from the root holds an integer which is too long to be written, or that a
sum or a product has given such an integer since. The two errors for sizes mean that the last
call of a primitive was a product that fails with this very error and repeats a list or a text.
So they do not occur as long as nothing is repeated. -/
theorem text_fails_for_known_reasons (host : Host) {s : State} {root : ContextId}
    (contained : s.store.SelfContained root) (call : TextCall) {limit : Option Int}
    (set : DepthLimit.ofSetting call.depthSetting = .ok limit) {e : Error} {t : State}
    (failed : call.run host root s = .error e t) :
    ∃ made, t.calls.toList = s.calls.toList ++ made ∧
      (e.isReported = true ∨
        e = .numeral ∧ (HasLongNumeral call.source ∨ s.store.HoldsLong root ∨
          ∃ given ∈ made, given.GivesLong) ∨
        (e = .countOverflow ∨ e = .outOfMemory) ∧ ∃ earlier last, made = earlier ++ [last] ∧
          last.RepeatsSequence ∧ Builtin.product last.args = .error e) ∧
      ((∀ given ∈ made, ¬ given.RepeatsSequence) → e ≠ .countOverflow ∧ e ≠ .outOfMemory) := by
  have fresh : ∀ k, s.store.size ≤ k → s.store.RegionOf root k := fun _ => .inr
  have known : s.store.RegionOf root root ∧ root < s.store.size :=
    ⟨.inl .refl, contained.exist root .refl⟩
  let held := HasLongNumeral call.source ∨ s.store.HoldsLong root
  have writable : LongArose held s s ∨ s.store.WritableOn (s.store.RegionOf root) := by
    by_cases long : s.store.HoldsLong root
    · exact .inl (.inl (.inr long))
    · exact .inr (Store.writableOn_regionOf long)
  have lasting : (failureInvariant (s.store.RegionOf root) held s fun _ => False).Lasting :=
    failureInvariant_lasting
  have kept := lasting.textCall (failureInvariant_evaluate fresh host set) known
    (fun forms read u _ v member =>
      ⟨Value.eachCallable_of_plain (TextCall.callables_of_forms read v member),
        .inr (TextCall.isWritable_of_forms read v member)⟩)
    (fun e refused u _ => .inr (explained_of_refusal refused .inl))
    s (.refl s) ⟨contained.closedOn, .refl s, writable⟩
  rw [failed] at kept
  obtain ⟨_, ⟨_, since, _⟩, excuse | explained⟩ := kept
  · cases excuse
  refine ⟨s.callsSince t, calls_eq_append_callsSince since, ?_⟩
  cases explained with
  | reported reported => exact ⟨.inl reported, fun _ => by cases e <;> simp_all [Error.isReported]⟩
  | numeral arose => exact ⟨.inr (.inl ⟨rfl, or_assoc.mp arose⟩), fun _ => ⟨nofun, nofun⟩⟩
  | @repetition _ earlier last size calls repeats product =>
    refine ⟨.inr (.inr ⟨size, earlier, last, calls, repeats, product⟩), fun never => ?_⟩
    exact absurd repeats (never last (by simp [calls]))

/-- A root with products and some value. -/
def seededRoot (v : Value) : State :=
  ⟨⟨#[⟨[("*", .primitive (.builtin .mul)), ("x", v)], []⟩]⟩, 0, #[]⟩

theorem seededRoot_selfContained {v : Value} (plain : v.callables = []) :
    (seededRoot v).store.SelfContained 0 := by
  have closed : (seededRoot v).store.ClosedOn fun k => k = 0 := by
    refine ⟨?_, ?_⟩
    · rintro _ rfl
      exact nofun
    · rintro _ rfl
      refine List.forall_mem_cons.mpr ⟨?_, List.forall_mem_singleton.mpr ?_⟩
      · exact List.forall_mem_singleton.mpr ⟨rfl, nofun⟩
      · exact Value.eachCallable_of_plain plain
  exact closed.selfContained ⟨rfl, Nat.one_pos⟩

/-- A list of two items. -/
def pair : Value := .list [.nil, .nil]

/-- An integer of one digit too many. -/
def longInteger : Value := .int (10 ^ Numeral.digitLimit)

/-- The end is the error of an integer that cannot be written. -/
def endsUnwritten : EStateM.Result Error State (List Value) → Bool
  | .error .numeral _ => true
  | _ => false

theorem longInteger_is_not_callable :
    ∃ t, TextCall.run bindingHost 0 ⟨"(x)", true, none⟩ (seededRoot longInteger) =
      .error .numeral t := by
  have check : endsUnwritten (TextCall.run bindingHost 0 ⟨"(x)", true, none⟩
      (seededRoot longInteger)) = true := by decide +kernel
  cases result : TextCall.run bindingHost 0 ⟨"(x)", true, none⟩ (seededRoot longInteger) with
  | ok v t =>
    rw [result] at check
    cases check
  | error e t =>
    rw [result] at check
    cases e with
    | numeral => exact ⟨t, rfl⟩
    | _ => cases check

set_option maxRecDepth 4000 in
/-- Each of the three errors occurs: an integer that cannot be shown is called, and a list is
repeated too often to be counted, and too often to be stored. -/
theorem seededRoot_fails_for_known_reasons :
    (∃ t, TextCall.run bindingHost 0 ⟨"(x)", true, none⟩ (seededRoot longInteger) =
        .error .numeral t ∧
      (HasLongNumeral "(x)" ∨ (seededRoot longInteger).store.HoldsLong 0 ∨
        ∃ given ∈ t.calls.toList, given.GivesLong)) ∧
    (∃ t, TextCall.run bindingHost 0 ⟨"(* x 99999999999999999999)", false, none⟩
        (seededRoot pair) = .error .countOverflow t ∧
      ∃ last ∈ t.calls.toList, last.RepeatsSequence) ∧
    ∃ t, TextCall.run bindingHost 0 ⟨"(* x 4611686018427387904)", false, some " 7 "⟩
        (seededRoot pair) = .error .outOfMemory t ∧
      ∃ last ∈ t.calls.toList, last.RepeatsSequence := by
  have unset : DepthLimit.ofSetting none = .ok (some 150) := rfl
  have set : DepthLimit.ofSetting (some " 7 ") = .ok (some 7) := by cbv
  have reasons (v : Value) (plain : v.callables = []) := text_fails_for_known_reasons bindingHost
    (seededRoot_selfContained plain)
  obtain ⟨t, uncallable⟩ := longInteger_is_not_callable
  have uncounted : TextCall.run bindingHost 0 ⟨"(* x 99999999999999999999)", false, none⟩
      (seededRoot pair) = .error .countOverflow (stateAfter (TextCall.run bindingHost 0
        ⟨"(* x 99999999999999999999)", false, none⟩) (seededRoot pair)) := by cbv
  have unstored : TextCall.run bindingHost 0 ⟨"(* x 4611686018427387904)", false, some " 7 "⟩
      (seededRoot pair) = .error .outOfMemory (stateAfter (TextCall.run bindingHost 0
        ⟨"(* x 4611686018427387904)", false, some " 7 "⟩) (seededRoot pair)) := by cbv
  refine ⟨⟨t, uncallable, ?_⟩, ⟨_, uncounted, ?_⟩, _, unstored, ?_⟩
  · obtain ⟨made, calls, cause, _⟩ := reasons longInteger rfl _ unset uncallable
    simpa [Error.isReported, calls, seededRoot] using cause
  · obtain ⟨made, calls, cause, _⟩ := reasons pair rfl _ unset uncounted
    obtain ⟨earlier, last, rfl, repeats, _⟩ : ∃ earlier last, made = earlier ++ [last] ∧
        last.RepeatsSequence ∧ Builtin.product last.args = .error .countOverflow := by
      simpa [Error.isReported] using cause
    exact ⟨last, by simp [calls], repeats⟩
  · obtain ⟨made, calls, cause, _⟩ := reasons pair rfl _ set unstored
    obtain ⟨earlier, last, rfl, repeats, _⟩ : ∃ earlier last, made = earlier ++ [last] ∧
        last.RepeatsSequence ∧ Builtin.product last.args = .error .outOfMemory := by
      simpa [Error.isReported] using cause
    exact ⟨last, by simp [calls], repeats⟩

end ContextLisp
