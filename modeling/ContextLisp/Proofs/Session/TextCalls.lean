/-
# Calls with source text

A host hands over a text and has its first form, or all of its forms, evaluated in a context.
Reading comes first, and what is read is plain data: nothing in it can be called, and a text
that is refused touches no state. After that the call is a sequence of evaluations. So an
invariant that evaluation keeps is kept by the whole call.
-/

import ContextLisp.Proofs.Evaluation.Frame
import ContextLisp.Proofs.Evaluation.Invariant
import ContextLisp.Proofs.Reading.Readability
import ContextLisp.Proofs.Reading.Refusal
import ContextLisp.Session

namespace ContextLisp

/-! ### What is read, and settings that are refused -/

theorem Value.callables_of_items {items : List Value} (each : ∀ v ∈ items, v.callables = []) :
    (Value.list items).callables = [] := by
  rwa [callables_list, List.flatMap_eq_nil_iff]

theorem Value.callables_of_role {t : Token} {v : Value} (role : t.role = .atom v) :
    v.callables = [] := by
  rcases atom_cases role with ⟨_, n, _, rfl⟩ | ⟨_, rfl⟩ | ⟨_, rfl⟩ | ⟨_, rfl⟩ | ⟨_, rfl⟩ <;> rfl

theorem DepthLimit.isBare_of_ofSetting {setting : Option String} {e : Error}
    (refused : DepthLimit.ofSetting setting = .error e) : e.IsBare := by
  cases asked : integerSetting settingName standard setting with
  | ok n =>
    rw [ofSetting, asked] at refused
    cases refused
  | error e' =>
    rw [ofSetting, asked] at refused
    cases refused
    unfold integerSetting at asked
    split at asked
    · cases asked
    · split at asked
      · cases asked
      · split at asked
        · cases asked
        · cases asked
          exact Error.IsBare.settle ⟨rfl, rfl⟩

/-! ### Calls -/

/-- A text that a host has evaluated: its first form, or everything in it. -/
structure TextCall where
  source : String
  everything : Bool
  /-- The depth setting at the time of the call. -/
  depthSetting : Option String

/-- Do what is asked, in a context; it gives the values of the forms that were evaluated. -/
def TextCall.run (host : Host) (root : ContextId) (call : TextCall) : Eval (List Value) :=
  if call.everything then evalAllSource ⟨host, call.depthSetting⟩ root call.source
  else do
    let v ← evalSource ⟨host, call.depthSetting⟩ root call.source
    return [v]

/-- The forms that are asked for. -/
def TextCall.forms (call : TextCall) : Except Error (List Value) :=
  if call.everything then parseAll call.source else (parse call.source).map ([·])

/-- A call reads what is asked for and has it evaluated form by form. -/
theorem TextCall.run_eq (host : Host) (root : ContextId) (call : TextCall) :
    call.run host root =
      Eval.ofExcept call.forms >>= evaluateEach ⟨host, call.depthSetting⟩ root := by
  unfold run forms
  split
  · rfl
  · rw [evalSource]
    cases parse call.source with
    | error e => rfl
    | ok form =>
      simp only [Except.map, Eval.ofExcept, pure_bind, evaluateEach]

theorem TextCall.fromText_of_forms {call : TextCall} {forms : List Value}
    (read : call.forms = .ok forms) : ∀ v ∈ forms, v.FromText := by
  unfold TextCall.forms at read
  split at read
  · exact Value.fromText_of_parseAll read
  · cases outcome : parse call.source with
    | error e =>
      rw [outcome] at read
      cases read
    | ok v =>
      rw [outcome] at read
      cases read
      exact List.forall_mem_singleton.mpr (Value.fromText_of_parse outcome)

/-- What is read is plain data. -/
theorem TextCall.callables_of_forms {call : TextCall} {forms : List Value}
    (read : call.forms = .ok forms) : ∀ v ∈ forms, v.callables = [] := fun v member =>
  (fromText_of_forms read v member).holds (fun _ => Value.callables_of_items)
    fun _ _ => Value.callables_of_role

theorem TextCall.refused_of_forms {call : TextCall} {e : Error}
    (refused : call.forms = .error e) : Refused call.source e := by
  unfold TextCall.forms at refused
  split at refused
  · exact refused_of_parseAll refused
  · cases outcome : parse call.source with
    | ok v =>
      rw [outcome] at refused
      cases refused
    | error e' =>
      rw [outcome] at refused
      cases refused
      exact refused_of_parse outcome

theorem TextCall.isBare_of_forms {call : TextCall} {e : Error} (refused : call.forms = .error e) :
    e.IsBare := by
  cases refused_of_forms refused <;> exact ⟨rfl, rfl⟩

/-- The state after several calls, each made in a context and each returning or failing. -/
def State.after (host : Host) (s : State) (calls : List (ContextId × TextCall)) : State :=
  calls.foldl (fun s request => stateAfter (request.2.run host request.1) s) s

/-- An outcome stands as it is, unless the stack was exhausted. -/
theorem reportOverflow_cases {α : Type} (m : Eval α) (s : State) :
    (reportOverflow m s = m s ∧ ∀ t, m s ≠ .error .stackOverflow t) ∨
      ∃ t, m s = .error .stackOverflow t ∧ reportOverflow m s = .error .exhausted t := by
  unfold reportOverflow
  split
  · rename_i t overflow
    exact .inr ⟨t, overflow, rfl⟩
  · rename_i other
    exact .inl ⟨rfl, other⟩

/-- Evaluation under a setting, once the setting is known. -/
theorem evaluate_of_ofSetting {setting : Option String} {limit : Option Int}
    (set : DepthLimit.ofSetting setting = .ok limit) (host : Host) (e : Value) (c : ContextId) :
    evaluate ⟨host, setting⟩ e c = reportOverflow (evalWithin host limit stackRoom e c 0) := by
  simp only [evaluate, set, Eval.ofExcept, pure_bind]

/-- Forms of a text are evaluated one after the other, as arguments are. -/
theorem evaluateEach_eq_evalEach (around : Surroundings) (c : ContextId) (es : List Value) :
    evaluateEach around c es = evalEach (fun e c _ => evaluate around e c) c 0 es := by
  induction es with
  | nil => rfl
  | cons e es ih => rw [evaluateEach, evalEach, ih]

/-- What evaluation respects, calls of a text respect, if reading it does. -/
theorem Respectful.textCall {host : Host} {R : EvalRelation} (respects : Respectful host R)
    {call : TextCall}
    (evaluates : RelatedAt R 0 (fun e c _ => evaluate ⟨host, call.depthSetting⟩ e c)
      fun e c _ => evaluate ⟨host, call.depthSetting⟩ e c) {c : ContextId}
    (reads : R c (List Value) (Eval.ofExcept call.forms) (Eval.ofExcept call.forms)) :
    R c (List Value) (call.run host c) (call.run host c) := by
  rw [TextCall.run_eq]
  apply respects.bind reads
  intro forms
  rw [evaluateEach_eq_evalEach]
  exact respects.evalEach evaluates c forms

theorem keeps_ofExcept {I : Invariant} {start : State} {α : Type} {Q : State → α → Prop}
    {x : Except Error α} (returned : ∀ a, x = .ok a → ∀ s, start.Before s → Q s a)
    (failed : ∀ e, x = .error e → ∀ s, start.Before s → I.error s e) :
    Keeps I start Q (Eval.ofExcept x) := by
  cases x with
  | ok a => exact keeps_pure (returned a rfl)
  | error e => exact keeps_throw (failed e rfl)

/-- A call keeps what evaluation keeps, if what is read, or the error of reading, agrees with
it. -/
theorem Invariant.Lasting.textCall {I : Invariant} (lasting : I.Lasting) {host : Host}
    {call : TextCall}
    (kept : I.KeptBy fun e c _ => ContextLisp.evaluate ⟨host, call.depthSetting⟩ e c)
    {start : State} {c : ContextId} (known : I.context start c)
    (read : ∀ forms, call.forms = .ok forms → ∀ s, start.Before s → ∀ v ∈ forms, I.value s v)
    (refused : ∀ e, call.forms = .error e → ∀ s, start.Before s → I.error s e) :
    Keeps I start (fun t vs => ∀ v ∈ vs, I.value t v) (call.run host c) := by
  rw [TextCall.run_eq]
  apply (keeps_ofExcept (Q := fun t vs => ∀ v ∈ vs, I.value t v) read refused).bind
  intro s forms later holds
  rw [evaluateEach_eq_evalEach]
  exact lasting.evalEach kept 0 holds (lasting.context_later later known)

namespace Invariant.Sustained

variable {I : Invariant} {host : Host} {start : State} {c : ContextId}

/-- Exhaustion of the stack is as bare an error as the one that takes its place. -/
theorem keeps_reportOverflow (coarse : I.Coarse) {α : Type} {Q : State → α → Prop} {m : Eval α}
    (kept : Keeps I start Q m) : Keeps I start Q (reportOverflow m) := by
  intro s later holds
  have inner := kept s later holds
  rcases reportOverflow_cases m s with ⟨same, -⟩ | ⟨t, overflow, reported⟩
  · rw [same]
    exact inner
  · rw [overflow] at inner
    rw [reported]
    exact ⟨inner.1, inner.2.1, coarse.bare ⟨rfl, rfl⟩⟩

theorem evaluate (sustained : I.Sustained host) (coarse : I.Coarse) (setting : Option String) :
    I.KeptBy fun e c _ => evaluate ⟨host, setting⟩ e c := by
  intro start e c _ holds known
  apply (keeps_ofExcept (Q := fun _ _ => True) (fun _ _ _ _ => trivial)
    fun _ refused _ _ => coarse.bare (DepthLimit.isBare_of_ofSetting refused)).bind
  intro s limit later _
  exact keeps_reportOverflow coarse (sustained.evalWithin (coarse.limits limit) stackRoom 0
    (sustained.value_later later holds) (sustained.context_later later known))

/-- A call keeps the invariant, its values and its error included. -/
theorem textCall (sustained : I.Sustained host) (coarse : I.Coarse) (call : TextCall)
    (known : I.context start c) :
    Keeps I start (fun t vs => ∀ v ∈ vs, I.value t v) (call.run host c) :=
  sustained.toLasting.textCall (sustained.evaluate coarse call.depthSetting) known
    (fun _ read _ _ v member => coarse.plain (TextCall.callables_of_forms read v member))
    fun _ refused _ _ => coarse.bare (TextCall.isBare_of_forms refused)

end Invariant.Sustained

end ContextLisp
