/-
# Texts in sequence

A text is read as a whole before any of its forms is evaluated. So two texts with a blank
between them are evaluated as the one and then the other, in the state that the first leaves
behind. An error in the first is the error of both, and what was done before it stands. A text
that cannot be read has no effect at all, however much of it could be: whatever evaluation would
make of its forms, it is not asked.
-/

import ContextLisp.Proofs.Reading.Concatenation
import ContextLisp.Proofs.Session.TextCalls

namespace ContextLisp

/-! ### Evaluating one list after another -/

theorem evalEach_append (eval : Evaluator) (c : ContextId) (depth : Int) (es more : List Value) :
    evalEach eval c depth (es ++ more) = do
      let vs ← evalEach eval c depth es
      let ws ← evalEach eval c depth more
      return vs ++ ws := by
  induction es with
  | nil => simp [evalEach]
  | cons e es ih => simp [evalEach, ih]

/-! ### Evaluating texts -/

/-- What an evaluator makes of the forms of a text, one after the other, once the text has been
read. -/
def Evaluator.onText (eval : Evaluator) (c : ContextId) (source : String) : Eval (List Value) := do
  let forms ← Eval.ofExcept (parseAll source)
  evalEach eval c 0 forms

/-- A host has forms evaluated from depth zero. -/
theorem evalAllSource_eq_onText (around : Surroundings) (c : ContextId) (source : String) :
    evalAllSource around c source =
      Evaluator.onText (fun e c _ => evaluate around e c) c source := by
  simp only [evalAllSource, Evaluator.onText, evaluateEach_eq_evalEach]

variable {eval : Evaluator} {c : ContextId}

theorem Evaluator.onText_of_read {source : String} {forms : List Value}
    (read : parseAll source = .ok forms) : eval.onText c source = evalEach eval c 0 forms := by
  rw [onText, read]
  rfl

theorem Evaluator.onText_of_refused {source : String} {e : Error}
    (refused : parseAll source = .error e) : eval.onText c source = throw e := by
  rw [onText, refused]
  rfl

theorem Evaluator.onText_append {front back blanks : String} {forms more : List Value}
    (first : parseAll front = .ok forms) (second : parseAll back = .ok more)
    (blank : ∀ a ∈ blanks.toList, Text.isBlank a = true) (apart : blanks ≠ "") :
    eval.onText c (front ++ blanks ++ back) = do
      let vs ← eval.onText c front
      let ws ← eval.onText c back
      return vs ++ ws := by
  rw [onText_of_read (parseAll_append first second blank apart), onText_of_read first,
    onText_of_read second, evalEach_append]

/-- Two texts that can be read, with blanks between them, are evaluated as the first and then, in
the state that it leaves, the second. If the first fails, both do, with its error and in the
state where it failed; else if the second fails, with that error; else the values of the first
come before those of the second. A text that cannot be read fails with the error of reading and
leaves the state as it is, the record of calls included. No form of it is evaluated: it makes
no difference what an evaluator would do. -/
theorem texts_are_evaluated_in_sequence (around : Surroundings) (c : ContextId) (s : State) :
    (∀ (front back blanks : String) (forms more : List Value),
      parseAll front = .ok forms → parseAll back = .ok more →
      (∀ a ∈ blanks.toList, Text.isBlank a = true) → blanks ≠ "" →
      evalAllSource around c (front ++ blanks ++ back) s =
        match evalAllSource around c front s with
        | .error e t => .error e t
        | .ok vs t =>
          match evalAllSource around c back t with
          | .error e u => .error e u
          | .ok ws u => .ok (vs ++ ws) u) ∧
    (∀ (source : String) (e : Error), parseAll source = .error e →
      evalAllSource around c source s = .error e s ∧
      ∀ eval : Evaluator, eval.onText c source s = .error e s) ∧
    ∀ source : String, evalAllSource around c source =
      Evaluator.onText (fun e c _ => evaluate around e c) c source := by
  refine ⟨?_, ?_, evalAllSource_eq_onText around c⟩
  · intro front back blanks forms more first second blank apart
    simp only [evalAllSource_eq_onText]
    rw [Evaluator.onText_append first second blank apart]
    simp only [bind, EStateM.bind]
    cases Evaluator.onText (fun e c _ => evaluate around e c) c front s with
    | error e t => rfl
    | ok vs t =>
      cases outcome : Evaluator.onText (fun e c _ => evaluate around e c) c back t with
      | error e u => simp only [outcome]
      | ok ws u =>
        simp only [outcome]
        rfl
  · intro source e refused
    have failed (eval : Evaluator) : eval.onText c source s = .error e s := by
      rw [Evaluator.onText_of_refused refused]
      rfl
    exact ⟨by rw [evalAllSource_eq_onText, failed], failed⟩

/-- An empty root. -/
def emptyRoot : State := ⟨⟨#[⟨[], []⟩]⟩, 0, #[]⟩

/-- The root with two names bound. -/
def filledRoot : State := ⟨⟨#[⟨[("a", .int 1), ("b", .int 1)], []⟩]⟩, 0, #[]⟩

set_option maxRecDepth 4000 in
/-- The second text sees what the first one bound, and fails after it bound a name itself. A
bracket too many behind a form keeps it from having any effect. -/
theorem definitions_are_evaluated_in_sequence :
    parseAll "(def a 1)" = .ok [.list [.symbol "def", .symbol "a", .int 1]] ∧
    parseAll "(def b a) c" = .ok [.list [.symbol "def", .symbol "b", .symbol "a"], .symbol "c"] ∧
    evalAllSource ⟨bindingHost, none⟩ 0 ("(def a 1)" ++ "\n " ++ "(def b a) c") emptyRoot =
      .error (.unbound "c" 0) filledRoot ∧
    ∃ e, parseAll "(def a 1) )" = .error e ∧
      evalAllSource ⟨bindingHost, none⟩ 0 "(def a 1) )" emptyRoot = .error e emptyRoot := by
  have sequence := texts_are_evaluated_in_sequence ⟨bindingHost, none⟩ 0 emptyRoot
  have first : parseAll "(def a 1)" = .ok [.list [.symbol "def", .symbol "a", .int 1]] := by cbv
  have second : parseAll "(def b a) c" =
      .ok [.list [.symbol "def", .symbol "b", .symbol "a"], .symbol "c"] := by cbv
  have refused : parseAll "(def a 1) )" =
      .error (.malformed ⟨.unexpected ")", some 10, some "(def a 1) )"⟩) := by cbv
  have blank : ∀ a ∈ "\n ".toList, Text.isBlank a = true := by simp [Text.isBlank]
  have joined := sequence.1 _ _ "\n " _ _ first second blank (by simp)
  refine ⟨first, second, joined.trans ?_, _, refused, (sequence.2.1 _ _ refused).1⟩
  cbv

end ContextLisp
