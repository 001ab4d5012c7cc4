/-
# The depth limit ends evaluation

Under a depth limit, evaluation from depth zero nests at most two steps more than the
limit says: the steps at the depths up to the limit, and one beyond it that only
fails. Whatever would evaluate further down is never asked, so that much room is all
that can be used, and no more room changes anything.

A depth error is raised at one place only and one level below the last permitted one,
so it always tells the same depth and the limit itself. Host primitives are taken
not to evaluate: what they raise is neither a depth error nor an exhausted stack.
-/

import ContextLisp.Proofs.Evaluation.Agreement
import ContextLisp.Proofs.Evaluation.Errors

namespace ContextLisp

/-- A number of evaluation steps on top of any evaluator for what lies beyond them. -/
def evalOnTop (host : Host) (limit : Option Int) (beyond : Evaluator) : Nat → Evaluator
  | 0 => beyond
  | steps + 1 => evalStep host limit (evalOnTop host limit beyond steps)

/-- A room is some steps on top of a smaller room. -/
theorem evalWithin_add (host : Host) (limit : Option Int) (steps room : Nat) :
    evalWithin host limit (steps + room) =
      evalOnTop host limit (evalWithin host limit room) steps := by
  induction steps with
  | zero => rw [Nat.zero_add, evalOnTop]
  | succ steps ih => rw [Nat.succ_add, evalWithin, evalOnTop, ih]

/-! ### What lies beyond the limit -/

theorem respectful_eq (host : Host) : Respectful host fun _ _ m₁ m₂ => m₁ = m₂ where
  pure _ _ _ := rfl
  bind first rest := by rw [first, funext rest]
  enter _ inside := by rw [funext inside]
  reject _ _ _ _ := rfl
  define _ _ _ := rfl
  resolve _ _ := rfl
  freshTag _ := rfl
  call _ _ _ := rfl

/-- Enough steps to come to the first depth beyond the limit never ask what lies
further down. -/
theorem evalOnTop_eq (host : Host) {limit depth : Int} {steps : Nat} (near : depth ≤ limit + 1)
    (enough : limit + 2 ≤ depth + steps) (beyond beyond' : Evaluator) :
    RelatedAt (fun _ _ m₁ m₂ => m₁ = m₂) depth (evalOnTop host (some limit) beyond steps)
      (evalOnTop host (some limit) beyond' steps) := by
  induction steps generalizing depth with
  | zero => omega
  | succ steps ih =>
    -- The measure is what the limit leaves above the depth; it falls with every step.
    by_cases inside : depth ≤ limit
    · exact (respectful_eq host).evalStep (ih (by omega) (by omega)) fun _ => rfl
    · intro e c
      rw [evalOnTop, evalOnTop, evalStep_of_lt (by omega), evalStep_of_lt (by omega)]

/-! ### Depth errors -/

/-- Errors about the depth or the room of evaluation. -/
def Error.isNesting : Error → Bool
  | .tooDeep .. => true
  | .stackOverflow => true
  | _ => false

/-- A host whose primitives do not evaluate: none raises a depth error or exhausts the
stack. -/
def Host.Shallow (host : Host) : Prop :=
  ∀ h c args store e store', host h c args store = .error e store' → e.isNesting = false

theorem EvalError.isNesting_eq_false {host : Host} (shallow : host.Shallow) {e : Error}
    (raised : EvalError host e) : e.isNesting = false := by
  cases raised with
  | rejected rejection => cases rejection <;> rfl
  | unbound => rfl
  | numeral => rfl
  | builtin raises => cases raises <;> rfl
  | host failed => exact shallow _ _ _ _ _ _ failed

/-- The errors of evaluation under a limit with room enough: a depth error, if it is one,
tells the first depth beyond the limit. -/
def WithinLimit (limit : Int) (e : Error) : Prop :=
  e.isNesting = false ∨ e = .tooDeep (limit + 1) limit

theorem withinLimit_of_evalStep {host : Host} {limit : Int} (eval : Evaluator) :
    RelatedAt (RaisesOnly (WithinLimit limit)) (limit + 1) (evalStep host (some limit) eval)
      (evalStep host (some limit) eval) := by
  intro e c s err s' failed
  rw [evalStep_of_lt (Int.lt_add_one_of_le (Int.le_refl limit))] at failed
  injection failed with raised
  rw [← raised, Error.settle]
  -- If the limit is too long to be written, the error is about that instead.
  split
  · exact .inr rfl
  · exact .inl rfl

/-- With room to come to the first depth beyond the limit, evaluation does not run out of
it, and every depth error tells that depth. -/
theorem evalWithin_raisesOnly {host : Host} (shallow : host.Shallow) {limit depth : Int}
    {room : Nat} (near : depth ≤ limit + 1) (enough : limit + 2 ≤ depth + room) :
    RelatedAt (RaisesOnly (WithinLimit limit)) depth (evalWithin host (some limit) room)
      (evalWithin host (some limit) room) := by
  have respects : Respectful host (RaisesOnly (WithinLimit limit)) :=
    respectful_raisesOnly fun e raised => .inl (raised.isNesting_eq_false shallow)
  induction room generalizing depth with
  | zero => omega
  | succ room ih =>
    rcases Int.lt_or_eq_of_le near with inside | rfl
    · apply respects.evalStep (ih (by omega) (by omega))
      intro c
      have within : ∀ l ∈ some limit, depth ≤ l := by
        intro l member
        cases member
        omega
      rw [checkDepth_of_le within]
      exact respects.pure c ()
    · exact withinLimit_of_evalStep _

/-- Under a depth limit evaluation ends, whatever the expression does. From depth zero its
steps nest at most two more times than the limit says: what lies beyond them is never asked,
and the last of them only fails. With that much room it never runs out of room, and more room
changes nothing. Every depth error tells the first depth beyond the limit, and the limit. -/
theorem limit_ends_evaluation (host : Host) (shallow : host.Shallow) {limit : Int}
    (nonnegative : 0 ≤ limit) (e : Value) (c : ContextId) :
    (∀ beyond : Evaluator, evalOnTop host (some limit) beyond (limit.toNat + 2) e c 0 =
      evalWithin host (some limit) (limit.toNat + 2) e c 0) ∧
    (∀ beyond : Evaluator, evalStep host (some limit) beyond e c (limit + 1) =
      Eval.fail (.tooDeep (limit + 1) limit)) ∧
    (∀ room, limit.toNat + 2 ≤ room →
      evalWithin host (some limit) room e c 0 =
        evalWithin host (some limit) (limit.toNat + 2) e c 0 ∧
      ∀ start final, evalWithin host (some limit) room e c 0 start ≠
        .error .stackOverflow final) ∧
    (∀ room start final depth most,
      evalWithin host (some limit) room e c 0 start = .error (.tooDeep depth most) final →
        depth = limit + 1 ∧ most = limit) := by
  have near : 0 ≤ limit + 1 := by omega
  have enough : limit + 2 ≤ 0 + ((limit.toNat + 2 : Nat) : Int) := by omega
  have unasked : ∀ beyond : Evaluator, evalOnTop host (some limit) beyond (limit.toNat + 2) e c 0 =
      evalWithin host (some limit) (limit.toNat + 2) e c 0 := by
    intro beyond
    have within := evalWithin_add host (some limit) (limit.toNat + 2) 0
    rw [Nat.add_zero] at within
    rw [within]
    exact evalOnTop_eq host near enough _ _ e c
  have larger : ∀ room, limit.toNat + 2 ≤ room → evalWithin host (some limit) room e c 0 =
      evalWithin host (some limit) (limit.toNat + 2) e c 0 := by
    intro room more
    obtain ⟨extra, rfl⟩ := Nat.exists_eq_add_of_le more
    rw [evalWithin_add, unasked]
  have raised := evalWithin_raisesOnly shallow near enough e c
  refine ⟨unasked, fun beyond => evalStep_of_lt (by omega) beyond e c, ?_, ?_⟩
  · intro room more
    refine ⟨larger room more, fun start final failed => ?_⟩
    rw [larger room more] at failed
    rcases raised start _ final failed with ordinary | exact
    · cases ordinary
    · cases exact
  · intro room start final depth most failed
    -- A smaller room gives the same error, since it was not the room that ran out.
    have settled : evalWithin host (some limit) (room + (limit.toNat + 2)) e c 0 start =
        .error (.tooDeep depth most) final := by
      rw [← failed]
      apply evalWithin_eq_of_le (Nat.le_add_right _ _)
      intro s overflow
      rw [failed] at overflow
      cases overflow
    rw [larger _ (Nat.le_add_left _ _)] at settled
    rcases raised start _ final settled with ordinary | exact
    · cases ordinary
    · cases exact
      exact ⟨rfl, rfl⟩

theorem countingHost_shallow : countingHost.Shallow := by
  intro h c args store e store' failed
  cases failed

/-- Self-application under the limit three does not exhaust five nested steps. It raises a depth
error in them, which tells depth four. -/
theorem limit_ends_selfApplication :
    countingHost.Shallow ∧
    (∀ start final, evalWithin countingHost (some 3) 5 selfApplication 0 0 start ≠
      .error .stackOverflow final) ∧
    (∀ start final depth most,
      evalWithin countingHost (some 3) 5 selfApplication 0 0 start =
        .error (.tooDeep depth most) final → depth = 4 ∧ most = 3) ∧
    ∃ final, evalWithin countingHost (some 3) 5 selfApplication 0 0 singleContext =
      .error (.tooDeep 4 3) final := by
  have ends := limit_ends_evaluation countingHost countingHost_shallow
    (show (0 : Int) ≤ 3 by decide) selfApplication 0
  exact ⟨countingHost_shallow, (ends.2.2.1 5 (by decide)).2, ends.2.2.2 5,
    selfApplication_tooDeep⟩

end ContextLisp
