/-
# Evaluation under two bounds

Two evaluations of a form that differ in a bound only, the depth limit or the room on
the stack, run in step until the tighter bound is met. They give the same value or
the same error and leave the same state, with the same calls of primitives on record,
unless the evaluation under the tighter bound fails for that bound.

From depth zero a limit can only be met at the first depth beyond it, because every
rule evaluates exactly one level deeper than the form it belongs to.
-/

import ContextLisp.DepthLimit
import ContextLisp.Proofs.Evaluation.Relational
import ContextLisp.Proofs.Numerals

namespace ContextLisp

/-- Two computations have the same result and leave the same state, unless the first
one fails with an excused error. -/
def AgreeUnless (excused : Error → Prop) : EvalRelation := fun _ _ m₁ m₂ =>
  ∀ s, m₁ s = m₂ s ∨ ∃ e s', excused e ∧ m₁ s = .error e s'

theorem agreeUnless_refl (excused : Error → Prop) (c : ContextId) {α : Type} (m : Eval α) :
    AgreeUnless excused c α m m :=
  fun _ => .inl rfl

theorem agreeUnless_bind {excused : Error → Prop} {c : ContextId} {α β : Type}
    {m₁ m₂ : Eval α} {f₁ f₂ : α → Eval β} (first : AgreeUnless excused c α m₁ m₂)
    (rest : ∀ a, AgreeUnless excused c β (f₁ a) (f₂ a)) :
    AgreeUnless excused c β (m₁ >>= f₁) (m₂ >>= f₂) := by
  intro s
  rcases first s with same | ⟨e, s', excuse, failed⟩
  · simp only [bind, EStateM.bind, same]
    cases m₂ s with
    | ok a s' => exact rest a s'
    | error e s' => exact .inl rfl
  · refine .inr ⟨e, s', excuse, ?_⟩
    simp only [bind, EStateM.bind, failed]

theorem respectful_agreeUnless (host : Host) (excused : Error → Prop) :
    Respectful host (AgreeUnless excused) where
  pure c _ _ := agreeUnless_refl excused c _
  bind := agreeUnless_bind
  enter {c} _ _ _ _ _ inside := agreeUnless_bind (agreeUnless_refl excused c _) inside
  reject c _ _ _ := agreeUnless_refl excused c _
  define c _ _ := agreeUnless_refl excused c _
  resolve c _ := agreeUnless_refl excused c _
  freshTag c := agreeUnless_refl excused c _
  call c _ _ := agreeUnless_refl excused c _

/-! ### More room -/

/-- With more room, evaluation ends as it did unless it ran out of room. -/
theorem evalWithin_agree_of_more_room (host : Host) (limit : Option Int) (room more : Nat)
    (depth : Int) :
    RelatedAt (AgreeUnless (· = .stackOverflow)) depth (evalWithin host limit room)
      (evalWithin host limit (room + more)) := by
  induction room generalizing depth with
  | zero => exact fun e c s => .inr ⟨.stackOverflow, s, rfl, rfl⟩
  | succ room ih =>
    -- One step on either side, on top of rooms that differ by as much as before.
    rw [show room + 1 + more = room + more + 1 by omega]
    exact (respectful_agreeUnless host _).evalStep (ih (depth + 1))
      fun c => agreeUnless_refl _ c _

/-- A result other than running out of room is the result in any larger room. -/
theorem evalWithin_eq_of_le {host : Host} {limit : Option Int} {room room' : Nat}
    (larger : room ≤ room') {e : Value} {c : ContextId} {depth : Int} {s : State}
    (enough : ∀ s', evalWithin host limit room e c depth s ≠ .error .stackOverflow s') :
    evalWithin host limit room' e c depth s = evalWithin host limit room e c depth s := by
  obtain ⟨more, rfl⟩ := Nat.exists_eq_add_of_le larger
  rcases evalWithin_agree_of_more_room host limit room more depth e c s with
    same | ⟨_, s', rfl, failed⟩
  · exact same.symm
  · exact absurd failed (enough s')

/-! ### A higher limit -/

/-- A depth within the limit passes. -/
theorem checkDepth_of_le {limit : Option Int} {depth : Int} (within : ∀ l ∈ limit, depth ≤ l) :
    checkDepth limit depth = pure () := by
  cases limit with
  | none => rfl
  | some most =>
    have low : ¬ most < depth := Int.not_lt.mpr (within most rfl)
    simp only [checkDepth, if_neg low]

/-- At a depth beyond the limit an expression is not even looked at. -/
theorem evalStep_of_lt {host : Host} {most depth : Int} (beyond : most < depth)
    (eval : Evaluator) (e : Value) (c : ContextId) :
    evalStep host (some most) eval e c depth = Eval.fail (.tooDeep depth most) := by
  simp only [evalStep, checkDepth, if_pos beyond]
  rfl

/-- Limits that evaluation from depth zero can report to have been exceeded: they are
not negative, and not too long to be written. -/
structure DepthLimit.Reportable (limit : Int) : Prop where
  nonnegative : 0 ≤ limit
  short : limit.natAbs < 10 ^ Numeral.digitLimit

/-- Every limit that a setting asks for can be reported. -/
theorem DepthLimit.reportable_of_ofSetting {raw : Option String} {limit : Int}
    (set : DepthLimit.ofSetting raw = .ok (some limit)) : DepthLimit.Reportable limit := by
  have standard : DepthLimit.Reportable DepthLimit.standard := ⟨by decide, by decide +kernel⟩
  have bound : ∀ n, integerSetting DepthLimit.settingName DepthLimit.standard raw = .ok n →
      n.natAbs < 10 ^ Numeral.digitLimit := by
    intro n asked
    unfold integerSetting at asked
    split at asked
    · cases asked
      exact standard.short
    · split at asked
      · cases asked
        exact standard.short
      · split at asked
        · cases asked
          exact Numeral.read?_natAbs_lt (by assumption)
        · cases asked
  cases asked : integerSetting DepthLimit.settingName DepthLimit.standard raw with
  | error e => simp [DepthLimit.ofSetting, asked, Except.map] at set
  | ok n =>
    simp only [DepthLimit.ofSetting, asked, Except.map, Except.ok.injEq] at set
    split at set
    · rename_i positive
      cases set
      exact ⟨Int.le_of_lt positive, bound _ asked⟩
    · cases set

theorem settle_tooDeep {limit : Int} (reportable : DepthLimit.Reportable limit) (depth : Int) :
    (Error.tooDeep depth limit).settle = .tooDeep depth limit := by
  have shown : (Error.tooDeep depth limit).message?.isSome = true := by
    simp [Error.message?, Numeral.write?_of_lt reportable.short]
  rw [Error.settle, if_pos shown]

/-- Under a higher limit, evaluation ends as it did unless it exceeded the lower one, at
the first depth beyond it. -/
theorem evalWithin_agree_of_higher_limit (host : Host) {lower : Int}
    (reportable : DepthLimit.Reportable lower) {higher : Option Int}
    (raised : ∀ l ∈ higher, lower ≤ l) (room : Nat) {depth : Int} (near : depth ≤ lower + 1) :
    RelatedAt (AgreeUnless (· = .tooDeep (lower + 1) lower)) depth
      (evalWithin host (some lower) room) (evalWithin host higher room) := by
  induction room generalizing depth with
  | zero => exact fun e c => agreeUnless_refl _ c _
  | succ room ih =>
    rcases Int.lt_or_eq_of_le near with inside | rfl
    · -- Both checks pass, and what comes next is one level deeper on both sides.
      have low : depth ≤ lower := Int.lt_add_one_iff.mp inside
      have passes : checkDepth (some lower) depth = pure () :=
        checkDepth_of_le (by simpa using low)
      have passesToo : checkDepth higher depth = pure () :=
        checkDepth_of_le fun l member => Int.le_trans low (raised l member)
      apply (respectful_agreeUnless host _).evalStep (ih (Int.add_le_add_right low 1))
      intro c
      rw [passes, passesToo]
      exact agreeUnless_refl _ c _
    · -- At the first depth beyond the lower limit that side fails, whatever the other does.
      intro e c s
      refine .inr ⟨_, s, rfl, ?_⟩
      rw [evalWithin, evalStep_of_lt (Int.lt_add_one_of_le (Int.le_refl lower)), Eval.fail,
        settle_tooDeep reportable]
      rfl

/-- Raising the limit keeps every outcome that was no depth error. Of two evaluations
from depth zero, in the same room or in any rooms that both suffice, the one under the
lower limit gives the same value or error and leaves the same state, calls of primitives
included, as the one under the higher limit or under none; or else it fails at the first
depth beyond its limit. -/
theorem raising_limit_keeps_outcome (host : Host) {lower : Int}
    (reportable : DepthLimit.Reportable lower) {higher : Option Int}
    (raised : ∀ l ∈ higher, lower ≤ l) (e : Value) (c : ContextId) (start : State) :
    (∀ room,
      evalWithin host (some lower) room e c 0 start = evalWithin host higher room e c 0 start ∨
      ∃ final, evalWithin host (some lower) room e c 0 start =
        .error (.tooDeep (lower + 1) lower) final) ∧
    (∀ room room',
      (∀ s, evalWithin host (some lower) room e c 0 start ≠ .error .stackOverflow s) →
      (∀ s, evalWithin host higher room' e c 0 start ≠ .error .stackOverflow s) →
      evalWithin host (some lower) room e c 0 start = evalWithin host higher room' e c 0 start ∨
      ∃ final, evalWithin host (some lower) room e c 0 start =
        .error (.tooDeep (lower + 1) lower) final) := by
  have sameRoom : ∀ room,
      evalWithin host (some lower) room e c 0 start = evalWithin host higher room e c 0 start ∨
      ∃ final, evalWithin host (some lower) room e c 0 start =
        .error (.tooDeep (lower + 1) lower) final := by
    intro room
    have near : 0 ≤ lower + 1 := Int.le_add_one reportable.nonnegative
    rcases evalWithin_agree_of_higher_limit host reportable raised room near e c start with
      same | ⟨_, final, rfl, failed⟩
    · exact .inl same
    · exact .inr ⟨final, failed⟩
  refine ⟨sameRoom, fun room room' enough enough' => ?_⟩
  -- Where each has room enough, both end in the larger room as in their own.
  have large := evalWithin_eq_of_le (Nat.le_max_left room room') enough
  have large' := evalWithin_eq_of_le (Nat.le_max_right room room') enough'
  rw [← large, ← large']
  exact sameRoom (max room room')

/-- A host whose primitives count their arguments. -/
def countingHost : Host := fun _ _ args store => .ok (.int args.length) store

/-- `((fn (f) (f f)) (fn (f) (f f)))`, which evaluates itself without end. -/
def selfApplication : Value :=
  let twice := .list [.symbol "fn", .list [.symbol "f"], .list [.symbol "f", .symbol "f"]]
  .list [twice, twice]

/-- The state with one context that binds nothing. -/
def singleContext : State := ⟨⟨#[Context.empty []]⟩, 0, #[]⟩

theorem selfApplication_tooDeep :
    ∃ final, evalWithin countingHost (some 3) 5 selfApplication 0 0 singleContext =
      .error (.tooDeep 4 3) final := by
  have computed : (match evalWithin countingHost (some 3) 5 selfApplication 0 0 singleContext with
      | .error (.tooDeep 4 3) _ => true
      | _ => false) = true := by
    decide +kernel
  split at computed
  · exact ⟨_, by assumption⟩
  · cases computed

/-- Under the limit three, which a setting asks for, self-application ends in any room as it does
without a limit, or fails at depth four. From room five on, it is the second. -/
theorem raising_limit_keeps_outcome_selfApplication :
    DepthLimit.ofSetting (some " 3 ") = .ok (some 3) ∧
    (∀ room,
      evalWithin countingHost (some 3) room selfApplication 0 0 singleContext =
        evalWithin countingHost none room selfApplication 0 0 singleContext ∨
      ∃ final, evalWithin countingHost (some 3) room selfApplication 0 0 singleContext =
        .error (.tooDeep 4 3) final) ∧
    ∀ room, 5 ≤ room →
      ∃ final, evalWithin countingHost (some 3) room selfApplication 0 0 singleContext =
        .error (.tooDeep 4 3) final := by
  have set : DepthLimit.ofSetting (some " 3 ") = .ok (some 3) := by cbv
  have unlimited : ∀ l ∈ (none : Option Int), (3 : Int) ≤ l := by simp
  refine ⟨set, (raising_limit_keeps_outcome countingHost (DepthLimit.reportable_of_ofSetting set)
    unlimited selfApplication 0 singleContext).1, fun room large => ?_⟩
  obtain ⟨final, failed⟩ := selfApplication_tooDeep
  refine ⟨final, (evalWithin_eq_of_le large fun s overflow => ?_).trans failed⟩
  rw [failed] at overflow
  cases overflow

end ContextLisp
