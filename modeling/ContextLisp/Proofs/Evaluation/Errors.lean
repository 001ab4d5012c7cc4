/-
# The errors of evaluation

Apart from its two bounds, depth and room, evaluation fails in five ways: a rule
refuses a form, a name has no value, a message would show an integer too long to be
written, a builtin fails, or a host primitive does. The builtins in turn fail in five
ways, whatever they are given.
-/

import ContextLisp.Proofs.Evaluation.Relational

namespace ContextLisp

/-! ### Builtins -/

/-- The errors that a builtin can raise. -/
inductive Builtin.Raises : Error → Prop
  | arity (fault : ArityFault) : Raises (.arity fault)
  | wrongKind (fault : KindFault) : Raises (.wrongKind fault)
  | numeral : Raises .numeral
  | countOverflow : Raises .countOverflow
  | outOfMemory : Raises .outOfMemory

/-- The errors that a sum or a product can raise. They tell nothing of the arguments. -/
inductive Builtin.Refuses : Error → Prop
  | notNumbers (symbol : String) : Refuses (.wrongKind (.notNumbers symbol))
  | countOverflow : Refuses .countOverflow
  | outOfMemory : Refuses .outOfMemory

namespace Builtin

theorem Refuses.raises {e : Error} (refuses : Refuses e) : Raises e := by
  cases refuses with
  | notNumbers symbol => exact .wrongKind _
  | countOverflow => exact .countOverflow
  | outOfMemory => exact .outOfMemory

theorem Raises.settle {e : Error} (raises : Raises e) : Raises e.settle := by
  unfold Error.settle
  split
  · exact raises
  · exact .numeral

/-- A combination fails with an error of its operation. -/
theorem combine_error {P : Error → Prop} {op : Value → Value → Except Error Value}
    (fails : ∀ a b e, op a b = .error e → P e) {acc : Value} {args : List Value} {e : Error}
    (failed : combine op acc args = .error e) : P e := by
  induction args generalizing acc with
  | nil => cases failed
  | cons v args ih =>
    rw [combine] at failed
    split at failed
    · exact ih failed
    · rename_i e' result
      cases failed
      exact fails acc v e result

theorem refuses_of_plus {a b : Value} {e : Error} (failed : plus a b = .error e) : Refuses e := by
  unfold plus at failed
  split at failed
  · cases failed
  · cases failed
    exact .notNumbers _

theorem refuses_of_repeated {n : Int} {v : Value} {e : Error} (failed : repeated n v = .error e) :
    Refuses e := by
  cases v with
  | list items =>
    simp only [repeated, repeatList] at failed
    split at failed
    · cases failed
      exact .countOverflow
    · split at failed
      · cases failed
        exact .outOfMemory
      · cases failed
  | text content =>
    simp only [repeated, repeatText] at failed
    split at failed
    · cases failed
      exact .countOverflow
    · split at failed
      · cases failed
        exact .outOfMemory
      · cases failed
  | _ =>
    cases failed
    exact .notNumbers _

theorem refuses_of_times {a b : Value} {e : Error} (failed : times a b = .error e) : Refuses e := by
  unfold times at failed
  split at failed
  · cases failed
  · exact refuses_of_repeated failed
  · exact refuses_of_repeated failed
  · cases failed
    exact .notNumbers _

theorem raises_of_run {b : Builtin} {args : List Value} {e : Error}
    (failed : b.run args = .error e) : Raises e := by
  cases b with
  | add => exact (combine_error (fun _ _ _ => refuses_of_plus) failed).raises
  | mul => exact (combine_error (fun _ _ _ => refuses_of_times) failed).raises
  | compare c =>
    simp only [run, compareAll] at failed
    split at failed
    · cases failed
      exact (Raises.arity _).settle
    · split at failed
      · cases failed
      · cases failed
        exact (Raises.wrongKind _).settle

end Builtin

/-! ### Evaluation -/

/-- The errors that evaluation can raise for another reason than its bounds. -/
inductive EvalError (host : Host) : Error → Prop
  | rejected {e : Error} (rejection : Rejection e) : EvalError host e
  | unbound (name : String) (start : ContextId) : EvalError host (.unbound name start)
  | numeral : EvalError host .numeral
  | builtin {e : Error} (raises : Builtin.Raises e) : EvalError host e
  | host {h : HostPrimitive} {c : ContextId} {args : List Value} {store store' : HostState}
      {e : Error} (failed : host h c args store = .error e store') : EvalError host e

theorem EvalError.of_settled {host : Host} {e : Error} (rejection : Rejection e) :
    EvalError host e.settle := by
  unfold Error.settle
  split
  · exact .rejected rejection
  · exact .numeral

/-- A computation raises allowed errors only. -/
def RaisesOnly (allowed : Error → Prop) : EvalRelation := fun _ _ m _ =>
  ∀ s e s', m s = .error e s' → allowed e

theorem evalError_of_callPrimitive {host : Host} {c : ContextId} {p : Primitive}
    {args : List Value} {s s' : State} {e : Error}
    (failed : callPrimitive host p c args s = .error e s') : EvalError host e := by
  cases p with
  | builtin b =>
    have run : Eval.ofExcept (b.run args) { s with calls := s.calls.push ⟨.builtin b, args⟩ } =
        .error e s' := failed
    cases result : b.run args with
    | ok v =>
      rw [result] at run
      cases run
    | error e' =>
      rw [result] at run
      cases run
      exact .builtin (Builtin.raises_of_run result)
  | host h =>
    have run : Eval.lend (host h c args) { s with calls := s.calls.push ⟨.host h, args⟩ } =
        .error e s' := failed
    unfold Eval.lend at run
    split at run
    · cases run
    · rename_i e' store result
      cases run
      exact .host result

/-- Whatever evaluation raises, it raises for a bound or for one of these reasons. -/
theorem respectful_raisesOnly {host : Host} {allowed : Error → Prop}
    (covers : ∀ e, EvalError host e → allowed e) : Respectful host (RaisesOnly allowed) where
  pure _ _ _ := fun s e s' failed => by cases failed
  bind first rest := fun s e s' failed => by
    simp only [bind, EStateM.bind] at failed
    split at failed
    · exact rest _ _ e s' failed
    · rename_i result
      cases failed
      exact first s e s' result
  enter _ inside := fun s e s' failed => inside s.store.size _ e s' failed
  reject _ _ _ rejection := fun s e s' failed => by
    cases failed
    exact covers _ (.of_settled rejection)
  define _ _ _ := fun s e s' failed => by cases failed
  resolve c name := fun s e s' failed => by
    rw [resolve_apply] at failed
    split at failed
    · cases failed
    · cases failed
      exact covers _ (.unbound name c)
  freshTag _ := fun s e s' failed => by cases failed
  call _ _ _ := fun s e s' failed => covers e (evalError_of_callPrimitive failed)

end ContextLisp
