/-
# Invariants of evaluation

An invariant says what holds of the state, of the values that are about, of the contexts in
which something is evaluated and of the errors that are raised. What holds of a value or of a
context in one state holds of it in all later states. If the operations on the state and the
calls of primitives keep an invariant, evaluation does: values come from the expression, from a
search or from a new tag, a new context is made from contexts that are known, and an error shows
values that were about, or exceeds one of the two bounds.
-/

import ContextLisp.Proofs.References

namespace ContextLisp

/-- The second state comes later: no fewer tags were given, no fewer contexts made, and the
calls of the first are on record. -/
structure State.Before (s t : State) : Prop where
  tags : s.nextTag ≤ t.nextTag
  contexts : s.store.size ≤ t.store.size
  calls : s.calls.toList <+: t.calls.toList

namespace State.Before

theorem refl (s : State) : s.Before s := ⟨Nat.le_refl _, Nat.le_refl _, List.prefix_rfl⟩

theorem trans {s t u : State} (first : s.Before t) (second : t.Before u) : s.Before u :=
  ⟨Nat.le_trans first.tags second.tags, Nat.le_trans first.contexts second.contexts,
    first.calls.trans second.calls⟩

theorem of_store {s : State} {store : Store} (grows : s.store.size ≤ store.size) :
    s.Before { s with store } :=
  ⟨Nat.le_refl _, grows, List.prefix_rfl⟩

theorem of_resume {s : State} {left : HostState} (grows : s.store.size ≤ left.size) :
    s.Before (s.resume left) :=
  ⟨Nat.le_max_left _ _, grows, List.prefix_rfl⟩

theorem of_tag (s : State) : s.Before { s with nextTag := s.nextTag + 1 } :=
  ⟨Nat.le_succ _, Nat.le_refl _, List.prefix_rfl⟩

theorem of_call (s : State) (call : Call) : s.Before { s with calls := s.calls.push call } :=
  ⟨Nat.le_refl _, Nat.le_refl _, by simp⟩

end State.Before

/-- What is to hold of states, and in a state of values, of contexts and of an error that is
raised there. -/
structure Invariant where
  state : State → Prop
  value : State → Value → Prop
  context : State → ContextId → Prop
  error : State → Error → Prop

variable {I : Invariant}

/-- In any state later than `start`, the computation keeps the invariant, and a result has the
property. An error has that of the invariant. -/
def Keeps {α : Type} (I : Invariant) (start : State) (Q : State → α → Prop) (m : Eval α) : Prop :=
  ∀ s, start.Before s → I.state s →
    match m s with
    | .ok a t => s.Before t ∧ I.state t ∧ Q t a
    | .error e t => s.Before t ∧ I.state t ∧ I.error t e

/-- What was found to hold of values and of contexts lasts. -/
structure Invariant.Lasting (I : Invariant) : Prop where
  value_later {s t : State} {v : Value} : s.Before t → I.value s v → I.value t v
  context_later {s t : State} {c : ContextId} : s.Before t → I.context s c → I.context t c

/-- What was found to hold lasts, and the operations on the state and calls of primitives keep
the invariant. -/
structure Invariant.Sustained (I : Invariant) (host : Host) : Prop extends I.Lasting where
  nil {s : State} : I.value s .nil
  symbol {s : State} (name : String) : I.value s (.symbol name)
  list {s : State} {items : List Value} : I.value s (.list items) ↔ ∀ v ∈ items, I.value s v
  function {s : State} {tag : Nat} {params : List String} {body : Value} {scope : ContextId} :
    I.value s (.function tag params body scope) → I.value s body ∧ I.context s scope
  expander {s : State} {tag : Nat} {params : List String} {body : Value} :
    I.value s (.expander tag params body) → I.value s body
  create {start : State} {parents : List ContextId} :
    (∀ p ∈ parents, I.context start p) → Keeps I start I.context (Eval.create parents)
  define {start : State} {c : ContextId} (name : String) {v : Value} :
    I.context start c → I.value start v →
      Keeps I start (fun _ _ => True) (Eval.define c name v)
  resolve {start : State} {c : ContextId} (name : String) :
    I.context start c → Keeps I start I.value (Eval.resolve c name)
  /-- With a new tag, functions and expanders can be made. -/
  freshTag (start : State) : Keeps I start
    (fun t tag => ∀ params body c, I.value t body → I.context t c →
      I.value t (.function tag params body c) ∧ I.value t (.expander tag params body))
    Eval.freshTag
  call {start : State} {c : ContextId} {p : Primitive} {args : List Value} :
    I.value start (.primitive p) → I.context start c → (∀ v ∈ args, I.value start v) →
      Keeps I start I.value (callPrimitive host p c args)
  /-- A rule can refuse a form. -/
  rejection {s : State} {e : Error} :
    Rejection e → (∀ v ∈ e.values, I.value s v) → I.error s e.settle
  /-- The room can be used up. -/
  stackOverflow {s : State} : I.error s .stackOverflow

/-- The invariant allows depth errors under a limit. -/
def Invariant.Limits (I : Invariant) (limit : Option Int) : Prop :=
  ∀ most ∈ limit, ∀ s depth, I.error s (Error.tooDeep depth most).settle

/-- The invariant asks nothing of values in which nothing can be called, nor of errors that refer
to nothing. -/
structure Invariant.Coarse (I : Invariant) : Prop where
  plain {s : State} {v : Value} : v.callables = [] → I.value s v
  bare {s : State} {e : Error} : e.IsBare → I.error s e

theorem Invariant.Coarse.limits {I : Invariant} (coarse : I.Coarse) (limit : Option Int) :
    I.Limits limit :=
  fun _ _ _ _ => coarse.bare (Error.IsBare.settle ⟨rfl, rfl⟩)

/-- The evaluator keeps the invariant. -/
def Invariant.KeptBy (I : Invariant) (eval : Evaluator) : Prop :=
  ∀ {start e c} (depth), I.value start e → I.context start c →
    Keeps I start I.value (eval e c depth)

section

variable {α β : Type} {start : State}

theorem keeps_pure {Q : State → α → Prop} {a : α} (holds : ∀ s, start.Before s → Q s a) :
    Keeps I start Q (pure a) :=
  fun s later kept => ⟨.refl s, kept, holds s later⟩

theorem keeps_throw {Q : State → α → Prop} {e : Error}
    (holds : ∀ s, start.Before s → I.error s e) : Keeps I start Q (throw e) :=
  fun s later kept => ⟨.refl s, kept, holds s later⟩

theorem Keeps.bind {P : State → α → Prop} {Q : State → β → Prop} {m : Eval α} {f : α → Eval β}
    (first : Keeps I start P m)
    (rest : ∀ s a, start.Before s → P s a → Keeps I s Q (f a)) :
    Keeps I start Q (m >>= f) := by
  intro s later kept
  have one := first s later kept
  simp only [Bind.bind, EStateM.bind]
  cases outcome : m s with
  | ok a t =>
    rw [outcome] at one
    obtain ⟨before, kept', holds⟩ := one
    have two := rest t a (later.trans before) holds t (.refl t) kept'
    cases outcome' : f a t with
    | ok b u =>
      simp only [outcome'] at two ⊢
      exact ⟨before.trans two.1, two.2⟩
    | error e u =>
      simp only [outcome'] at two ⊢
      exact ⟨before.trans two.1, two.2⟩
  | error e t =>
    rw [outcome] at one
    exact one

/-- The record of calls is no concern of an invariant that looks at the store alone. -/
theorem keeps_record {call : Call}
    (holds : ∀ s, I.state s → I.state { s with calls := s.calls.push call }) :
    Keeps I start (fun _ _ => True) (Eval.record call) :=
  fun s _ kept => ⟨.of_call s call, holds s kept, trivial⟩

/-- A builtin keeps an invariant that asks something of everything that can be called in a
value, as long as the record of its call does not matter. -/
theorem keeps_callBuiltin {P : State → Value → Prop}
    (holds : ∀ s v, I.value s v ↔ v.EachCallable (P s))
    (lasts : ∀ {s t v}, s.Before t → I.value s v → I.value t v) {b : Builtin} {args : List Value}
    (recorded : Keeps I start (fun _ _ => True) (Eval.record ⟨.builtin b, args⟩))
    (failed : ∀ s e, start.Before s → b.run args = .error e → I.error s e)
    (values : ∀ v ∈ args, I.value start v) (host : Host) (c : ContextId) :
    Keeps I start I.value (callPrimitive host (.builtin b) c args) := by
  apply recorded.bind
  intro s _ later _
  cases ran : b.run args with
  | ok v =>
    simp only [ran]
    refine keeps_pure fun t later' => (holds t v).mpr (Builtin.eachCallable_run ran ?_)
    exact fun a member => (holds t a).mp (lasts (later.trans later') (values a member))
  | error e =>
    simp only [ran]
    exact keeps_throw fun t later' => failed t e (later.trans later') ran

end

theorem Invariant.Lasting.evalEach (lasting : I.Lasting) {eval : Evaluator}
    (deeper : I.KeptBy eval) {start : State} {c : ContextId} (depth : Int) {es : List Value}
    (values : ∀ e ∈ es, I.value start e) (known : I.context start c) :
    Keeps I start (fun t vs => ∀ v ∈ vs, I.value t v) (evalEach eval c depth es) := by
  induction es generalizing start with
  | nil => exact keeps_pure fun _ _ => nofun
  | cons e es ih =>
    apply (deeper depth (values e List.mem_cons_self) known).bind
    intro s v later holds
    apply (ih (fun w member => lasting.value_later later
      (values w (List.mem_cons_of_mem e member))) (lasting.context_later later known)).bind
    intro t vs later' all
    -- The first value was found before the others were, and what holds of it lasts.
    refine keeps_pure fun u later'' => ?_
    intro w member
    rcases List.mem_cons.mp member with rfl | member
    · exact lasting.value_later (later'.trans later'') holds
    · exact lasting.value_later later'' (all w member)

namespace Invariant.Sustained

variable {host : Host} {eval : Evaluator} {start : State} {c : ContextId}

/-! ### Failure -/

/-- A rule that refuses a form shows values that were about, or none. -/
theorem keeps_reject (sustained : I.Sustained host) {α : Type} {Q : State → α → Prop} {e : Error}
    (rejection : Rejection e) (values : ∀ v ∈ e.values, I.value start v) :
    Keeps I start Q (Eval.fail e) :=
  keeps_throw fun _ later =>
    sustained.rejection rejection fun v shown => sustained.value_later later (values v shown)

theorem keeps_badForm (sustained : I.Sustained host) {α : Type} {Q : State → α → Prop}
    (form : SpecialForm) : Keeps I start Q (badForm form) :=
  sustained.keeps_reject (.arity _) nofun

/-! ### Application -/

theorem defineEach_symbols (sustained : I.Sustained host) (params : List String)
    {args : List Value} (values : ∀ v ∈ args, I.value start v) (known : I.context start c) :
    Keeps I start (fun _ _ => True)
      (Eval.defineEach c ((params.map Value.symbol).zip args)) := by
  induction params generalizing start args with
  | nil => exact keeps_pure fun _ _ => trivial
  | cons name params ih =>
    cases args with
    | nil => exact keeps_pure fun _ _ => trivial
    | cons v args =>
      apply (sustained.define name known (values v List.mem_cons_self)).bind
      intro s _ later _
      exact ih (fun w member => sustained.value_later later
        (values w (List.mem_cons_of_mem v member))) (sustained.context_later later known)

theorem extend (sustained : I.Sustained host) {parents : List ContextId}
    (inherited : ∀ p ∈ parents, I.context start p) (params : List String) {args : List Value}
    (values : ∀ v ∈ args, I.value start v) :
    Keeps I start I.context (extend parents params args) := by
  apply (sustained.create inherited).bind
  intro s inner later known
  have values' : ∀ v ∈ args, I.value s v := fun v member =>
    sustained.value_later later (values v member)
  have bound : Keeps I s (fun _ _ => True)
      (Eval.defineAll inner (params.map Value.symbol) args) := by
    unfold Eval.defineAll
    split
    · exact sustained.defineEach_symbols params values' known
    · refine sustained.keeps_reject (.arity _) fun v shown => ?_
      obtain ⟨name, _, rfl⟩ := List.mem_map.mp shown
      exact sustained.symbol name
  exact bound.bind fun t _ later' _ => keeps_pure fun u later'' =>
    sustained.context_later (later'.trans later'') known

theorem apply (sustained : I.Sustained host) (deeper : I.KeptBy eval) {callee : Value}
    (holds : I.value start callee) {args : List Value}
    (values : ∀ e ∈ args, I.value start e) (known : I.context start c) (depth : Int)
    {form : Option Value} (shown : ∀ f ∈ form, I.value start f)
    (blamed : callee.isCallable = false → Rejection (.notCallable callee form)) :
    Keeps I start I.value (apply host eval callee args c depth form) := by
  cases callee with
  | function tag params body scope =>
    apply (sustained.evalEach deeper (depth + 1) values known).bind
    intro s vs later all
    obtain ⟨code, defined⟩ := sustained.function (sustained.value_later later holds)
    have inherited : ∀ p ∈ [scope, c], I.context s p := by
      simpa using ⟨defined, sustained.context_later later known⟩
    apply (sustained.extend inherited params all).bind
    intro t inner later' entered
    exact deeper (depth + 1) (sustained.value_later later' code) entered
  | expander tag params body =>
    apply (sustained.extend (by simpa using known) params values).bind
    intro t inner later entered
    exact deeper (depth + 1) (sustained.value_later later (sustained.expander holds)) entered
  | primitive p =>
    apply (sustained.evalEach deeper (depth + 1) values known).bind
    intro s vs later all
    exact sustained.call (sustained.value_later later holds)
      (sustained.context_later later known) all
  | _ =>
    refine sustained.keeps_reject (blamed rfl) (List.forall_mem_cons.mpr ⟨holds, ?_⟩)
    simpa using shown

/-! ### Special forms -/

/-- A parameter list gives its names, or something in it is shown in an error. -/
theorem parameterNames (sustained : I.Sustained host) (form : String) {params : Value}
    (holds : I.value start params) :
    Keeps I start (fun _ _ => True) (Eval.ofExcept (parameterNames form params)) := by
  cases params with
  | list items =>
    have values := sustained.list.mp holds
    simp only [ContextLisp.parameterNames]
    induction items with
    | nil => exact keeps_pure fun _ _ => trivial
    | cons item items ih =>
      obtain ⟨first, others⟩ := List.forall_mem_cons.mp values
      cases item with
      | symbol name =>
        have rest := ih (sustained.list.mpr others) others
        simp only [parameterNames.go]
        cases outcome : parameterNames.go form items with
        | ok names => exact keeps_pure fun _ _ => trivial
        | error e =>
          rw [outcome] at rest
          exact rest
      | _ => exact sustained.keeps_reject (.invalidName _) (List.forall_mem_singleton.mpr first)
  | _ => exact sustained.keeps_reject (.wrongKind _) (List.forall_mem_singleton.mpr holds)

theorem evalDefine (sustained : I.Sustained host) (deeper : I.KeptBy eval) (depth : Int)
    {parts : List Value} (values : ∀ e ∈ parts, I.value start e) (known : I.context start c) :
    Keeps I start I.value (evalDefine eval c depth parts) := by
  unfold ContextLisp.evalDefine
  split
  · apply (deeper (depth + 1) (values _ (by simp)) known).bind
    intro s v later holds
    apply (sustained.define _ (sustained.context_later later known) holds).bind
    exact fun _ _ _ _ => keeps_pure fun _ _ => sustained.nil
  · exact sustained.keeps_reject (.invalidName _)
      (List.forall_mem_singleton.mpr (values _ List.mem_cons_self))
  · exact sustained.keeps_badForm _

theorem evalDefineMacro (sustained : I.Sustained host) {parts : List Value}
    (values : ∀ e ∈ parts, I.value start e) (known : I.context start c) :
    Keeps I start I.value (evalDefineMacro c parts) := by
  unfold ContextLisp.evalDefineMacro
  split
  · rename_i name params body
    have code : I.value start body := values _ (by simp)
    apply (sustained.parameterNames _ (values params (by simp))).bind
    intro s names later _
    apply (sustained.freshTag s).bind
    intro t tag later' made
    have known' := sustained.context_later (later.trans later') known
    have code' := sustained.value_later (later.trans later') code
    apply (sustained.define name known' (made names body c code' known').2).bind
    exact fun _ _ _ _ => keeps_pure fun _ _ => sustained.nil
  · exact sustained.keeps_reject (.invalidName _)
      (List.forall_mem_singleton.mpr (values _ List.mem_cons_self))
  · exact sustained.keeps_badForm _

theorem evalLambda (sustained : I.Sustained host) {parts : List Value}
    (values : ∀ e ∈ parts, I.value start e) (known : I.context start c) :
    Keeps I start I.value (evalLambda c parts) := by
  unfold ContextLisp.evalLambda
  split
  · rename_i params body
    have code : I.value start body := values _ (by simp)
    apply (sustained.parameterNames _ (values params (by simp))).bind
    intro s names later _
    apply (sustained.freshTag s).bind
    intro t tag later' made
    have known' := sustained.context_later (later.trans later') known
    have code' := sustained.value_later (later.trans later') code
    exact keeps_pure fun u later'' =>
      sustained.value_later later'' (made names body c code' known').1
  · exact sustained.keeps_badForm _

theorem evalBranch (sustained : I.Sustained host) (deeper : I.KeptBy eval) (depth : Int)
    {parts : List Value} (values : ∀ e ∈ parts, I.value start e) (known : I.context start c) :
    Keeps I start I.value (evalBranch eval c depth parts) := by
  have branch {s : State} (later : start.Before s) {e : Value} (member : e ∈ parts) :
      Keeps I s I.value (eval e c (depth + 1)) :=
    deeper (depth + 1) (sustained.value_later later (values e member))
      (sustained.context_later later known)
  unfold ContextLisp.evalBranch
  split
  · apply (branch (.refl start) (by simp)).bind
    intro s v later _
    split
    · exact branch later (by simp)
    · exact keeps_pure fun _ _ => sustained.nil
  · apply (branch (.refl start) (by simp)).bind
    intro s v later _
    split
    · exact branch later (by simp)
    · exact branch later (by simp)
  · exact sustained.keeps_badForm _

theorem bindPairs (sustained : I.Sustained host) (deeper : I.KeptBy eval) (depth : Int)
    {bindings : List Value} (values : ∀ e ∈ bindings, I.value start e)
    (known : I.context start c) :
    Keeps I start (fun _ _ => True) (bindPairs eval c depth bindings) := by
  fun_induction ContextLisp.bindPairs eval c depth bindings generalizing start with
  | case1 name e rest ih =>
    apply (deeper depth (values e (by simp)) known).bind
    intro s v later holds
    have known' := sustained.context_later later known
    apply (sustained.define name known' holds).bind
    intro t _ later' _
    exact ih (fun w member => sustained.value_later (later.trans later')
      (values w (by simp [member]))) (sustained.context_later later' known')
  | case2 =>
    exact sustained.keeps_reject (.invalidName _)
      (List.forall_mem_singleton.mpr (values _ List.mem_cons_self))
  | case3 => exact keeps_pure fun _ _ => trivial

theorem evalLast (sustained : I.Sustained host) (deeper : I.KeptBy eval) (depth : Int)
    {last : Value} (holds : I.value start last) {body : List Value}
    (values : ∀ e ∈ body, I.value start e) (known : I.context start c) :
    Keeps I start I.value (evalLast eval c depth last body) := by
  induction body generalizing start last with
  | nil => exact keeps_pure fun s later => sustained.value_later later holds
  | cons e es ih =>
    apply (deeper depth (values e List.mem_cons_self) known).bind
    intro s v later holds
    exact ih holds (fun w member => sustained.value_later later
      (values w (List.mem_cons_of_mem e member))) (sustained.context_later later known)

theorem evalBind (sustained : I.Sustained host) (deeper : I.KeptBy eval) (depth : Int)
    {parts : List Value} (values : ∀ e ∈ parts, I.value start e) (known : I.context start c) :
    Keeps I start I.value (evalBind eval c depth parts) := by
  unfold ContextLisp.evalBind
  split
  · rename_i bindings body
    split
    · apply (sustained.create (by simpa using known)).bind
      intro s inner later entered
      have pairs : ∀ e ∈ bindings, I.value s e :=
        sustained.list.mp (sustained.value_later later (values _ List.mem_cons_self))
      apply (sustained.bindPairs deeper (depth + 1) pairs entered).bind
      intro t _ later' _
      exact sustained.evalLast deeper (depth + 1) sustained.nil
        (fun e member => sustained.value_later (later.trans later')
          (values e (List.mem_cons_of_mem _ member)))
        (sustained.context_later later' entered)
    · exact sustained.keeps_reject (.arity _) nofun
  · exact sustained.keeps_reject (.wrongKind _)
      (List.forall_mem_singleton.mpr (values _ List.mem_cons_self))
  · exact sustained.keeps_badForm _

theorem evalQuote (sustained : I.Sustained host) {parts : List Value}
    (values : ∀ e ∈ parts, I.value start e) : Keeps I start I.value (evalQuote parts) := by
  unfold ContextLisp.evalQuote
  split
  · exact keeps_pure fun s later => sustained.value_later later (values _ List.mem_cons_self)
  · exact sustained.keeps_badForm _

theorem evalEvaluate (sustained : I.Sustained host) (deeper : I.KeptBy eval) (depth : Int)
    {parts : List Value} (values : ∀ e ∈ parts, I.value start e) (known : I.context start c) :
    Keeps I start I.value (evalEvaluate eval c depth parts) := by
  unfold ContextLisp.evalEvaluate
  split
  · apply (deeper (depth + 1) (values _ List.mem_cons_self) known).bind
    intro s code later holds
    exact deeper (depth + 1) holds (sustained.context_later later known)
  · exact sustained.keeps_badForm _

theorem evalForm (sustained : I.Sustained host) (deeper : I.KeptBy eval) (depth : Int)
    {parts : List Value} (values : ∀ e ∈ parts, I.value start e) (known : I.context start c)
    (form : SpecialForm) : Keeps I start I.value (evalForm eval c depth parts form) := by
  cases form with
  | define => exact sustained.evalDefine deeper depth values known
  | defineMacro => exact sustained.evalDefineMacro values known
  | lambda => exact sustained.evalLambda values known
  | branch => exact sustained.evalBranch deeper depth values known
  | bind => exact sustained.evalBind deeper depth values known
  | quote => exact sustained.evalQuote values
  | evaluate => exact sustained.evalEvaluate deeper depth values known

/-! ### Evaluation -/

theorem keeps_checkDepth {limit : Option Int} (limits : I.Limits limit) (depth : Int) :
    Keeps I start (fun _ _ => True) (checkDepth limit depth) := by
  unfold checkDepth
  split
  · exact keeps_pure fun _ _ => trivial
  · split
    · exact keeps_throw fun s _ => limits _ rfl s depth
    · exact keeps_pure fun _ _ => trivial

/-- One step keeps the invariant if what lies deeper does. -/
theorem evalStep (sustained : I.Sustained host) {limit : Option Int} (limits : I.Limits limit)
    (deeper : I.KeptBy eval) : I.KeptBy (evalStep host limit eval) := by
  intro start e c depth holds known
  apply (keeps_checkDepth limits depth).bind
  intro s _ later _
  have holds' := sustained.value_later later holds
  have known' := sustained.context_later later known
  cases e with
  | symbol name => exact sustained.resolve name known'
  | list items =>
    cases items with
    | nil => exact keeps_pure fun t later' => sustained.value_later later' holds'
    | cons head parts =>
      have items := sustained.list.mp holds'
      have values : ∀ e ∈ parts, I.value s e := fun e member =>
        items e (List.mem_cons_of_mem head member)
      cases special : head.specialForm? with
      | some form =>
        simp only [special]
        exact sustained.evalForm deeper depth values known' form
      | none =>
        simp only [special]
        apply (deeper (depth + 1) (items head List.mem_cons_self) known').bind
        intro t callee later' called
        refine sustained.apply deeper called
          (fun e member => sustained.value_later later' (values e member))
          (sustained.context_later later' known') depth ?_ fun refused =>
            .notCallable parts refused special
        rintro _ ⟨⟩
        exact sustained.value_later later' holds'
  | _ => exact keeps_pure fun t later' => sustained.value_later later' holds'

theorem evalWithin (sustained : I.Sustained host) {limit : Option Int} (limits : I.Limits limit)
    (room : Nat) : I.KeptBy (evalWithin host limit room) := by
  induction room with
  | zero => exact fun _ _ _ => keeps_throw fun _ _ => sustained.stackOverflow
  | succ room ih => exact sustained.evalStep limits ih

end Invariant.Sustained

end ContextLisp
