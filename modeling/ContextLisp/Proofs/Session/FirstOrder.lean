/-
# First-order code

Code that makes no functions and expanders and runs no data as code can only call what is
there already. Where that is builtins, it stays so: nothing else that can be called comes about
while it runs. Builtins evaluate nothing, so evaluation of such code nests as deep as the lists
in it do. Every rule stays within this measure: what it evaluates stands inside of its form, and
a level of evaluation is charged for at least one level of lists. The expressions of a binding
list stand two levels inside of their form and are charged one.

So a depth limit that leaves room for the lists of first-order code is never met. Evaluation
ends as it does without a limit, and it runs out of stack only if the lists nest deeper than the
stack has room for.
-/

import ContextLisp.Proofs.Evaluation.Agreement
import ContextLisp.Proofs.Session.TextCalls

namespace ContextLisp

/-! ### Values and stores without functions -/

/-- Data and builtins: nothing else in the value can be called. -/
def Value.IsFirstOrder (v : Value) : Prop :=
  v.EachCallable fun w => ∃ b, w = .primitive (.builtin b)

/-- Every context binds data and builtins only. -/
def Store.IsFirstOrder (store : Store) : Prop :=
  ∀ k, ∀ entry ∈ store.bindingsOf k, entry.2.IsFirstOrder

namespace Value

theorem isFirstOrder_of_plain {v : Value} (plain : v.callables = []) : v.IsFirstOrder :=
  eachCallable_of_plain plain

theorem not_isFirstOrder_function {tag : Nat} {params : List String} {body : Value}
    {scope : ContextId} : ¬ (Value.function tag params body scope).IsFirstOrder := by
  intro firstOrder
  obtain ⟨b, same⟩ := (eachCallable_function.mp firstOrder).1
  cases same

theorem not_isFirstOrder_expander {tag : Nat} {params : List String} {body : Value} :
    ¬ (Value.expander tag params body).IsFirstOrder := by
  intro firstOrder
  obtain ⟨b, same⟩ := (eachCallable_expander.mp firstOrder).1
  cases same

end Value

namespace Store.IsFirstOrder

variable {store : Store}

theorem create (firstOrder : store.IsFirstOrder) (parents : List ContextId) :
    (store.create parents).2.IsFirstOrder := by
  intro k entry member
  rw [bindingsOf_create] at member
  exact firstOrder k entry member

theorem define (firstOrder : store.IsFirstOrder) (id : ContextId) (name : String) {v : Value}
    (value : v.IsFirstOrder) : (store.define id name v).IsFirstOrder := by
  intro k entry member
  rcases mem_bindingsOf_define member with old | new
  · exact firstOrder k entry old
  · exact new ▸ value

theorem resolve? (firstOrder : store.IsFirstOrder) {c : ContextId} {name : String} {v : Value}
    (found : store.resolve? c name = some v) : v.IsFirstOrder := by
  obtain ⟨home, bound⟩ := exists_mem_of_resolve? found
  exact firstOrder home (name, v) bound

end Store.IsFirstOrder

/-! ### Code and how deep it nests -/

namespace Value

mutual

/-- How deep lists nest in a value: an empty list counts as an atom, and any other list is one
level above its deepest item. -/
def listDepth : Value → Nat
  | .list items => listDepthOfItems items
  | _ => 0

/-- One level above the deepest of several values; nothing without values. -/
def listDepthOfItems : List Value → Nat
  | [] => 0
  | v :: vs => max (v.listDepth + 1) (listDepthOfItems vs)

end

theorem listDepthOfItems_le_iff {vs : List Value} {n : Nat} :
    listDepthOfItems vs ≤ n ↔ ∀ v ∈ vs, v.listDepth + 1 ≤ n := by
  induction vs with
  | nil => simp [listDepthOfItems]
  | cons v vs ih => rw [listDepthOfItems, Nat.max_le, ih, List.forall_mem_cons]

end Value

/-- The special forms that make something to call, or run data as code. -/
def SpecialForm.isHigherOrder : SpecialForm → Bool
  | .lambda | .defineMacro | .evaluate => true
  | _ => false

/-- Code in which nothing can be called but builtins, and which mentions none of the special
forms that could change this. -/
structure Value.IsFirstOrderCode (e : Value) : Prop where
  firstOrder : e.IsFirstOrder
  unmentioned : ∀ form : SpecialForm, form.isHigherOrder = true → ¬ Occurs (.symbol form.name) e

/-- First-order code whose lists nest no deeper than this. -/
structure Value.CodeWithin (n : Nat) (e : Value) : Prop extends e.IsFirstOrderCode where
  nested : e.listDepth ≤ n

namespace Value.CodeWithin

variable {n : Nat} {e : Value} {items : List Value}

theorem mono {m : Nat} (code : e.CodeWithin n) (more : n ≤ m) : e.CodeWithin m :=
  ⟨code.toIsFirstOrderCode, Nat.le_trans code.nested more⟩

/-- The items of a list are code, one level less deep. -/
theorem item (code : (Value.list items).CodeWithin (n + 1)) {v : Value} (member : v ∈ items) :
    v.CodeWithin n where
  firstOrder := eachCallable_list.mp code.firstOrder v member
  unmentioned form higher occurs := code.unmentioned form higher (.item member occurs)
  nested := Nat.le_of_succ_le_succ (listDepthOfItems_le_iff.mp code.nested v member)

/-- A list with items nests. -/
theorem exists_pred {head : Value} {parts : List Value}
    (code : (Value.list (head :: parts)).CodeWithin n) : ∃ m, n = m + 1 := by
  have deep := listDepthOfItems_le_iff.mp code.nested head List.mem_cons_self
  exact Nat.exists_eq_add_one.mpr (Nat.lt_of_lt_of_le (Nat.succ_pos _) deep)

/-- A special form that heads first-order code is none of those it may not mention. -/
theorem isHigherOrder_eq_false {head : Value} {parts : List Value}
    (code : (Value.list (head :: parts)).CodeWithin n) {form : SpecialForm}
    (special : head.specialForm? = some form) : form.isHigherOrder = false := by
  cases head with
  | symbol name =>
    have named : form.name = name := by
      simpa using List.find?_some special
    by_contra higher
    refine code.unmentioned form (by simpa using higher) ?_
    exact named ▸ .item List.mem_cons_self .self
  | _ => cases special

end Value.CodeWithin

/-! ### What evaluation keeps -/

/-- Errors of recursion: an expression beyond the depth limit, and the end of the stack, as it
is met or as it is reported. -/
def Error.isRecursion : Error → Bool
  | .tooDeep .. | .stackOverflow | .exhausted => true
  | _ => false

theorem Rejection.isRecursion_settle {e : Error} (rejection : Rejection e) :
    e.settle.isRecursion = false := by
  unfold Error.settle
  split
  · cases rejection <;> rfl
  · rfl

theorem Builtin.Raises.isRecursion {e : Error} (raises : Raises e) : e.isRecursion = false := by
  cases raises <;> rfl

/-- The store and the values that are about are first-order, and errors are allowed. Contexts
do not matter: nothing else is bound anywhere. -/
def firstOrderInvariant (allowed : Error → Prop) : Invariant where
  state s := s.store.IsFirstOrder
  value _ v := v.IsFirstOrder
  context _ _ := True
  error _ e := allowed e

/-- At a depth, the evaluator keeps the store and its values first-order when it is given
first-order code that nests no deeper than this, and raises allowed errors only. -/
def Evaluator.Sparing (eval : Evaluator) (allowed : Error → Prop) (depth : Int) (n : Nat) : Prop :=
  ∀ {e : Value}, e.CodeWithin n → ∀ (start : State) (c : ContextId),
    Keeps (firstOrderInvariant allowed) start (fun _ v => v.IsFirstOrder) (eval e c depth)

section

variable {allowed : Error → Prop} {start : State} {c : ContextId}

/-! ### Operations -/

theorem firstOrder_create (parents : List ContextId) :
    Keeps (firstOrderInvariant allowed) start (fun _ _ => True) (Eval.create parents) := by
  intro s _ firstOrder
  have grows : s.store.size ≤ (s.store.create parents).2.size := by simp
  exact ⟨.of_store grows, Store.IsFirstOrder.create firstOrder parents, trivial⟩

theorem firstOrder_define (c : ContextId) (name : String) {v : Value} (value : v.IsFirstOrder) :
    Keeps (firstOrderInvariant allowed) start (fun _ _ => True) (Eval.define c name v) := by
  intro s _ firstOrder
  have grows : s.store.size ≤ (s.store.define c name v).size := by simp
  exact ⟨.of_store grows, Store.IsFirstOrder.define firstOrder c name value, trivial⟩

variable (ordinary : ∀ e : Error, e.isRecursion = false → allowed e)

include ordinary

theorem firstOrder_reject {α : Type} {Q : State → α → Prop} {e : Error} (rejection : Rejection e) :
    Keeps (firstOrderInvariant allowed) start Q (Eval.fail e) :=
  keeps_throw fun _ _ => ordinary _ rejection.isRecursion_settle

theorem firstOrder_resolve (c : ContextId) (name : String) :
    Keeps (firstOrderInvariant allowed) start (fun _ v => v.IsFirstOrder)
      (Eval.resolve c name) := by
  intro s _ firstOrder
  rw [resolve_apply]
  cases found : s.store.resolve? c name with
  | none => exact ⟨.refl s, firstOrder, ordinary _ rfl⟩
  | some v => exact ⟨.refl s, firstOrder, Store.IsFirstOrder.resolve? firstOrder found⟩

theorem firstOrder_callBuiltin (host : Host) (c : ContextId) (b : Builtin) {args : List Value}
    (values : ∀ v ∈ args, v.IsFirstOrder) :
    Keeps (firstOrderInvariant allowed) start (fun _ v => v.IsFirstOrder)
      (callPrimitive host (.builtin b) c args) :=
  keeps_callBuiltin (I := firstOrderInvariant allowed) (fun _ _ => Iff.rfl) (fun _ holds => holds)
    (keeps_record fun _ firstOrder => firstOrder)
    (fun _ _ _ failed => ordinary _ (Builtin.raises_of_run failed).isRecursion) values host c

/-! ### Application -/

variable {host : Host} {eval : Evaluator} {depth : Int} {n : Nat}

omit ordinary in
theorem firstOrder_evalEach (deeper : eval.Sparing allowed depth n) (c : ContextId)
    {es : List Value} (codes : ∀ e ∈ es, e.CodeWithin n) :
    Keeps (firstOrderInvariant allowed) start (fun _ vs => ∀ v ∈ vs, v.IsFirstOrder)
      (evalEach eval c depth es) := by
  induction es generalizing start with
  | nil => exact keeps_pure fun _ _ => nofun
  | cons e es ih =>
    apply (deeper (codes e List.mem_cons_self) start c).bind
    intro s v _ holds
    apply (ih fun w member => codes w (List.mem_cons_of_mem e member)).bind
    intro t vs _ all
    exact keeps_pure fun _ _ => List.forall_mem_cons.mpr ⟨holds, all⟩

/-- A call comes down to a call of a builtin, or is refused. -/
theorem firstOrder_apply (deeper : eval.Sparing allowed (depth + 1) n) {callee : Value}
    (called : callee.IsFirstOrder) {args : List Value} (codes : ∀ e ∈ args, e.CodeWithin n)
    (c : ContextId) {form : Option Value}
    (blamed : callee.isCallable = false → Rejection (.notCallable callee form)) :
    Keeps (firstOrderInvariant allowed) start (fun _ v => v.IsFirstOrder)
      (apply host eval callee args c depth form) := by
  cases callee with
  | function => exact absurd called Value.not_isFirstOrder_function
  | expander => exact absurd called Value.not_isFirstOrder_expander
  | primitive p =>
    apply (firstOrder_evalEach deeper c codes).bind
    intro s vs _ all
    -- A primitive that can be called here is a builtin, which evaluates nothing.
    obtain ⟨b, same⟩ := called (.primitive p) List.mem_cons_self
    cases same
    exact firstOrder_callBuiltin ordinary host c b all
  | _ => exact firstOrder_reject ordinary (blamed rfl)

/-! ### Special forms -/

theorem firstOrder_evalDefine (deeper : eval.Sparing allowed (depth + 1) n) (c : ContextId)
    {parts : List Value} (codes : ∀ e ∈ parts, e.CodeWithin n) :
    Keeps (firstOrderInvariant allowed) start (fun _ v => v.IsFirstOrder)
      (evalDefine eval c depth parts) := by
  unfold evalDefine
  split
  · apply (deeper (codes _ (by simp)) start c).bind
    intro s v _ holds
    apply (firstOrder_define c _ holds).bind
    exact fun _ _ _ _ => keeps_pure fun _ _ => Value.isFirstOrder_of_plain rfl
  · exact firstOrder_reject ordinary (.invalidName _)
  · exact firstOrder_reject ordinary (.arity _)

theorem firstOrder_evalBranch (deeper : eval.Sparing allowed (depth + 1) n) (c : ContextId)
    {parts : List Value} (codes : ∀ e ∈ parts, e.CodeWithin n) :
    Keeps (firstOrderInvariant allowed) start (fun _ v => v.IsFirstOrder)
      (evalBranch eval c depth parts) := by
  unfold evalBranch
  split
  · apply (deeper (codes _ (by simp)) start c).bind
    intro s v _ _
    split
    · exact deeper (codes _ (by simp)) s c
    · exact keeps_pure fun _ _ => Value.isFirstOrder_of_plain rfl
  · apply (deeper (codes _ (by simp)) start c).bind
    intro s v _ _
    split
    · exact deeper (codes _ (by simp)) s c
    · exact deeper (codes _ (by simp)) s c
  · exact firstOrder_reject ordinary (.arity _)

theorem firstOrder_bindPairs (deeper : eval.Sparing allowed depth n) (c : ContextId)
    {bindings : List Value} (codes : ∀ e ∈ bindings, e.CodeWithin n) :
    Keeps (firstOrderInvariant allowed) start (fun _ _ => True)
      (bindPairs eval c depth bindings) := by
  fun_induction bindPairs eval c depth bindings generalizing start with
  | case1 name e rest ih =>
    apply (deeper (codes e (by simp)) start c).bind
    intro s v _ holds
    apply (firstOrder_define c name holds).bind
    intro t _ _ _
    exact ih fun w member => codes w (by simp [member])
  | case2 => exact firstOrder_reject ordinary (.invalidName _)
  | case3 => exact keeps_pure fun _ _ => trivial

omit ordinary in
theorem firstOrder_evalLast (deeper : eval.Sparing allowed depth n) (c : ContextId)
    {last : Value} (holds : last.IsFirstOrder) {body : List Value}
    (codes : ∀ e ∈ body, e.CodeWithin n) :
    Keeps (firstOrderInvariant allowed) start (fun _ v => v.IsFirstOrder)
      (evalLast eval c depth last body) := by
  induction body generalizing start last with
  | nil => exact keeps_pure fun _ _ => holds
  | cons e es ih =>
    apply (deeper (codes e List.mem_cons_self) start c).bind
    intro s v _ holds
    exact ih holds fun w member => codes w (List.mem_cons_of_mem e member)

theorem firstOrder_evalBind (deeper : eval.Sparing allowed (depth + 1) n) (c : ContextId)
    {parts : List Value} (codes : ∀ e ∈ parts, e.CodeWithin n) :
    Keeps (firstOrderInvariant allowed) start (fun _ v => v.IsFirstOrder)
      (evalBind eval c depth parts) := by
  unfold evalBind
  split
  · rename_i bindings body
    split
    · apply (firstOrder_create [c]).bind
      intro s inner _ _
      -- The bindings nest one level less than their list, which is an item already. So there is
      -- a level to spare.
      have pairs : ∀ e ∈ bindings, e.CodeWithin n := fun e member =>
        ((codes _ List.mem_cons_self).mono (Nat.le_succ n)).item member
      apply (firstOrder_bindPairs ordinary deeper inner pairs).bind
      intro t _ _ _
      exact firstOrder_evalLast deeper inner (Value.isFirstOrder_of_plain rfl)
        fun e member => codes e (List.mem_cons_of_mem _ member)
    · exact firstOrder_reject ordinary (.arity _)
  · exact firstOrder_reject ordinary (.wrongKind _)
  · exact firstOrder_reject ordinary (.arity _)

theorem firstOrder_evalQuote {parts : List Value} (codes : ∀ e ∈ parts, e.CodeWithin n) :
    Keeps (firstOrderInvariant allowed) start (fun _ v => v.IsFirstOrder) (evalQuote parts) := by
  unfold evalQuote
  split
  · exact keeps_pure fun _ _ => (codes _ List.mem_cons_self).firstOrder
  · exact firstOrder_reject ordinary (.arity _)

theorem firstOrder_evalForm (deeper : eval.Sparing allowed (depth + 1) n) (c : ContextId)
    {parts : List Value} (codes : ∀ e ∈ parts, e.CodeWithin n) {form : SpecialForm}
    (plain : form.isHigherOrder = false) :
    Keeps (firstOrderInvariant allowed) start (fun _ v => v.IsFirstOrder)
      (evalForm eval c depth parts form) := by
  cases form with
  | define => exact firstOrder_evalDefine ordinary deeper c codes
  | branch => exact firstOrder_evalBranch ordinary deeper c codes
  | bind => exact firstOrder_evalBind ordinary deeper c codes
  | quote => exact firstOrder_evalQuote ordinary codes
  | lambda | defineMacro | evaluate => cases plain

/-! ### Evaluation -/

/-- One step stays within its measure if what lies deeper stays within one level less. -/
theorem sparing_evalStep {limit : Option Int} (below : ∀ l ∈ limit, depth ≤ l)
    (deeper : ∀ m, n = m + 1 → eval.Sparing allowed (depth + 1) m) :
    (evalStep host limit eval).Sparing allowed depth n := by
  intro e code start c
  simp only [evalStep, checkDepth_of_le below, pure_bind]
  cases e with
  | symbol name => exact firstOrder_resolve ordinary c name
  | list items =>
    cases items with
    | nil => exact keeps_pure fun _ _ => Value.isFirstOrder_of_plain rfl
    | cons head parts =>
      obtain ⟨m, rfl⟩ := code.exists_pred
      have codes : ∀ e ∈ parts, e.CodeWithin m := fun e member =>
        code.item (List.mem_cons_of_mem head member)
      cases special : head.specialForm? with
      | some form =>
        simp only [special]
        exact firstOrder_evalForm ordinary (deeper m rfl) c codes
          (code.isHigherOrder_eq_false special)
      | none =>
        simp only [special]
        apply (deeper m rfl (code.item List.mem_cons_self) start c).bind
        intro s callee _ called
        exact firstOrder_apply ordinary (deeper m rfl) called codes c fun refused =>
          .notCallable parts refused special
  | _ => exact keeps_pure fun _ _ => code.firstOrder

/-- Evaluation of first-order code stays first-order, and raises no error of recursion where
depth limit and room leave space for its lists. -/
theorem sparing_evalWithin (host : Host) {limit : Option Int} {room : Nat}
    (below : ∀ l ∈ limit, depth + n ≤ l) (overflow : room ≤ n → allowed .stackOverflow) :
    (evalWithin host limit room).Sparing allowed depth n := by
  induction room generalizing depth n with
  | zero =>
    intro e _ start c
    exact keeps_throw fun _ _ => overflow (Nat.zero_le n)
  | succ room ih =>
    refine sparing_evalStep ordinary (fun l member => ?_) ?_
    · have := below l member
      omega
    · rintro m rfl
      refine ih (fun l member => ?_) fun full => overflow (Nat.succ_le_succ full)
      have := below l member
      push_cast at this
      omega

end

/-! ### The limit is never met -/

/-- The store that is left behind and the value are first-order, or the error is allowed. -/
def EndsFirstOrder (allowed : Error → Prop) : EStateM.Result Error State Value → Prop
  | .ok v final => v.IsFirstOrder ∧ final.store.IsFirstOrder
  | .error e final => allowed e ∧ final.store.IsFirstOrder

theorem EndsFirstOrder.of_keeps {allowed : Error → Prop} {start : State} {m : Eval Value}
    (kept : Keeps (firstOrderInvariant allowed) start (fun _ v => v.IsFirstOrder) m)
    (firstOrder : start.store.IsFirstOrder) : EndsFirstOrder allowed (m start) := by
  have outcome := kept start (.refl start) firstOrder
  cases result : m start with
  | ok v final =>
    rw [result] at outcome
    exact ⟨outcome.2.2, outcome.2.1⟩
  | error e final =>
    rw [result] at outcome
    exact ⟨outcome.2.2, outcome.2.1⟩

/-- The error is none of recursion, unless a room overflowed that is no larger than a nesting. -/
def OnlyOverflows (overflow : Error) (room n : Nat) (e : Error) : Prop :=
  e.isRecursion = false ∨ e = overflow ∧ room ≤ n

theorem EndsFirstOrder.reportOverflow {m : Eval Value} {s : State} {room n : Nat}
    (ends : EndsFirstOrder (OnlyOverflows .stackOverflow room n) (m s)) :
    EndsFirstOrder (OnlyOverflows .exhausted room n) (reportOverflow m s) := by
  rcases reportOverflow_cases m s with ⟨same, other⟩ | ⟨t, overflow, reported⟩
  · cases result : m s with
    | ok v t =>
      rw [result] at ends same
      rw [same]
      exact ends
    | error e t =>
      rw [result] at ends same
      rw [same]
      refine ⟨ends.1.imp_right ?_, ends.2⟩
      rintro ⟨rfl, -⟩
      exact absurd result (other t)
  · rw [overflow] at ends
    rw [reported]
    have full : room ≤ n := (ends.1.resolve_left (by decide)).2
    exact ⟨.inr ⟨rfl, full⟩, ends.2⟩

/-- With room enough, evaluation from depth zero raises no error of recursion. -/
theorem endsFirstOrder_evalWithin (host : Host) {limit : Int} {e : Value}
    (code : e.IsFirstOrderCode) (nested : e.listDepth ≤ limit) (c : ContextId) {start : State}
    (firstOrder : start.store.IsFirstOrder) (room : Nat) :
    EndsFirstOrder (OnlyOverflows .stackOverflow room e.listDepth)
      (evalWithin host (some limit) room e c 0 start) := by
  have below : ∀ l ∈ some limit, 0 + (e.listDepth : Int) ≤ l := by simpa using nested
  have sparing : (evalWithin host (some limit) room).Sparing
      (OnlyOverflows .stackOverflow room e.listDepth) 0 e.listDepth :=
    sparing_evalWithin (fun _ => .inl) host below fun full => .inr ⟨rfl, full⟩
  exact .of_keeps (sparing ⟨code, Nat.le_refl _⟩ start c) firstOrder

theorem DepthLimit.ofSetting_zero : DepthLimit.ofSetting (some "0") = .ok none := by
  cbv

/-- The depth limit never fires on first-order code that nests within it. Begun with a store
that binds data and builtins only, evaluation from depth zero leaves such a store behind, and in
whatever room it raises no error of recursion, unless the room is no larger than the nesting and
runs out. Under a setting that asks for the limit the same holds of evaluation as a whole, and
it does just what it does when the limit is switched off. -/
theorem nested_code_never_meets_limit (host : Host) {limit : Int} {e : Value}
    (code : e.IsFirstOrderCode) (nested : e.listDepth ≤ limit) (c : ContextId) {start : State}
    (firstOrder : start.store.IsFirstOrder) :
    (∀ room, EndsFirstOrder (OnlyOverflows .stackOverflow room e.listDepth)
      (evalWithin host (some limit) room e c 0 start)) ∧
    ∀ setting, DepthLimit.ofSetting setting = .ok (some limit) →
      EndsFirstOrder (OnlyOverflows .exhausted stackRoom e.listDepth)
        (evaluate ⟨host, setting⟩ e c start) ∧
      evaluate ⟨host, setting⟩ e c start = evaluate ⟨host, some "0"⟩ e c start := by
  have within := endsFirstOrder_evalWithin host code nested c firstOrder
  refine ⟨within, fun setting set => ?_⟩
  rw [evaluate_of_ofSetting set, evaluate_of_ofSetting DepthLimit.ofSetting_zero]
  refine ⟨(within stackRoom).reportOverflow, ?_⟩
  have near : 0 ≤ limit + 1 := by omega
  have raised : ∀ l ∈ (none : Option Int), limit ≤ l := by simp
  rcases evalWithin_agree_of_higher_limit host (DepthLimit.reportable_of_ofSetting set) raised
    stackRoom near e c start with same | ⟨_, final, rfl, failed⟩
  · simp only [reportOverflow, same]
  · have outcome := within stackRoom
    rw [failed] at outcome
    rcases outcome.1 with ordinary | ⟨overflow, -⟩
    · cases ordinary
    · cases overflow

/-- A root that binds a builtin and a list with another one in it. -/
def builtinRoot : State :=
  ⟨⟨#[⟨[("+", .primitive (.builtin .add)),
      ("rest", .list [.int 4, .primitive (.builtin .mul)])], []⟩]⟩, 0, #[]⟩

/-- `(let (a (+ 1 2)) (def b (+ a a)) (+ b a))`, which nests three levels deep. -/
def nestedSum : Value :=
  .list [.symbol "let", .list [.symbol "a", .list [.symbol "+", .int 1, .int 2]],
    .list [.symbol "def", .symbol "b", .list [.symbol "+", .symbol "a", .symbol "a"]],
    .list [.symbol "+", .symbol "b", .symbol "a"]]

theorem builtinRoot_isFirstOrder : builtinRoot.store.IsFirstOrder := by
  intro k entry member
  match k with
  | 0 =>
    have bound : entry = ("+", .primitive (.builtin .add)) ∨
        entry = ("rest", .list [.int 4, .primitive (.builtin .mul)]) := by
      simpa [builtinRoot, Store.bindingsOf, Store.get?] using member
    rcases bound with rfl | rfl
    · exact fun w inside => ⟨.add, List.mem_singleton.mp inside⟩
    · exact fun w inside => ⟨.mul, List.mem_singleton.mp inside⟩
  | k + 1 => cases member

theorem nestedSum_isFirstOrderCode : nestedSum.IsFirstOrderCode where
  firstOrder := Value.isFirstOrder_of_plain rfl
  unmentioned form higher occurs := by
    have spelled :=
      (Value.mem_spelling_iff (Value.isAtom_symbol form.name) nestedSum).mpr occurs
    cases form <;> simp_all [nestedSum, Value.spelling, Value.spellingOfItems, SpecialForm.name,
      SpecialForm.isHigherOrder]

set_option maxRecDepth 4000 in
/-- Under the limit three the nested sum is computed. -/
theorem nestedSum_under_limit_three :
    builtinRoot.store.IsFirstOrder ∧ nestedSum.IsFirstOrderCode ∧ nestedSum.listDepth = 3 ∧
    DepthLimit.ofSetting (some "3") = .ok (some 3) ∧
    ∃ final, evaluate ⟨countingHost, some "3"⟩ nestedSum 0 builtinRoot = .ok (.int 9) final ∧
      evaluate ⟨countingHost, some "0"⟩ nestedSum 0 builtinRoot = .ok (.int 9) final ∧
      final.store.IsFirstOrder := by
  have set : DepthLimit.ofSetting (some "3") = .ok (some 3) := by cbv
  have depth : nestedSum.listDepth = 3 := by decide
  have nested : (nestedSum.listDepth : Int) ≤ 3 := by simp [depth]
  obtain ⟨ends, same⟩ := (nested_code_never_meets_limit countingHost nestedSum_isFirstOrderCode
    nested 0 builtinRoot_isFirstOrder).2 (some "3") set
  have sum : ∃ final, evaluate ⟨countingHost, some "3"⟩ nestedSum 0 builtinRoot =
      .ok (.int 9) final := ⟨_, by cbv⟩
  obtain ⟨final, computed⟩ := sum
  rw [computed] at ends
  exact ⟨builtinRoot_isFirstOrder, nestedSum_isFirstOrderCode, depth, set, final, computed,
    same ▸ computed, ends.2⟩

/-- One level less is too little for it. -/
example : (match evaluate ⟨countingHost, some "2"⟩ nestedSum 0 builtinRoot with
    | .error (.tooDeep 3 2) _ => true
    | _ => false) = true := by
  decide +kernel

end ContextLisp
