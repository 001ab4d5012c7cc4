/-
# Functions that are printed

A function is printed as the form that makes it, so its text can be read again wherever the
names in it can. The form that is read makes a function with the same parameters and the same
body; evaluated in the context in which the first one was made, it gives that function again, but
for a tag of its own.

Whatever a text holds can be read again, so this applies to all functions made by forms that
were read from a text, also by those that stand inside others.
-/

import ContextLisp.Proofs.Evaluation.Agreement
import ContextLisp.Proofs.Evaluation.MacroCall
import ContextLisp.Proofs.Quotation
import ContextLisp.Proofs.Session.TextCalls

namespace ContextLisp

/-! ### The text of a function -/

namespace Value

/-- A function is printed as the form that makes it. -/
theorem source?_lambdaForm (tag : Nat) (params : List String) (body : Value) (scope : ContextId) :
    (lambdaForm params body).source? = (function tag params body scope).source? := by
  rw [lambdaForm, source?_signatureForm, source?]
  rfl

theorem nestingOfItems_symbols (names : List String) : nestingOfItems (names.map symbol) = 0 := by
  apply Nat.le_zero.mp
  apply nestingOfItems_le_iff.mpr
  intro v member
  obtain ⟨name, _, rfl⟩ := List.mem_map.mp member
  exact Nat.le_refl 0

theorem nesting_lambdaForm (params : List String) (body : Value) :
    (lambdaForm params body).nesting = max 1 body.nesting + 1 := by
  simp only [lambdaForm, paramList, nesting, nestingOfItems, nestingOfItems_symbols]
  omega

end Value

/-- The parameters and the body of a function can be printed and read: the body is a datum, all
names can be read, and there is room for one more list around the body. -/
structure ReadableLambda (params : List String) (body : Value) : Prop where
  params : ∀ name ∈ params, IsReadableSymbol name.toList
  datum : body.IsDatum
  names : body.HasReadableNames
  nests : body.nesting < nestingLimit

namespace ReadableLambda

variable {params : List String} {body : Value}

/-- The form with these parameters and this body can be read. -/
theorem isReadable (readable : ReadableLambda params body) :
    (Value.lambdaForm params body).IsReadable := by
  have head : (Value.symbol SpecialForm.lambda.name).IsReadable :=
    Value.isReadable_of_isAtom (Value.isAtom_symbol _) ⟨⟨.symbol, "fn", 0⟩, rfl, by decide, rfl⟩
  have names : (Value.paramList params).IsReadable := by
    apply Value.isReadable_list
    intro v member
    obtain ⟨name, among, rfl⟩ := List.mem_map.mp member
    exact (Value.isReadable_symbol_iff name).mpr (readable.params name among)
  have inner : body.IsReadable := readable.datum.isReadable_iff.mpr readable.names
  apply Value.isReadable_list
  simp only [List.forall_mem_cons, List.not_mem_nil, false_implies, implies_true, and_true]
  exact ⟨head, names, inner⟩

theorem nesting_le (readable : ReadableLambda params body) :
    (Value.lambdaForm params body).nesting ≤ nestingLimit := by
  have room : body.nesting < nestingLimit := readable.nests
  have one : 1 < nestingLimit := by decide
  rw [Value.nesting_lambdaForm]
  omega

end ReadableLambda

/-! ### Evaluating the text -/

/-- A form that makes a function is evaluated from depth zero under every limit that can be set. -/
theorem evaluate_lambdaForm {host : Host} {setting : Option String} {limit : Option Int}
    (set : DepthLimit.ofSetting setting = .ok limit) (params : List String) (body : Value)
    (c : ContextId) (s : State) :
    evaluate ⟨host, setting⟩ (Value.lambdaForm params body) c s =
      .ok (.function s.nextTag params body c) { s with nextTag := s.nextTag + 1 } := by
  have passed : checkDepth limit 0 = pure () := checkDepth_of_le fun most shown =>
    (DepthLimit.reportable_of_ofSetting (shown ▸ set)).nonnegative
  have step : evalWithin host limit stackRoom (Value.lambdaForm params body) c 0 =
      checkDepth limit 0 >>= fun _ => evalLambda c [Value.paramList params, body] := rfl
  rw [evaluate_of_ofSetting set, reportOverflow, step, passed, pure_bind, evalLambda_paramList]

/-- The text of a function with these parameters, this body and this scope, evaluated in the scope,
gives such a function in every state. Nothing changes but that a tag was given. -/
def EvaluatesToItself (around : Surroundings) (params : List String) (body : Value)
    (scope : ContextId) : Prop :=
  ∃ text, (∀ tag, (Value.function tag params body scope).source? = some text) ∧
    ∀ s, evalSource around scope text s =
      .ok (.function s.nextTag params body scope) { s with nextTag := s.nextTag + 1 }

theorem ReadableLambda.evaluatesToItself {params : List String} {body : Value}
    (readable : ReadableLambda params body) {setting : Option String} {limit : Option Int}
    (set : DepthLimit.ofSetting setting = .ok limit) (host : Host) (scope : ContextId) :
    EvaluatesToItself ⟨host, setting⟩ params body scope := by
  obtain ⟨text, prints⟩ := Value.prints_of_isReadable readable.isReadable
  have read : parse text = .ok (.lambdaForm params body) := parse_of_parseAll
    (Value.parseAll_of_isReadable readable.isReadable prints.source readable.nesting_le)
  refine ⟨text, fun tag => ?_, fun s => ?_⟩
  · rw [← Value.source?_lambdaForm]
    exact prints.source
  · rw [evalSource, read, Eval.ofExcept, pure_bind]
    exact evaluate_lambdaForm set params body scope s

/-! ### Functions made by forms of a text -/

namespace Value

/-- A form that was read and that makes a function can be printed and read. -/
theorem FromText.readableLambda {params : List String} {body : Value}
    (fromText : (lambdaForm params body).FromText) : ReadableLambda params body := by
  have names : (paramList params).FromText := fromText.item (by simp)
  have inner : body.FromText := fromText.item (by simp)
  refine ⟨fun name among => ?_, inner.isDatum, inner.isDatum.isReadable_iff.mp inner.isReadable, ?_⟩
  · have symbol : (symbol name).FromText := names.item (List.mem_map_of_mem among)
    exact (isReadable_symbol_iff name).mp symbol.isReadable
  · have most := fromText.nests
    rw [nesting_lambdaForm] at most
    omega

end Value

theorem eq_symbols_of_go {form : String} {items : List Value} {names : List String}
    (taken : parameterNames.go form items = .ok names) : items = names.map .symbol := by
  fun_induction parameterNames.go form items generalizing names with
  | case1 =>
    cases taken
    rfl
  | case2 name rest ih =>
    cases outcome : parameterNames.go form rest with
    | error e =>
      rw [outcome] at taken
      cases taken
    | ok others =>
      rw [outcome] at taken
      cases taken
      rw [List.map_cons, ← ih outcome]
  | case3 => cases taken

theorem paramList_of_parameterNames {form : String} {v : Value} {names : List String}
    (taken : parameterNames form v = .ok names) : v = Value.paramList names := by
  cases v with
  | list items => rw [Value.paramList, ← eq_symbols_of_go taken]
  | _ => cases taken

/-- What makes a function has the shape of its form. -/
theorem evalLambda_ok {c : ContextId} {parts : List Value} {v : Value} {s t : State}
    (made : evalLambda c parts s = .ok v t) :
    ∃ params body, parts = [Value.paramList params, body] ∧
      v = .function s.nextTag params body c := by
  unfold evalLambda at made
  split at made
  · rename_i given body
    cases taken : parameterNames SpecialForm.lambda.name given with
    | error e =>
      rw [taken] at made
      cases made
    | ok params =>
      rw [taken] at made
      cases made
      exact ⟨params, body, by rw [paramList_of_parameterNames taken], rfl⟩
  · cases made

theorem evalWithin_lambda_ok {host : Host} {limit : Option Int} {room : Nat} {parts : List Value}
    {c : ContextId} {depth : Int} {v : Value} {s t : State}
    (made : evalWithin host limit room (.list (.symbol "fn" :: parts)) c depth s = .ok v t) :
    ∃ params body, .list (.symbol "fn" :: parts) = Value.lambdaForm params body ∧
      v = .function s.nextTag params body c := by
  cases room with
  | zero => cases made
  | succ room =>
    have step : evalWithin host limit (room + 1) (.list (.symbol "fn" :: parts)) c depth =
        checkDepth limit depth >>= fun _ => evalLambda c parts := rfl
    rcases checkDepth_eq limit depth id with passed | ⟨e, failed, _⟩
    · rw [step, passed, pure_bind] at made
      obtain ⟨params, body, rfl, rfl⟩ := evalLambda_ok made
      exact ⟨params, body, rfl, rfl⟩
    · rw [step, failed] at made
      cases made

/-- Under every depth setting that is valid, a function whose parameters and body can be printed
and read evaluates to itself: its text, evaluated in its scope, gives a function with the same
parameters, the same body and the same scope, and no binding changes. So does every function that
is made by a form of a text, wherever the form stands in the text and whenever and wherever it is
evaluated. -/
theorem printed_functions_evaluate_to_themselves {setting : Option String} {limit : Option Int}
    (set : DepthLimit.ofSetting setting = .ok limit) (host : Host) :
    (∀ params body scope, ReadableLambda params body →
      EvaluatesToItself ⟨host, setting⟩ params body scope) ∧
    ∀ (call : TextCall) forms, call.forms = .ok forms → ∀ form ∈ forms, ∀ parts,
      Value.Occurs (.list (.symbol "fn" :: parts)) form →
      ∀ host' limit' room c depth s v t,
        evalWithin host' limit' room (.list (.symbol "fn" :: parts)) c depth s = .ok v t →
        ∃ tag params body, v = .function tag params body c ∧
          EvaluatesToItself ⟨host, setting⟩ params body c := by
  constructor
  · intro params body scope readable
    exact readable.evaluatesToItself set host scope
  · intro call forms read form member parts occurs host' limit' room c depth s v t made
    have fromText := (TextCall.fromText_of_forms read form member).of_occurs occurs
    obtain ⟨params, body, shape, rfl⟩ := evalWithin_lambda_ok made
    rw [shape] at fromText
    exact ⟨s.nextTag, params, body, rfl, fromText.readableLambda.evaluatesToItself set host c⟩

/-- A function that takes two arguments of one name, and one that takes none and was made by a form
inside another: `(fn (x x) (:nil x))`, and `(fn () (x 7))`, written with zeros. -/
theorem repeated_and_missing_parameters_print :
    EvaluatesToItself ⟨bindingHost, some " 7 "⟩ ["x", "x"]
        (.list [.keyword "nil", .symbol "x"]) 3 ∧
      EvaluatesToItself ⟨bindingHost, some " 7 "⟩ [] (.list [.symbol "x", .int 7]) 0 := by
  have set : DepthLimit.ofSetting (some " 7 ") = .ok (some 7) := by cbv
  have taken : parse "(fn (x x) (:nil x))" =
      .ok (.lambdaForm ["x", "x"] (.list [.keyword "nil", .symbol "x"])) := by cbv
  have readable := (Value.fromText_of_parse taken).readableLambda
  have written : (TextCall.mk "(def f (fn () (x 007)))" false none).forms =
      .ok [.list [.symbol "def", .symbol "f",
        .list [.symbol "fn", .list [], .list [.symbol "x", .int 7]]]] := by cbv
  have made : evalWithin bindingHost (some 150) 1
      (.list [.symbol "fn", .list [], .list [.symbol "x", .int 7]]) 0 1 State.initial =
      .ok (.function 0 [] (.list [.symbol "x", .int 7]) 0) ⟨Store.empty, 1, #[]⟩ := rfl
  have both := printed_functions_evaluate_to_themselves set bindingHost
  obtain ⟨tag, params, body, same, inner⟩ := both.2 _ _ written _ List.mem_cons_self _
    (.item (by simp) .self) _ _ _ _ _ _ _ _ made
  cases same
  exact ⟨both.1 _ _ 3 readable, inner⟩

end ContextLisp
