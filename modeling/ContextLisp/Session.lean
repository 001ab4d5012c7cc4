/-
# Sessions

A host makes a root context, with the builtins or without, seeds it with
bindings, and evaluates source text in it: one form, or all forms in order. Text
is read completely before anything in it is evaluated, and the depth limit is
looked up once for every form. What was defined stays defined, also when a later
form fails.
-/

import ContextLisp.DepthLimit
import ContextLisp.Evaluation.Evaluator
import ContextLisp.Form.Reader
import ContextLisp.Value.Order
import ContextLisp.Value.Quotation

namespace ContextLisp

/-- A host's bindings before they enter a context: names, or what is given in
their place, and values. -/
abbrev Seed := List (Value × Value)

namespace Seed

/-- Enter a pair: a key that is there already keeps its place and gets the new
value. -/
def insert (key value : Value) : Seed → Seed
  | [] => [(key, value)]
  | (k, v) :: rest => if k.same key then (k, value) :: rest else (k, v) :: insert key value rest

/-- Collect pairs from the left. A list cannot be a key. -/
def collect (pairs : List (Value × Value)) : Except Error Seed :=
  pairs.foldlM (fun seed (key, value) =>
    match key with
    | .list _ => .error .listAsKey
    | _ => .ok (seed.insert key value)) []

/-- The builtins under their symbols. -/
def builtins : Seed :=
  Builtin.all.map fun b => (.symbol b.symbol, .primitive (.builtin b))

end Seed

/-- What a host brings to an evaluation: its primitives, and the depth setting as
it stands. -/
structure Surroundings where
  host : Host
  depthSetting : Option String

/-- How many evaluation steps the stack has room for. -/
def stackRoom : Nat := 320

/-- An overflow of the stack, reported as an error of the language. -/
def reportOverflow {α : Type} (m : Eval α) : Eval α := fun state =>
  match m state with
  | .error .stackOverflow state => .error .exhausted state
  | result => result

/-- Evaluate an expression from depth zero, under the depth limit as it is set. -/
def evaluate (around : Surroundings) (e : Value) (context : ContextId) : Eval Value := do
  let limit ← Eval.ofExcept (DepthLimit.ofSetting around.depthSetting)
  reportOverflow (evalWithin around.host limit stackRoom e context 0)

/-- Evaluate expressions in order. -/
def evaluateEach (around : Surroundings) (context : ContextId) : List Value → Eval (List Value)
  | [] => pure []
  | e :: es => do
    let v ← evaluate around e context
    let vs ← evaluateEach around context es
    return v :: vs

/-- Evaluate the first form of a text. -/
def evalSource (around : Surroundings) (context : ContextId) (source : String) : Eval Value := do
  let form ← Eval.ofExcept (parse source)
  evaluate around form context

/-- Evaluate every form of a text. -/
def evalAllSource (around : Surroundings) (context : ContextId) (source : String) :
    Eval (List Value) := do
  let forms ← Eval.ofExcept (parseAll source)
  evaluateEach around context forms

/-- The value of the last form of a text, nil if it has none. -/
def evalLastSource (around : Surroundings) (context : ContextId) (source : String) :
    Eval Value := do
  let values ← evalAllSource around context source
  return values.getLast?.getD .nil

/-- Bind a seed in a context, or in a new one. -/
def buildContext (root : Option ContextId) (seed : Seed) : Eval ContextId := do
  let id ← match root with
    | some id => pure id
    | none => Eval.create []
  Eval.defineEach id seed
  return id

/-- A root context with the builtins; a seed may replace them. -/
def standardContext (seed : Seed) : Eval ContextId := do
  let id ← buildContext none Seed.builtins
  buildContext (some id) seed

/-- The bindings that a session added to the standard ones, or put in their
place. -/
def addedBindings (bindings : Bindings) : Bindings :=
  bindings.filter fun (name, value) =>
    match value with
    | .primitive (.builtin b) => b.symbol != name
    | _ => true

/-- A value as code, or an error if a primitive stands in it. -/
def Value.quotation (v : Value) : Except Error Value :=
  v.toCode.mapError fun p => .wrongKind (.noCode p)

end ContextLisp
