/-
# The state of evaluation

Evaluation works on a store of contexts, hands out tags for the functions and
expanders it makes, and keeps a record of every call of a primitive. It ends in
a value or an error; either way the state it leaves behind stands.
-/

import ContextLisp.Error
import ContextLisp.Store

namespace ContextLisp

/-- A primitive that was called, and with what. -/
structure Call where
  primitive : Primitive
  args : List Value

/-- What evaluation reads and changes. -/
structure State where
  store : Store
  /-- The tag of the next function or expander. -/
  nextTag : Nat
  /-- Every call of a primitive so far, in order. -/
  calls : Array Call

/-- The state before anything was done. -/
def State.initial : State := ⟨Store.empty, 0, #[]⟩

/-- What a host's primitive works on: the contexts, and tags for functions and
expanders that it makes itself. -/
structure HostState extends Store where
  /-- The tag of the next function or expander. -/
  nextTag : Nat

instance : Coe HostState Store := ⟨HostState.toStore⟩

/-- A store that is left behind by itself: no tag was taken. -/
instance : Coe Store HostState := ⟨fun store => ⟨store, 0⟩⟩

/-- What a host's primitive gets to work on. -/
def State.lent (state : State) : HostState := ⟨state.store, state.nextTag⟩

/-- The state after a host's primitive left this behind. Tags that were given stay
given. -/
def State.resume (state : State) (left : HostState) : State :=
  { state with store := left, nextTag := max state.nextTag left.nextTag }

theorem State.resume_of_le {state : State} {left : HostState}
    (more : state.nextTag ≤ left.nextTag) :
    state.resume left = { state with store := left, nextTag := left.nextTag } := by
  rw [resume, Nat.max_eq_right more]

/-- A computation on the state that may fail; its effects stand when it does. -/
abbrev Eval := EStateM Error State

namespace Eval

/-- Fail with an error. -/
def fail {α : Type} (e : Error) : Eval α :=
  throw e.settle

/-- Fail if a result is an error. -/
def ofExcept {α : Type} : Except Error α → Eval α
  | .ok a => pure a
  | .error e => throw e

/-- Make a context. -/
def create (parents : List ContextId) : Eval ContextId := fun state =>
  let (id, store) := state.store.create parents
  .ok id { state with store }

/-- Bind a name in a context. -/
def define (id : ContextId) (name : String) (value : Value) : Eval Unit :=
  modify fun state => { state with store := state.store.define id name value }

/-- The value of a name, searched from a context. -/
def resolve (id : ContextId) (name : String) : Eval Value := do
  match (← get).store.resolve? id name with
  | some value => pure value
  | none => throw (.unbound name id)

/-- A tag that was never given before. -/
def freshTag : Eval Nat := fun state =>
  .ok state.nextTag { state with nextTag := state.nextTag + 1 }

/-- Add a call to the record. -/
def record (call : Call) : Eval Unit :=
  modify fun state => { state with calls := state.calls.push call }

/-- Let a host's primitive do its work. -/
def lend {α : Type} (m : EStateM Error HostState α) : Eval α := fun state =>
  match m state.lent with
  | .ok a left => .ok a (state.resume left)
  | .error e left => .error e (state.resume left)

/-! ### Names given by a host -/

/-- The name that a value stands for. -/
def nameOf (given : Value) : Eval String :=
  match given.bindingName? with
  | some name => pure name
  | none => fail (.invalidName (.binding given))

/-- Bind whatever name a value stands for. -/
def defineNamed (id : ContextId) (name value : Value) : Eval Unit := do
  define id (← nameOf name) value

/-- Bind pairs one by one; those before one that is refused stand. -/
def defineEach (id : ContextId) : List (Value × Value) → Eval Unit
  | [] => pure ()
  | (name, value) :: rest => do
    defineNamed id name value
    defineEach id rest

/-- Bind names to values by position. Nothing is bound if the numbers differ. -/
def defineAll (id : ContextId) (names values : List Value) : Eval Unit :=
  if names.length = values.length then defineEach id (names.zip values)
  else fail (.arity (.arguments names values.length))

/-- The value of whatever name a value stands for. -/
def resolveNamed (id : ContextId) (name : Value) : Eval Value := do
  resolve id (← nameOf name)

/-- The context that binds whatever name a value stands for. -/
def findNamed (id : ContextId) (name : Value) : Eval (Option ContextId) := do
  let name ← nameOf name
  return (← get).store.find? id name

/-- Whether any context binds whatever name a value stands for. -/
def containsNamed (id : ContextId) (name : Value) : Eval Bool := do
  return (← findNamed id name).isSome

end Eval

end ContextLisp
