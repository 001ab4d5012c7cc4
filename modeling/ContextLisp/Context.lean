/-
# Contexts

A context binds names to values, in the order in which they were first bound,
and names the contexts in which a search goes on. Binding a name again replaces
its value and keeps its place. The parents never change.
-/

import ContextLisp.Value.Display

namespace ContextLisp

/-- Names and their values, in the order of first binding. -/
abbrev Bindings := List (String × Value)

namespace Bindings

/-- Bind a name: in its old place if it has one, else at the end. -/
def assign (name : String) (value : Value) : Bindings → Bindings
  | [] => [(name, value)]
  | (key, old) :: rest =>
    if key = name then (key, value) :: rest else (key, old) :: assign name value rest

/-- The value of a name. -/
def get? (name : String) : Bindings → Option Value
  | [] => none
  | (key, value) :: rest => if key = name then some value else get? name rest

/-- The bound names, in order. -/
def names (bindings : Bindings) : List String :=
  bindings.map Prod.fst

/-- The value read after a binding is the one just bound. -/
@[simp] theorem get?_assign_self (name : String) (value : Value) (bindings : Bindings) :
    get? name (assign name value bindings) = some value := by
  induction bindings with
  | nil => simp [assign, get?]
  | cons head rest ih =>
    obtain ⟨key, old⟩ := head
    by_cases same : key = name <;> simp [assign, get?, same, ih]

/-- Binding a name leaves every other name's value alone. -/
theorem get?_assign_of_ne {name other : String} (different : name ≠ other) (value : Value)
    (bindings : Bindings) : get? other (assign name value bindings) = get? other bindings := by
  induction bindings with
  | nil => simp [assign, get?, different]
  | cons head rest ih =>
    obtain ⟨key, old⟩ := head
    by_cases same : key = name
    · subst same
      simp [assign, get?, different]
    · simp [assign, get?, same, ih]

/-- A name that is bound has a place already; a new one comes last. -/
theorem names_assign (name : String) (value : Value) (bindings : Bindings) :
    (assign name value bindings).names =
      if name ∈ bindings.names then bindings.names else bindings.names ++ [name] := by
  induction bindings with
  | nil => simp [assign, names]
  | cons head rest ih =>
    obtain ⟨key, old⟩ := head
    by_cases same : key = name
    · simp [assign, names, same]
    · have apart : name ≠ key := fun h => same h.symm
      by_cases member : name ∈ names rest <;>
        simp_all [assign, names]

end Bindings

/-- Bindings and the contexts to search after them. -/
structure Context where
  bindings : Bindings
  parents : List ContextId
  deriving Inhabited

namespace Context

/-- A context without bindings. -/
def empty (parents : List ContextId) : Context :=
  ⟨[], parents⟩

/-- Whether a context itself binds a name. -/
def binds (context : Context) (name : String) : Bool :=
  (context.bindings.get? name).isSome

/-- The bindings of a context as diagnostics list them. -/
def listBindings? : Bindings → Option (List String)
  | [] => some []
  | (name, value) :: rest => do
    let shown ← value.inspect?
    let others ← listBindings? rest
    return (name ++ ": " ++ shown) :: others

/-- A context in full: its bindings, and how many parents it has. -/
def display? (context : Context) : Option String := do
  let entries ← listBindings? context.bindings
  let body := "\x7b" ++ ", ".intercalate entries ++ "\x7d"
  return if context.parents.isEmpty then body
    else body ++ " -> (" ++ Nat.repr context.parents.length ++ " parent(s))"

/-- A context in short: how many bindings and parents it has. -/
def summary (context : Context) : String :=
  "<Context " ++ Nat.repr context.bindings.length ++ " binding(s), " ++
    Nat.repr context.parents.length ++ " parent(s)>"

end Context

end ContextLisp
