/-
# What a host's primitive does

A host is a function from states to states, and nothing in its type keeps it from looking at a
store as a whole. A host that uses contexts as a program does, only searches them for names,
binds names in them and makes new ones. Such a host cannot see how a search went, only what it
found. It can make functions and expanders, under new tags, and hand out some that it made
before. And since tags are no data to it, it does the same when all tags but those that were
given before are replaced by others.
-/

import ContextLisp.Evaluation.Application
import ContextLisp.Proofs.Retagging

namespace ContextLisp

/-- What a host's primitive does: it searches contexts for names, binds names, makes contexts,
takes new tags, and ends with a value or an error. What it does next may depend on what a search
found, and on nothing else in any context. -/
inductive HostAction where
  | give (value : Value)
  | raise (e : Error)
  /-- Go on with the context that binds a name and the value there. -/
  | search (start : ContextId) (name : String)
      (next : Option ContextId → Option Value → HostAction)
  | define (id : ContextId) (name : String) (value : Value) (next : HostAction)
  | create (parents : List ContextId) (next : ContextId → HostAction)
  | fresh (next : Nat → HostAction)

/-- Do it on a store, with tags at hand. -/
def HostAction.run : HostAction → EStateM Error HostState Value
  | .give value, store => .ok value store
  | .raise e, store => .error e store
  | .search start name next, store =>
    (next (store.find? start name) (store.resolve? start name)).run store
  | .define id name value next, store =>
    next.run { store with toStore := store.define id name value }
  | .create parents next, store =>
    (next (store.create parents).1).run { store with toStore := (store.create parents).2 }
  | .fresh next, store =>
    (next store.nextTag).run { store with nextTag := store.nextTag + 1 }

theorem HostAction.nextTag_le_run (action : HostAction) (store : HostState) :
    match action.run store with
    | .ok _ left => store.nextTag ≤ left.nextTag
    | .error _ left => store.nextTag ≤ left.nextTag := by
  induction action generalizing store with
  | give value => exact Nat.le_refl _
  | raise e => exact Nat.le_refl _
  | search start name next ih => exact ih _ _ store
  | define id name value next ih => exact ih _
  | create parents next ih => exact ih _ _
  | fresh next ih =>
    have later := ih store.nextTag { store with nextTag := store.nextTag + 1 }
    rw [run]
    split <;> rename_i result <;> rw [result] at later <;> exact Nat.le_of_succ_le later

/-- The second action does the same as the first, under other tags. -/
inductive HostAction.Retagged (ρ : Nat → Nat) : HostAction → HostAction → Prop
  | give (value : Value) : Retagged ρ (.give value) (.give (value.retag ρ))
  | raise (e : Error) : Retagged ρ (.raise e) (.raise (e.retag ρ))
  | search {start : ContextId} {name : String}
      {next next' : Option ContextId → Option Value → HostAction} :
    (∀ home value, Retagged ρ (next home value) (next' home (value.map (Value.retag ρ)))) →
      Retagged ρ (.search start name next) (.search start name next')
  | define {id : ContextId} {name : String} {value : Value} {next next' : HostAction} :
    Retagged ρ next next' →
      Retagged ρ (.define id name value next) (.define id name (value.retag ρ) next')
  | create {parents : List ContextId} {next next' : ContextId → HostAction} :
    (∀ id, Retagged ρ (next id) (next' id)) →
      Retagged ρ (.create parents next) (.create parents next')
  | fresh {next next' : Nat → HostAction} :
    (∀ tag, Retagged ρ (next tag) (next' (ρ tag))) → Retagged ρ (.fresh next) (.fresh next')

namespace HostAction.Retagged

variable {ρ : Nat → Nat} {action : HostAction} {value : Value}

theorem eq_give (same : (HostAction.give value).Retagged ρ action) :
    action = .give (value.retag ρ) := by
  cases same
  rfl

theorem eq_define {id : ContextId} {name : String} {next : HostAction}
    (same : (HostAction.define id name value next).Retagged ρ action) :
    ∃ next', action = .define id name (value.retag ρ) next' ∧ next.Retagged ρ next' := by
  cases same with
  | define same => exact ⟨_, rfl, same⟩

end HostAction.Retagged

/-- The host's primitives depend on contexts through searches only, and do the same under any
other tags, given one for one, that leave those given before `n` as they are. Functions and
expanders that the host made for itself have such tags. -/
def Host.Oblivious (host : Host) (n : Nat) : Prop :=
  ∃ action : HostPrimitive → ContextId → List Value → HostAction,
    (∀ h c args, Eval.lend (host h c args) = Eval.lend (action h c args).run) ∧
    ∀ ρ, Function.Injective ρ → (∀ t < n, ρ t = t) → ∀ h c args,
      (action h c args).Retagged ρ (action h c (args.map (Value.retag ρ)))

end ContextLisp
