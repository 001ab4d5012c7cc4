/-
# What can be written

A value has source text, and diagnostic text, exactly if none of the integers in it is too long
to be written, however deep in lists and in the bodies of functions and expanders they stand. An
error by which a rule refuses a form therefore has a message if the values that it shows can be
written. If not, the error for numerals takes its place.
-/

import ContextLisp.Proofs.Numerals
import ContextLisp.Proofs.References

namespace ContextLisp

namespace Value

mutual

/-- The integers in a value. -/
def integers : Value → List Int
  | .int n => [n]
  | .list items => integersOfItems items
  | .function _ _ body _ => body.integers
  | .expander _ _ body => body.integers
  | _ => []

/-- The integers in several values. -/
def integersOfItems : List Value → List Int
  | [] => []
  | v :: vs => v.integers ++ integersOfItems vs

end

theorem integersOfItems_eq_flatMap (vs : List Value) :
    integersOfItems vs = vs.flatMap integers := by
  induction vs with
  | nil => rfl
  | cons v vs ih => rw [integersOfItems, ih, List.flatMap_cons]

/-- No integer in the value is too long to be written. -/
def IsWritable (v : Value) : Prop :=
  ∀ n ∈ v.integers, n.natAbs < 10 ^ Numeral.digitLimit

theorem isWritable_of_integers_eq_nil {v : Value} (none : v.integers = []) : v.IsWritable := by
  rw [IsWritable, none]
  exact nofun

theorem isWritable_int {n : Int} :
    (Value.int n).IsWritable ↔ n.natAbs < 10 ^ Numeral.digitLimit :=
  List.forall_mem_singleton

theorem isWritable_list {items : List Value} :
    (Value.list items).IsWritable ↔ ∀ v ∈ items, v.IsWritable := by
  simp only [IsWritable, integers, integersOfItems_eq_flatMap, List.mem_flatMap]
  grind

end Value

theorem Numeral.write?_isSome_iff (n : Int) :
    (Numeral.write? n).isSome ↔ n.natAbs < 10 ^ Numeral.digitLimit := by
  rw [Numeral.write?, Nat.pow_eq]
  split <;> simp_all

namespace Value

theorem isSome_mapM_iff {f : Value → Option String} {vs : List Value} :
    (vs.mapM f).isSome ↔ ∀ v ∈ vs, (f v).isSome := by
  induction vs with
  | nil => simp
  | cons v vs ih =>
    cases first : f v <;> cases rest : vs.mapM f <;> simp_all

theorem sourceItems?_eq_mapM (vs : List Value) : sourceItems? vs = vs.mapM source? := by
  induction vs with
  | nil => rfl
  | cons v vs ih => rw [sourceItems?, ih, List.mapM_cons]

theorem inspectItems?_eq_mapM (vs : List Value) : inspectItems? vs = vs.mapM inspect? := by
  induction vs with
  | nil => rfl
  | cons v vs ih => rw [inspectItems?, ih, List.mapM_cons]

theorem source?_isSome_iff (v : Value) : v.source?.isSome ↔ v.IsWritable := by
  induction v using partInduction with
  | int n => rw [source?, isWritable_int, Numeral.write?_isSome_iff]
  | list items each =>
    rw [source?, Option.isSome_map, sourceItems?_eq_mapM, isSome_mapM_iff, isWritable_list]
    exact forall₂_congr each
  | function tag params body scope ih => rw [source?, Option.isSome_map, ih]; rfl
  | expander tag params body ih => rw [source?, Option.isSome_map, ih]; rfl
  | _ => exact ⟨fun _ => isWritable_of_integers_eq_nil rfl, fun _ => rfl⟩

theorem inspect?_isSome_iff (v : Value) : v.inspect?.isSome ↔ v.IsWritable := by
  induction v using partInduction with
  | int n => rw [inspect?, isWritable_int, Numeral.write?_isSome_iff]
  | list items each =>
    rw [inspect?, Option.isSome_map, inspectItems?_eq_mapM, isSome_mapM_iff, isWritable_list]
    exact forall₂_congr each
  | function | expander => exact source?_isSome_iff _
  | _ => exact ⟨fun _ => isWritable_of_integers_eq_nil rfl, fun _ => rfl⟩

theorem display?_isSome {v : Value} (writable : v.IsWritable) : v.display?.isSome := by
  unfold display?
  split
  · rfl
  · rfl
  · rfl
  · exact (inspect?_isSome_iff _).mpr writable

end Value

/-! ### Messages -/

theorem ArityFault.message?_isSome {fault : ArityFault}
    (writable : ∀ v ∈ fault.values, v.IsWritable) : fault.message?.isSome := by
  cases fault with
  | arguments names given =>
    have shown : (Value.displayItems? names).isSome :=
      Value.isSome_mapM_iff.mpr fun v member => Value.display?_isSome (writable v member)
    obtain ⟨texts, displayed⟩ := Option.isSome_iff_exists.mp shown
    simp [message?, displayed]
  | _ => rfl

theorem NameFault.message?_isSome {fault : NameFault} (writable : fault.given.IsWritable) :
    fault.message?.isSome := by
  have shown := (Value.inspect?_isSome_iff _).mpr writable
  cases fault <;> simpa only [message?, Option.isSome_map, given] using shown

theorem KindFault.message?_isSome {fault : KindFault}
    (writable : ∀ v ∈ fault.values, v.IsWritable) : fault.message?.isSome := by
  cases fault with
  | incomparable name args =>
    have list : (Value.list args).IsWritable := Value.isWritable_list.mpr writable
    simpa only [message?, Option.isSome_map] using (Value.inspect?_isSome_iff _).mpr list
  | parameterList _ v | letBindings v =>
    have shown := (Value.inspect?_isSome_iff v).mpr (writable v (by simp [values]))
    simpa only [message?, Option.isSome_map] using shown
  | notNumbers | noCode => rfl

/-- An error by which a rule refuses a form has a message if what it shows can be written. -/
theorem Rejection.message?_isSome {e : Error} (rejection : Rejection e)
    (writable : ∀ v ∈ e.values, v.IsWritable) : e.message?.isSome := by
  cases rejection with
  | arity fault => exact fault.message?_isSome writable
  | invalidName fault => exact fault.message?_isSome (writable _ (by simp [Error.values]))
  | wrongKind fault => exact fault.message?_isSome writable
  | @notCallable callee head parts _ _ =>
    have calleeShown := (Value.inspect?_isSome_iff _).mpr (writable callee (by simp [Error.values]))
    have formShown := (Value.inspect?_isSome_iff _).mpr
      (writable (.list (head :: parts)) (by simp [Error.values]))
    obtain ⟨calleeText, inspected⟩ := Option.isSome_iff_exists.mp calleeShown
    obtain ⟨formText, inspected'⟩ := Option.isSome_iff_exists.mp formShown
    simp [Error.message?, inspected, inspected']

/-- What is raised when a rule refuses a form is reported by the language, or it is the error for
numerals in the place of one that shows an integer which is too long. -/
theorem Rejection.settle_cases {e : Error} (rejection : Rejection e) :
    e.settle.isReported = true ∨ e.settle = .numeral ∧ ∃ v ∈ e.values, ¬ v.IsWritable := by
  by_cases writable : ∀ v ∈ e.values, v.IsWritable
  · rw [Error.settle, if_pos (rejection.message?_isSome writable)]
    cases rejection <;> exact .inl rfl
  · unfold Error.settle
    split
    · cases rejection <;> exact .inl rfl
    · exact .inr ⟨rfl, by simpa using writable⟩

end ContextLisp
