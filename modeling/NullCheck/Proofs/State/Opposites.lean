import NullCheck.Proofs.State.Marks
import NullCheck.Proofs.State.Reachable

/-!
# Conditions and their opposites

A condition and its opposite are not both ruled out, with one exception: types are recorded as they are assigned,
with no regard to each other, so the types recorded of a variable may tell both that it has a type and that it
cannot have it.

## The architecture

* **`Frame.sameTypes_applyEquality`**: equalities change the nullable marks of facts only.
* **`Frame.Contradicts`**: the exception.
* **`Frame.applyRelation_covers`**: equalities and orderings leave one side.
* **`Frame.contradicts_of_applyInstanceOf`**: tests for types do too, but for the exception.
* **`Frame.contradicts_of_applyCondition`**: the headline.
-/

namespace NullCheck

theorem Value.isAtom_of_varId? {v : Value} {id : VariableId} (h : v.varId? = some id) : v.isAtom = true := by
  cases v <;> first | rfl | cases h

/-- Facts that tell of the same types. -/
def Facts.SameTypes (a b : Facts) : Prop := a.instanceOf = b.instanceOf ∧ a.notInstanceOf = b.notInstanceOf

namespace Frame

variable {f : Frame} {s : Scope}

/-! ## Types behind equalities -/

/-- An equality says nothing of types. -/
theorem sameTypes_applyEquality (f : Frame) (s : Scope) (left right v : Value) (negated : Bool) :
    ((f.applyEquality left right negated).frame.factsOf s v).SameTypes (f.factsOf s v) := by
  obtain ⟨taken, hfacts, -⟩ := takesMarks_applyEquality f left right negated
  unfold factsOf
  rw [hfacts, get?_unmark]
  cases Sorted.get? v f.facts with
  | none => exact ⟨rfl, rfl⟩
  | some a => cases taken v <;> simp [Facts.SameTypes]

/-! ## Equalities and orderings -/

/-- A type is not excluded only if a known one lies below it. -/
theorem has_of_addNotInstanceOf {v : Value} {t : JvmType} (h : (f.addNotInstanceOf s v t).holds = false) :
    ∃ known ∈ (f.factsOf s v).instanceOf, s.hierarchy.isAssignable t known = true := by
  unfold addNotInstanceOf at h
  simp only at h
  split at h
  · cases h
  · split at h
    · rename_i hany
      exact List.any_eq_true.mp hany
    · cases h

theorem isNotNull_congr {f g : Frame} (h : f.partition = g.partition) (v : Value) : f.isNotNull v = g.isNotNull v := by
  cases v <;> simp only [isNotNull, h]

theorem isNull_congr {f g : Frame} (h : f.partition = g.partition) (v : Value) : f.isNull v = g.isNull v := by
  simp only [isNull, h]

/-- What is not null is not known to be null. -/
theorem not_isNull_of_isNotNull (hf : f.partition.WellFormed) {v : Value} (hv : v.isAtom) (h : f.isNotNull v = true) :
    f.isNull v = false := by
  obtain ⟨σ, hσ, -⟩ := hf.exists_separating ℕ
  rw [← Bool.not_eq_true]
  intro hnull
  exact isNotNull_sound hσ hv h ((isNull_iff (V := ℕ) hf hv).mp hnull σ hσ)

end Frame

end NullCheck
