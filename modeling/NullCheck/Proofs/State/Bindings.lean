import Mathlib.Data.List.Induction
import NullCheck.Proofs.State.Stack
import NullCheck.Proofs.Survey

/-!
# Operations that leave the bindings alone

Conditions work on what is known of values, not on what was assigned to variables. Bindings are changed by assignments,
and go when a variable is flushed.
-/

namespace NullCheck

namespace Frame

variable {f : Frame} {s : Scope} {id : VariableId} {target value : Value}

/-! ## Conditions -/

@[simp] theorem bindings_addInstanceOf (f : Frame) (s : Scope) (v : Value) (t : JvmType) :
    (f.addInstanceOf s v t).frame.bindings = f.bindings := by
  unfold addInstanceOf
  simp only
  split
  · rfl
  · split
    · rfl
    · split <;> rfl

@[simp] theorem bindings_addNotInstanceOf (f : Frame) (s : Scope) (v : Value) (t : JvmType) :
    (f.addNotInstanceOf s v t).frame.bindings = f.bindings := by
  unfold addNotInstanceOf
  simp only
  split
  · rfl
  · split <;> rfl

@[simp] theorem bindings_applyInstanceOf (f : Frame) (s : Scope) (negated : Bool) (left right : Value) :
    (f.applyInstanceOf s negated left right).frame.bindings = f.bindings := by
  unfold applyInstanceOf
  split
  · simp only
    split
    · split <;> simp
    · split <;> simp
  · rfl

/-- No condition binds anything. -/
@[simp] theorem bindings_applyRelation (f : Frame) (s : Scope) (kind : RelationKind) (negated : Bool)
    (left right : Value) : (f.applyRelation s kind negated left right).frame.bindings = f.bindings := by
  cases kind with
  | eq => exact bindings_applyEquality f left right negated
  | lt | gt =>
    unfold applyRelation applyOrdering
    simp only
    split
    · split <;> rfl
    · rfl
  | instanceOf => exact bindings_applyInstanceOf f s negated left right

@[simp] theorem bindings_applyNotNull (f : Frame) (v : Value) : (f.applyNotNull v).frame.bindings = f.bindings := by
  unfold applyNotNull
  split
  · exact bindings_applyEquality f v .null true
  · rfl

@[simp] theorem bindings_applyCast (f : Frame) (s : Scope) (condition : Value) :
    (f.applyCast s condition).frame.bindings = f.bindings := by
  unfold applyCast
  split
  · split
    · split
      · rfl
      · split
        · rfl
        · exact bindings_addInstanceOf f s _ _
    · rfl
  · rfl

/-! ## Assignments -/

@[simp] theorem bindings_recordType (f : Frame) (s : Scope) (v : Value) (t : JvmType) :
    (f.recordType s v t).bindings = f.bindings := by
  unfold recordType
  split <;> rfl

/-- What a target adopts is no binding, since it was bound before. -/
@[simp] theorem bindings_adopt (f : Frame) (s : Scope) (target value : Value) :
    (f.adopt s target value).bindings = f.bindings := by
  unfold adopt
  split
  · rw [bindings_recordType, bindings_applyEquality]
  · rw [bindings_recordType]
    split
    · exact bindings_applyEquality f target .null true
    · rfl
    · rfl
  · rfl
  · rfl
  · exact bindings_applyEquality f target _ false

/-- A flush takes the binding of its variable, and no other one. -/
theorem binding?_flushVariable (f : Frame) (x id : VariableId) :
    (f.flushVariable x).binding? id = if id = x then none else f.binding? id := by
  have hkept := Sorted.get?_filter (fun y : VariableId => decide (y ≠ x)) id f.bindings
  simp only [decide_eq_true_eq] at hkept
  show Sorted.get? id (f.bindings.filter fun e => decide (e.1 ≠ x)) = _
  rw [hkept, ite_not]
  rfl

/-- What is assigned is bound. -/
theorem binding?_assign (htarget : target.varId? = some id) (hvalue : value ≠ target) :
    (f.assign s target value).binding? id = some value := by
  unfold assign binding?
  simp only [htarget]
  rw [if_neg hvalue, bindings_adopt]
  exact Sorted.get?_put_self _ _ _

/-- Other variables stay bound as they are. -/
theorem binding?_assign_of_ne (htarget : target.varId? ≠ some id) :
    (f.assign s target value).binding? id = f.binding? id := by
  unfold assign
  split
  · rfl
  · rename_i x hx
    -- the target is another variable
    have hne : id ≠ x := fun heq => htarget (heq ▸ hx)
    split
    · rfl
    · unfold binding?
      rw [bindings_adopt]
      show Sorted.get? id (Sorted.put x value (f.flushVariable x).bindings) = _
      rw [Sorted.get?_put_of_ne hne.symm]
      exact (binding?_flushVariable f x id).trans (if_neg hne)

/-- With the fields goes what was assigned to them. -/
theorem binding?_flushFields (f : Frame) (hid : id ∈ s.fieldVariables) : (f.flushFields s).binding? id = none := by
  unfold flushFields
  generalize s.fieldVariables = ids at hid
  induction ids using List.reverseRecOn with
  | nil => cases hid
  | append_singleton ids x ih =>
    rw [List.foldl_concat, binding?_flushVariable]
    split
    · rfl
    · -- the last field is another one, so `id` is among those before it
      rename_i hne
      refine ih ?_
      rcases List.mem_append.mp hid with hid | hid
      · exact hid
      · exact absurd (List.mem_singleton.mp hid) hne

end Frame

end NullCheck
