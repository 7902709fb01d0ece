import NullCheck.State.Condition

/-!
# Operations that leave the stack alone

Conditions and assignments work on what is known of values. Only pushes and pops touch the stack.
-/

namespace NullCheck

namespace Frame

variable {f : Frame} {s : Scope}

/-! ## Conditions

An equality works on the partition and on the facts, and on nothing else. -/

/-- Taking marks changes the facts and nothing else. -/
theorem refreshNullableMarks_eq (f : Frame) (slot : Nat) :
    f.refreshNullableMarks slot = { f with facts := (f.refreshNullableMarks slot).facts } := by
  unfold refreshNullableMarks
  split <;> rfl

/-- Telling classes apart changes the classes and marks. -/
theorem separate_eq (f : Frame) (a b : Nat) :
    f.separate a b = { f with partition := (f.separate a b).partition, facts := (f.separate a b).facts } := by
  unfold separate
  simp only
  rw [refreshNullableMarks_eq, refreshNullableMarks_eq]
  split <;> rfl

theorem unite_eq (f : Frame) (a b : Nat) :
    f.unite a b = { f with partition := (f.unite a b).partition, facts := (f.unite a b).facts } := by
  unfold unite
  simp only
  rw [refreshNullableMarks_eq]

/-- **All that an equality does to a frame** is to make classes, and then to tell two of them apart or to unite them. -/
theorem applyEquality_frame_cases (f : Frame) (left right : Value) (negated : Bool) :
    (f.applyEquality left right negated).frame = f ∨
      (f.applyEquality left right negated).frame = (f.ensureSlots left right).2.2 ∨
      (f.applyEquality left right negated).frame =
        (f.ensureSlots left right).2.2.separate (f.ensureSlots left right).1 (f.ensureSlots left right).2.1 ∨
      (f.applyEquality left right negated).frame =
        (f.ensureSlots left right).2.2.unite (f.ensureSlots left right).1 (f.ensureSlots left right).2.1 := by
  unfold applyEquality
  split
  · -- the sides are no atoms
    exact Or.inl rfl
  · right
    simp only
    split
    · split
      · exact Or.inl rfl
      · dsimp only
        exact Or.inr (Or.inl rfl)
    · split
      · exact Or.inl rfl
      · split
        · exact Or.inl rfl
        · exact Or.inr (Or.inr rfl)

/-- An equation touches no stack. -/
@[simp] theorem stack_applyEquality (f : Frame) (left right : Value) (negated : Bool) :
    (f.applyEquality left right negated).frame.stack = f.stack := by
  have hslots : (f.ensureSlots left right).2.2.stack = f.stack := rfl
  obtain h | h | h | h := applyEquality_frame_cases f left right negated
  · rw [h]
  · rw [h, hslots]
  · rw [h, separate_eq, hslots]
  · rw [h, unite_eq, hslots]

/-- Nor does it bind anything. -/
@[simp] theorem bindings_applyEquality (f : Frame) (left right : Value) (negated : Bool) :
    (f.applyEquality left right negated).frame.bindings = f.bindings := by
  have hslots : (f.ensureSlots left right).2.2.bindings = f.bindings := rfl
  obtain h | h | h | h := applyEquality_frame_cases f left right negated
  · rw [h]
  · rw [h, hslots]
  · rw [h, separate_eq, hslots]
  · rw [h, unite_eq, hslots]

@[simp] theorem stack_applyNotNull (f : Frame) (v : Value) : (f.applyNotNull v).frame.stack = f.stack := by
  unfold applyNotNull
  split
  · exact stack_applyEquality f v .null true
  · rfl

@[simp] theorem stack_addInstanceOf (f : Frame) (s : Scope) (v : Value) (t : JvmType) :
    (f.addInstanceOf s v t).frame.stack = f.stack := by
  unfold addInstanceOf
  simp only
  split
  · rfl
  · split
    · rfl
    · split <;> rfl

@[simp] theorem stack_applyCast (f : Frame) (s : Scope) (condition : Value) :
    (f.applyCast s condition).frame.stack = f.stack := by
  unfold applyCast
  split
  · split
    · split
      · rfl
      · split
        · rfl
        · exact stack_addInstanceOf f s _ _
    · rfl
  · rfl

/-! ## Assignments -/

@[simp] theorem stack_recordType (f : Frame) (s : Scope) (v : Value) (t : JvmType) :
    (f.recordType s v t).stack = f.stack := by
  unfold recordType
  split <;> rfl

/-- What a target adopts is memory only. -/
@[simp] theorem stack_adopt (f : Frame) (s : Scope) (target value : Value) :
    (f.adopt s target value).stack = f.stack := by
  unfold adopt
  split
  · rw [stack_recordType, stack_applyEquality]
  · rw [stack_recordType]
    split
    · exact stack_applyEquality f target .null true
    · rfl
    · rfl
  · rfl
  · rfl
  · exact stack_applyEquality f target _ false

/-- An assignment leaves the stack to the instruction. -/
@[simp] theorem stack_assign (f : Frame) (s : Scope) (target value : Value) :
    (f.assign s target value).stack = f.stack := by
  unfold assign
  split
  · rfl
  · split
    · rfl
    · rw [stack_adopt]
      rfl

end Frame

end NullCheck
