import NullCheck.Proofs.State.Equality

/-!
# Reachable frames

The frames that come about from the empty one by any sequence of the operations on frames, among them conditions
that were applied in vain. All of them are well-formed, so everything that is known of equalities and of null is
known exactly.

## The architecture

* **`…_wellFormed`**, one lemma for each operation: it keeps partitions well-formed.
* **`Frame.Reachable.wellFormed`**: by induction on the sequence of operations.
* **`Frame.equalities_exact`**: the headline.
-/

namespace NullCheck

namespace Frame

variable {f : Frame} {s : Scope}

/-! ## Conditions -/

/-- An order is settled or not, and nothing is learnt from it. -/
@[simp] theorem frame_applyOrdering (f : Frame) (kind : RelationKind) (negated : Bool) (left right : Value) :
    (f.applyOrdering kind negated left right).frame = f := by
  unfold applyOrdering
  split
  · split <;> rfl
  · rfl

/-- To note a type is no matter of classes. -/
@[simp] theorem partition_addInstanceOf (f : Frame) (s : Scope) (v : Value) (t : JvmType) :
    (f.addInstanceOf s v t).frame.partition = f.partition := by
  unfold addInstanceOf
  simp only
  split
  · rfl
  · split
    · rfl
    · split <;> rfl

@[simp] theorem partition_addNotInstanceOf (f : Frame) (s : Scope) (v : Value) (t : JvmType) :
    (f.addNotInstanceOf s v t).frame.partition = f.partition := by
  unfold addNotInstanceOf
  simp only
  split
  · rfl
  · split <;> rfl

/-- A type test equates with `null` and notes types. -/
theorem applyInstanceOf_wellFormed (hf : f.partition.WellFormed) (negated : Bool) (left right : Value) :
    (f.applyInstanceOf s negated left right).frame.partition.WellFormed := by
  unfold applyInstanceOf
  split
  · simp only
    split
    · split
      · rwa [partition_addNotInstanceOf]
      · apply applyEquality_wellFormed
        rwa [partition_addNotInstanceOf]
    · split
      · rw [partition_addInstanceOf]
        exact applyEquality_wellFormed hf left .null true
      · exact applyEquality_wellFormed hf left .null true
  · exact hf

theorem applyRelation_wellFormed (hf : f.partition.WellFormed) (kind : RelationKind) (negated : Bool)
    (left right : Value) : (f.applyRelation s kind negated left right).frame.partition.WellFormed := by
  cases kind with
  | eq => exact applyEquality_wellFormed hf left right negated
  | lt =>
    show (f.applyOrdering .lt negated left right).frame.partition.WellFormed
    rwa [frame_applyOrdering]
  | gt =>
    show (f.applyOrdering .gt negated left right).frame.partition.WellFormed
    rwa [frame_applyOrdering]
  | instanceOf => exact applyInstanceOf_wellFormed hf negated left right

/-- Whatever condition is applied, classes stay well formed. -/
theorem applyCondition_wellFormed (hf : f.partition.WellFormed) (condition : Value) :
    (f.applyCondition s condition).frame.partition.WellFormed := by
  unfold applyCondition
  split
  · exact hf
  · exact applyRelation_wellFormed hf _ _ _ _
  · exact hf

/-- A cast notes a type at most. -/
@[simp] theorem partition_applyCast (f : Frame) (s : Scope) (condition : Value) :
    (f.applyCast s condition).frame.partition = f.partition := by
  unfold applyCast
  split
  · split
    · split
      · rfl
      · split
        · rfl
        · rw [partition_addInstanceOf]
    · rfl
  · rfl

theorem applyNotNull_wellFormed (hf : f.partition.WellFormed) (v : Value) :
    (f.applyNotNull v).frame.partition.WellFormed := by
  unfold applyNotNull
  split
  · exact applyEquality_wellFormed hf v .null true
  · exact hf

/-! ## Assignments -/

theorem flushVariable_wellFormed (hf : f.partition.WellFormed) (id : VariableId) :
    (f.flushVariable id).partition.WellFormed :=
  hf.forget _

theorem flushFields_wellFormed (hf : f.partition.WellFormed) : (f.flushFields s).partition.WellFormed := by
  unfold flushFields
  generalize s.fieldVariables = ids
  induction ids generalizing f with
  | nil => exact hf
  | cons id ids ih =>
    rw [List.foldl_cons]
    exact ih (flushVariable_wellFormed hf id)

/-- A target adopts a value by an equation and by facts. -/
theorem adopt_wellFormed (hf : f.partition.WellFormed) (target value : Value) :
    (f.adopt s target value).partition.WellFormed := by
  unfold adopt
  split
  · rw [partition_recordType]
    exact applyEquality_wellFormed hf target .null true
  · rw [partition_recordType]
    split
    · exact applyEquality_wellFormed hf target .null true
    · rwa [partition_markNullable]
    · exact hf
  · exact hf
  · exact hf
  · exact applyEquality_wellFormed hf target _ false

/-- An assignment flushes the target and then adopts the value. -/
theorem assign_wellFormed (hf : f.partition.WellFormed) (target value : Value) :
    (f.assign s target value).partition.WellFormed := by
  unfold assign
  split
  · exact hf
  · split
    · exact hf
    · apply adopt_wellFormed
      exact flushVariable_wellFormed hf _

/-! ## Sequences of operations -/

/-- A frame that comes about from the empty one by operations on frames. What was applied in vain counts too. -/
inductive Reachable (s : Scope) : Frame → Prop
  | empty : Reachable s .empty
  | push {f : Frame} (v : Value) (h : Reachable s f) : Reachable s (f.push v)
  | pop {f : Frame} (h : Reachable s f) : Reachable s f.pop.2
  | referenceField {f : Frame} (h : Reachable s f) : Reachable s f.withFieldReferenced
  | assign {f : Frame} (target value : Value) (h : Reachable s f) : Reachable s (f.assign s target value)
  | flushVariable {f : Frame} (id : VariableId) (h : Reachable s f) : Reachable s (f.flushVariable id)
  | flushFields {f : Frame} (h : Reachable s f) : Reachable s (f.flushFields s)
  | applyCondition {f : Frame} (condition : Value) (h : Reachable s f) :
      Reachable s (f.applyCondition s condition).frame
  | applyNotNull {f : Frame} (v : Value) (h : Reachable s f) : Reachable s (f.applyNotNull v).frame
  | applyCast {f : Frame} (condition : Value) (h : Reachable s f) : Reachable s (f.applyCast s condition).frame

/-- The induction is on what was done to the frame; each operation keeps classes well formed. -/
theorem Reachable.wellFormed (h : f.Reachable s) : f.partition.WellFormed := by
  induction h with
  | empty => exact Partition.WellFormed.empty
  | push v _ ih => exact ih
  | pop _ ih => exact ih
  | referenceField _ ih => exact ih
  | assign target value _ ih => exact assign_wellFormed ih target value
  | flushVariable id _ ih => exact flushVariable_wellFormed ih id
  | flushFields _ ih => exact flushFields_wellFormed ih
  | applyCondition condition _ ih => exact applyCondition_wellFormed ih condition
  | applyNotNull v _ ih => exact applyNotNull_wellFormed ih v
  | applyCast condition _ ih => rwa [partition_applyCast]

/-! ## The headline -/

/-- **The equalities of a reachable frame are exact.** Some valuation satisfies the frame. An equality or inequality
of two atoms is refused exactly if no valuation that satisfies the frame makes it true; otherwise the valuations
that satisfy the frame afterwards are those that did before and make it true. An atom is known to be null, or known
not to be null, exactly if all valuations that satisfy the frame agree that it is, or that it is not. -/
theorem equalities_exact (h : f.Reachable s) (V : Type*) [Infinite V] :
    (∃ σ : Valuation V, σ.Satisfies f.partition) ∧
      (∀ negated v w, v.isAtom → w.isAtom →
        ((f.applyCondition s (.relation .eq negated v w)).holds = false ↔
          ¬∃ σ : Valuation V, σ.Satisfies f.partition ∧ σ.Fulfils negated v w) ∧
        ((f.applyCondition s (.relation .eq negated v w)).holds = true → ∀ σ : Valuation V,
          σ.Satisfies (f.applyCondition s (.relation .eq negated v w)).frame.partition ↔
            σ.Satisfies f.partition ∧ σ.Fulfils negated v w)) ∧
      ∀ v, v.isAtom →
        (f.isNull v ↔ ∀ σ : Valuation V, σ.Satisfies f.partition → σ v = σ .null) ∧
        (f.isNotNull v ↔ ∀ σ : Valuation V, σ.Satisfies f.partition → σ v ≠ σ .null) := by
  have hf := h.wellFormed
  refine ⟨?_, ?_, fun v hv => ⟨isNull_iff hf hv, isNotNull_iff hf hv⟩⟩
  · -- some valuation even tells all classes apart
    obtain ⟨σ, hσ, _⟩ := hf.exists_separating V
    exact ⟨σ, hσ⟩
  · intro negated v w hv hw
    have heq : f.applyCondition s (.relation .eq negated v w) = f.applyEquality v w negated := rfl
    rw [heq]
    constructor
    · rw [← applyEquality_holds_iff hf hv hw, Bool.not_eq_true]
    · intro hholds σ
      exact applyEquality_satisfies hf hv hw hholds

/-- Two variables are found equal and one of them not to be null; that the other is null is then refused, and what
is left is still exact: every valuation takes both to something else than null. -/
theorem equalities_exact_after_refusal :
    let s : Scope := ⟨[⟨"x", .object, .local, false, []⟩, ⟨"y", .object, .local, false, []⟩], .empty⟩
    let x := Value.var 0 false
    let y := Value.var 1 false
    let f := ((Frame.empty.applyCondition s (.relation .eq false x y)).frame.applyNotNull y).frame
    let r := f.applyCondition s (.relation .eq false x .null)
    r.frame.Reachable s ∧ r.holds = false ∧
      ∀ σ : Valuation ℕ, σ.Satisfies r.frame.partition → σ x ≠ σ .null := by
  intro s x y f r
  have hr : r.frame.Reachable s := ((Reachable.empty.applyCondition _).applyNotNull y).applyCondition _
  have hx : r.frame.isNotNull x := by decide
  exact ⟨hr, by decide, ((equalities_exact hr ℕ).2.2 x rfl).2.1 hx⟩

end Frame

end NullCheck
