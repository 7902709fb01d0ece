import NullCheck.Proofs.ClassHierarchy.Subtyping
import NullCheck.Proofs.State.Answers
import NullCheck.Proofs.State.Opposites
import NullCheck.Proofs.State.Vocabulary

/-!
# Noted types and excluded types

Of a variable value types are noted that it has, and types that it has not. A test looks at the one side before it notes
something on the other; an assignment notes a type without looking. Still no noted type ever lies below an excluded one:
what an assignment notes a type of was forgotten before, so nothing is excluded there.

## The architecture

* **`Facts.Coherent`**, **`Frame.Coherent`**: no noted type lies below an excluded one, and no value has two entries.
* **`Frame.addInstanceOf_cases`**, **`Frame.addNotInstanceOf_cases`**: all that noting or excluding a type comes to.
* **`Frame.Coherent.…`**, one lemma for each operation: it keeps this.
* **`Frame.Reachable.coherent`**: the headline, by induction on the sequence of operations.
-/

namespace NullCheck

/-- No type that a value is noted to have lies below one that it is noted not to have. -/
def Facts.Coherent (s : Scope) (a : Facts) : Prop :=
  ∀ known ∈ a.instanceOf, ∀ excluded ∈ a.notInstanceOf, s.hierarchy.isAssignable excluded known = false

/-- A type above one that is noted is not excluded. -/
theorem Facts.Coherent.notMem {s : Scope} {a : Facts} (h : a.Coherent s) {t : JvmType}
    (hbelow : ∃ known ∈ a.instanceOf, s.hierarchy.isAssignable t known = true) : t ∉ a.notInstanceOf := by
  obtain ⟨known, hknown, hassignable⟩ := hbelow
  intro hexcluded
  rw [h known hknown t hexcluded] at hassignable
  cases hassignable

/-- Coherence is a matter of the types that are known. -/
theorem Facts.SameTypes.coherent {s : Scope} {a b : Facts} (h : a.SameTypes b) (hb : b.Coherent s) : a.Coherent s := by
  unfold Facts.Coherent
  rw [h.1, h.2]
  exact hb

namespace Frame

/-- No value has two entries, and all entries are coherent. -/
def Coherent (s : Scope) (f : Frame) : Prop := Sorted.Table Set.univ {a | a.Coherent s} f.facts

variable {s : Scope} {f : Frame} {v : Value} {t : JvmType}

theorem notInstanceOf_factsOf_of_none (h : Sorted.get? v f.facts = none) : (f.factsOf s v).notInstanceOf = [] := by
  unfold factsOf
  rw [h]
  rfl

/-! ## What comes of noting and of excluding -/

/-- **All that noting a type comes to:** it is noted already, it is refused, or it is noted and lies below none that is
excluded. -/
theorem addInstanceOf_cases (f : Frame) (s : Scope) (v : Value) (t : JvmType) :
    t ∈ (f.factsOf s v).instanceOf ∧ f.addInstanceOf s v t = ⟨true, f.withFacts v (f.factsOf s v)⟩ ∨
      f.addInstanceOf s v t = ⟨false, f.withFacts v (f.factsOf s v)⟩ ∨
      (∀ excluded ∈ (f.factsOf s v).notInstanceOf, s.hierarchy.isAssignable excluded t = false) ∧
        f.addInstanceOf s v t = ⟨true, (f.withFacts v (f.factsOf s v)).withFacts v
          { f.factsOf s v with instanceOf := Sorted.insert t (f.factsOf s v).instanceOf }⟩ := by
  unfold addInstanceOf
  simp only
  split
  · exact Or.inl ⟨‹_›, rfl⟩
  · split
    · exact Or.inr (Or.inl rfl)
    · -- the type fits what is known; then it may still be refused by what is excluded
      rename_i hallowed
      split
      · exact Or.inr (Or.inl rfl)
      · refine Or.inr (Or.inr ⟨fun excluded hexcluded => ?_, rfl⟩)
        exact Bool.eq_false_iff.mpr fun hbelow => hallowed (List.any_eq_true.mpr ⟨excluded, hexcluded, hbelow⟩)

/-- **All that excluding a type comes to:** it is excluded already, it is refused, or it is excluded and lies above none
that is noted. -/
theorem addNotInstanceOf_cases (f : Frame) (s : Scope) (v : Value) (t : JvmType) :
    t ∈ (f.factsOf s v).notInstanceOf ∧ f.addNotInstanceOf s v t = ⟨true, f.withFacts v (f.factsOf s v)⟩ ∨
      f.addNotInstanceOf s v t = ⟨false, f.withFacts v (f.factsOf s v)⟩ ∨
      (∀ known ∈ (f.factsOf s v).instanceOf, s.hierarchy.isAssignable t known = false) ∧
        f.addNotInstanceOf s v t = ⟨true, (f.withFacts v (f.factsOf s v)).withFacts v
          { f.factsOf s v with notInstanceOf := Sorted.insert t (f.factsOf s v).notInstanceOf }⟩ := by
  unfold addNotInstanceOf
  simp only
  split
  · exact Or.inl ⟨‹_›, rfl⟩
  · split
    · exact Or.inr (Or.inl rfl)
    · rename_i hallowed
      refine Or.inr (Or.inr ⟨fun known hknown => ?_, rfl⟩)
      exact Bool.eq_false_iff.mpr fun hbelow => hallowed (List.any_eq_true.mpr ⟨known, hknown, hbelow⟩)

/-! ## What the operations keep -/

namespace Coherent

theorem empty (s : Scope) : Frame.empty.Coherent s := Sorted.Table.nil

/-- What is known of a value is coherent, also when it is only its declared type. -/
theorem factsOf (h : f.Coherent s) (v : Value) : (f.factsOf s v).Coherent s := by
  cases hfacts : Sorted.get? v f.facts with
  | some a =>
    unfold Frame.factsOf
    rw [hfacts]
    exact h.get?_mem hfacts
  | none =>
    intro known _ excluded hexcluded
    rw [notInstanceOf_factsOf_of_none hfacts] at hexcluded
    cases hexcluded

theorem withFacts (h : f.Coherent s) {a : Facts} (ha : a.Coherent s) : (f.withFacts v a).Coherent s :=
  h.put (Set.mem_univ v) ha

/-- An equality takes marks and changes no types. -/
theorem applyEquality (h : f.Coherent s) (left right : Value) (negated : Bool) :
    (f.applyEquality left right negated).frame.Coherent s := by
  obtain ⟨taken, hfacts, -⟩ := takesMarks_applyEquality f left right negated
  unfold Coherent
  rw [hfacts]
  exact table_unmark h (fun _ ha => ha) taken

/-- A type is noted only when no excluded type lies above it. -/
theorem addInstanceOf (h : f.Coherent s) (v : Value) (t : JvmType) : (f.addInstanceOf s v t).frame.Coherent s := by
  have hfacts := h.factsOf v
  have hnoted : (f.withFacts v (f.factsOf s v)).Coherent s := h.withFacts hfacts
  obtain ⟨-, heq⟩ | heq | ⟨hallowed, heq⟩ := addInstanceOf_cases f s v t
  · rwa [heq]
  · rwa [heq]
  · rw [heq]
    refine hnoted.withFacts fun known hknown excluded hexcluded => ?_
    rcases Sorted.mem_insert.mp hknown with rfl | hknown
    · exact hallowed excluded hexcluded
    · exact hfacts known hknown excluded hexcluded

/-- A type is excluded only when it lies above no known one. -/
theorem addNotInstanceOf (h : f.Coherent s) (v : Value) (t : JvmType) :
    (f.addNotInstanceOf s v t).frame.Coherent s := by
  have hfacts := h.factsOf v
  have hnoted : (f.withFacts v (f.factsOf s v)).Coherent s := h.withFacts hfacts
  obtain ⟨-, heq⟩ | heq | ⟨hallowed, heq⟩ := addNotInstanceOf_cases f s v t
  · rwa [heq]
  · rwa [heq]
  · rw [heq]
    refine hnoted.withFacts fun known hknown excluded hexcluded => ?_
    rcases Sorted.mem_insert.mp hexcluded with rfl | hexcluded
    · exact hallowed known hknown
    · exact hfacts known hknown excluded hexcluded

/-- Equations and orders change no types; a type test notes one, if anything. -/
theorem applyRelation (h : f.Coherent s) (kind : RelationKind) (negated : Bool) (left right : Value) :
    (f.applyRelation s kind negated left right).frame.Coherent s := by
  cases kind with
  | eq => exact h.applyEquality left right negated
  | lt =>
    show (f.applyOrdering .lt negated left right).frame.Coherent s
    rwa [frame_applyOrdering]
  | gt =>
    show (f.applyOrdering .gt negated left right).frame.Coherent s
    rwa [frame_applyOrdering]
  | instanceOf =>
    show (f.applyInstanceOf s negated left right).frame.Coherent s
    unfold applyInstanceOf
    split
    · simp only
      split
      · split
        · exact h.addNotInstanceOf left _
        · exact (h.addNotInstanceOf left _).applyEquality left .null false
      · split
        · exact (h.applyEquality left .null true).addInstanceOf left _
        · exact h.applyEquality left .null true
    · exact h

theorem applyCondition (h : f.Coherent s) (condition : Value) : (f.applyCondition s condition).frame.Coherent s := by
  unfold Frame.applyCondition
  split
  · exact h
  · exact h.applyRelation _ _ _ _
  · exact h

/-- A cast notes the type as a test that is passed does. -/
theorem applyCast (h : f.Coherent s) (condition : Value) : (f.applyCast s condition).frame.Coherent s := by
  unfold Frame.applyCast
  split
  · split
    · split
      · exact h
      · split
        · exact h
        · exact h.addInstanceOf _ _
    · exact h
  · exact h

theorem applyNotNull (h : f.Coherent s) (v : Value) : (f.applyNotNull v).frame.Coherent s := by
  unfold Frame.applyNotNull
  split
  · exact h.applyEquality v .null true
  · exact h

theorem flushVariable (h : f.Coherent s) (id : VariableId) : (f.flushVariable id).Coherent s := h.filter _

theorem flushFields (h : f.Coherent s) : (f.flushFields s).Coherent s := by
  unfold Frame.flushFields
  generalize s.fieldVariables = ids
  induction ids generalizing f with
  | nil => exact h
  | cons id ids ih => exact ih (h.flushVariable id)

/-- To note a type without looking is safe where nothing is excluded. -/
theorem recordType (h : f.Coherent s) (hnone : (f.factsOf s v).notInstanceOf = []) : (f.recordType s v t).Coherent s := by
  unfold Frame.recordType
  split
  · refine h.withFacts fun known _ excluded hexcluded => ?_
    have hnot : excluded ∉ (f.factsOf s v).notInstanceOf := hnone ▸ List.not_mem_nil
    exact absurd hexcluded hnot
  · exact h

/-- A target of which no type is excluded may adopt any type. -/
theorem adopt (h : f.Coherent s) (hnone : (f.factsOf s v).notInstanceOf = []) (value : Value) :
    (f.adopt s v value).Coherent s := by
  -- an equation changes marks only, so still no type is excluded
  have hequality : ((f.applyEquality v .null true).frame.factsOf s v).notInstanceOf = [] :=
    (sameTypes_applyEquality f s v .null v true).2.trans hnone
  unfold Frame.adopt
  split
  · exact (h.applyEquality v .null true).recordType hequality
  · split
    · exact (h.applyEquality v .null true).recordType hequality
    · refine Coherent.recordType (h.withFacts (h.factsOf v)) ?_
      unfold Frame.markNullable Frame.withFacts Frame.factsOf
      rw [Sorted.get?_put_self]
      exact hnone
    · exact h.recordType hnone
  · exact h
  · exact h
  · exact h.applyEquality v _ false

/-- The target was forgotten before, so nothing is excluded of it. -/
theorem assign (h : f.Coherent s) (target value : Value) : (f.assign s target value).Coherent s := by
  cases target with
  | var id viaMethods =>
    by_cases hvalue : value = .var id viaMethods
    · unfold Frame.assign
      simpa only [Value.varId?, if_pos hvalue] using h
    · rw [assign_eq_adopt f s hvalue]
      have hunbound : (f.unbind id value).Coherent s := h.flushVariable id
      -- the target was forgotten, so nothing is excluded of it
      have hforgotten : Sorted.get? (.var id viaMethods) (f.unbind id value).facts = none :=
        (get?_facts_flushVariable f id _).trans (if_pos rfl)
      exact hunbound.adopt (notInstanceOf_factsOf_of_none hforgotten) value
  | _ => exact h

end Coherent

/-- **In a reachable frame no noted type lies below an excluded one,** and no value has two entries. -/
theorem Reachable.coherent (h : f.Reachable s) : f.Coherent s := by
  induction h with
  | empty => exact .empty s
  | push v _ ih => exact ih
  | pop _ ih => exact ih
  | referenceField _ ih => exact ih
  | assign target value _ ih => exact ih.assign target value
  | flushVariable id _ ih => exact ih.flushVariable id
  | flushFields _ ih => exact ih.flushFields
  | applyCondition condition _ ih => exact ih.applyCondition condition
  | applyNotNull v _ ih => exact ih.applyNotNull v
  | applyCast condition _ ih => exact ih.applyCast condition

end Frame

end NullCheck
