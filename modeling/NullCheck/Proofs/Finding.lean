import Mathlib.Tactic.Tauto
import NullCheck.Proofs.Exploration

/-!
# Where findings come from

The findings of a procedure are those of defects, which visits note as they come, and those about comparisons, which
are read off the survey when a run is complete. To put findings in order neither adds nor loses any.

## The architecture

* **`Finding.mem_inOrder`**: what is put in order stays the same set.
* **`Context.exists_defect_of_recorded`**: by induction on the visits, what they note are defects.
* **`Context.exists_finding?_eq_some`**: all other findings come from the survey of a complete run.
* **`Context.exists_of_constantCondition`**, **`Context.exists_possiblyNull_of_redundantInstanceof`**: what it tells
  then.
-/

namespace NullCheck

namespace Finding

theorem mem_eraseRepsBy_loop {α : Type} [BEq α] [LawfulBEq α] {a b : α} {as acc : List α} :
    b ∈ List.eraseRepsBy.loop (· == ·) a as acc ↔ b = a ∨ b ∈ as ∨ b ∈ acc := by
  induction as generalizing a acc with
  | nil => simp [List.eraseRepsBy.loop, or_comm]
  | cons a' as ih =>
    rw [List.eraseRepsBy.loop]
    split
    · rename_i h
      rw [ih, List.mem_cons, ← eq_of_beq h]
      tauto
    · rw [ih, List.mem_cons, List.mem_cons]
      tauto

theorem mem_eraseReps {α : Type} [BEq α] [LawfulBEq α] {b : α} {as : List α} : b ∈ as.eraseReps ↔ b ∈ as := by
  unfold List.eraseReps
  cases as with
  | nil => rfl
  | cons a as =>
    rw [List.eraseRepsBy, mem_eraseRepsBy_loop, List.mem_cons]
    simp

/-- **To put findings in order neither adds nor loses any.** -/
@[simp] theorem mem_inOrder {f : Finding} {fs : List Finding} : f ∈ inOrder fs ↔ f ∈ fs := by
  unfold inOrder
  rw [mem_eraseReps, List.mem_mergeSort]

end Finding

/-- What is known of findings that defects make. -/
theorem Collector.mem_recorded_reportAll {k : Collector} {i : Instruction} {ds : List Defect} {f : Finding}
    (h : f ∈ (k.reportAll i ds).recorded) : f ∈ k.recorded ∨ ∃ d ∈ ds, f = i.finding d := by
  unfold reportAll at h
  induction ds generalizing k with
  | nil => exact Or.inl h
  | cons d ds ih =>
    rw [List.foldl_cons] at h
    rcases ih h with h | ⟨d', hd', rfl⟩
    · unfold report at h
      split at h
      · rcases List.mem_cons.mp h with rfl | h
        · exact Or.inr ⟨d, List.mem_cons_self .., rfl⟩
        · exact Or.inl h
      · exact Or.inl h
    · exact Or.inr ⟨d', List.mem_cons_of_mem _ hd', rfl⟩

/-- Defects make no findings about comparisons. -/
theorem Defect.kind_ne (d : Defect) (b : Bool) : d.kind ≠ .constantCondition b ∧ d.kind ≠ .redundantInstanceof b := by
  cases d <;> simp [kind]

namespace Survey

theorem collector_add (s : Survey) (i : Instruction) (v : Visit) :
    (s.add i v).collector = s.collector.reportAll i v.defects := by
  show ((((s.count i.operation).withValues v.built).observe i v.observation).collector.reportAll i v.defects) = _
  congr 1
  unfold observe
  split <;> rfl

/-- A constant condition is read off the observation of an instruction. -/
theorem isConditionConstant_of_finding? {s : Survey} {p : Procedure} {i : Instruction} {b : Bool} {f : Finding}
    (h : s.finding? p i = some f) (hkind : f.kind = .constantCondition b) :
    (∃ operator, i.operation = .binop (some operator)) ∧ f.instruction = i.index ∧
      s.isConditionConstant i.index = true ∧ (s.observation i.index).canBeTrue = b := by
  -- the one place where a constant condition is reported
  have hconstant : s.constantCondition? p i = some f → f.instruction = i.index ∧
      s.isConditionConstant i.index = true ∧ (s.observation i.index).canBeTrue = b := by
    intro h
    unfold constantCondition? at h
    split at h
    · rename_i hcondition
      cases h
      rw [Bool.and_eq_true] at hcondition
      exact ⟨rfl, hcondition.1, FindingKind.constantCondition.inj hkind⟩
    · cases h
  unfold finding? at h
  split at h
  · rename_i operator hoperation
    refine ⟨⟨operator, hoperation⟩, ?_⟩
    split at h
    · split at h
      · cases h
        cases hkind
      · exact hconstant h
    · split at h
      · exact hconstant h
      · cases h
  · cases h

/-- A redundant `instanceof` is read off the observation of an instruction. -/
theorem isInstanceofRedundant_of_finding? {s : Survey} {p : Procedure} {i : Instruction} {b : Bool} {f : Finding}
    (h : s.finding? p i = some f) (hkind : f.kind = .redundantInstanceof b) :
    i.operation = .binop (some .instanceOf) ∧ f.instruction = i.index ∧ s.isInstanceofRedundant i.index = true ∧
      (s.observation i.index).possiblyNull = b := by
  -- a constant condition is a finding of another kind
  have hconstant : s.constantCondition? p i ≠ some f := by
    intro h
    unfold constantCondition? at h
    split at h
    · cases h
      cases hkind
    · cases h
  unfold finding? at h
  split at h
  · rename_i operator hoperation
    split at h
    · rename_i hoperator
      split at h
      · rename_i hredundant
        cases h
        exact ⟨hoperator ▸ hoperation, rfl, hredundant, FindingKind.redundantInstanceof.inj hkind⟩
      · exact absurd h hconstant
    · split at h
      · exact absurd h hconstant
      · cases h
  · cases h

end Survey

namespace Context

variable {c : Context}

/-- What visits note are findings of defects. -/
theorem exists_defect_of_recorded {order : List Successor} {s : Survey}
    (hs : ∀ f ∈ s.collector.recorded, ∃ d : Defect, f.kind = d.kind) :
    ∀ f ∈ (c.tallyAll s order).collector.recorded, ∃ d : Defect, f.kind = d.kind := by
  induction order generalizing s with
  | nil => exact hs
  | cons p order ih =>
    apply ih
    intro f hf
    unfold tally at hf
    split at hf
    · rw [Survey.collector_add] at hf
      rcases Collector.mem_recorded_reportAll hf with hf | ⟨d, _, rfl⟩
      · exact hs f hf
      · exact ⟨d, rfl⟩
    · exact hs f hf

/-- **A finding of no defect is read off the survey of a complete run.** -/
theorem exists_finding?_eq_some {config : AnalysisConfig} {f : Finding} (hf : f ∈ (c.analyze config).findings)
    (hdefect : ∀ d : Defect, f.kind ≠ d.kind) (hgiven : f.kind ≠ .analysisTooComplex) :
    (c.run config).complete = true ∧
      ∃ i ∈ c.procedure.instructions, (c.run config).survey.finding? c.procedure i = some f := by
  have hfindings : f ∈ (if (c.run config).complete then (c.run config).survey.findings c.procedure
      else [⟨.analysisTooComplex, 0, none, none⟩]) := hf
  split at hfindings
  · rename_i hcomplete
    refine ⟨hcomplete, ?_⟩
    unfold Survey.findings at hfindings
    rw [Finding.mem_inOrder, List.mem_append, List.mem_reverse, List.mem_filterMap] at hfindings
    refine hfindings.resolve_right fun hrecorded => ?_
    obtain ⟨order, -, -, -, hsurvey, -⟩ := run_visits (c := c) config
    rw [hsurvey] at hrecorded
    obtain ⟨d, hd⟩ := exists_defect_of_recorded (s := c.blank config) (by rintro f ⟨⟩) f hrecorded
    exact hdefect d hd
  · -- the finding of a run that was given up
    rw [List.mem_singleton] at hfindings
    exact absurd (congrArg Finding.kind hfindings) hgiven

/-- **A constant condition is read off the survey of a complete run,** at a binary operation. -/
theorem exists_of_constantCondition {config : AnalysisConfig} {f : Finding} {b : Bool}
    (hf : f ∈ (c.analyze config).findings) (hkind : f.kind = .constantCondition b) :
    (c.run config).complete = true ∧ ∃ i ∈ c.procedure.instructions,
      (∃ operator, i.operation = .binop (some operator)) ∧ f.instruction = i.index ∧
      (c.run config).survey.isConditionConstant i.index = true ∧
      ((c.run config).survey.observation i.index).canBeTrue = b := by
  have hdefect : ∀ d : Defect, f.kind ≠ d.kind := fun d hd => (d.kind_ne b).1 (hd.symm.trans hkind)
  obtain ⟨hcomplete, i, hi, hfinding⟩ := exists_finding?_eq_some hf hdefect (by simp [hkind])
  exact ⟨hcomplete, i, hi, Survey.isConditionConstant_of_finding? hfinding hkind⟩

/-- **A redundant `instanceof` is read off the survey of a complete run,** and so is whether its operand may be
null. -/
theorem exists_possiblyNull_of_redundantInstanceof {config : AnalysisConfig} {f : Finding} {b : Bool}
    (hf : f ∈ (c.analyze config).findings) (hkind : f.kind = .redundantInstanceof b) :
    (c.run config).complete = true ∧ ∃ i ∈ c.procedure.instructions,
      i.operation = .binop (some .instanceOf) ∧ f.instruction = i.index ∧
      (c.run config).survey.isInstanceofRedundant i.index = true ∧
      ((c.run config).survey.observation i.index).possiblyNull = b := by
  have hdefect : ∀ d : Defect, f.kind ≠ d.kind := fun d hd => (d.kind_ne b).2 (hd.symm.trans hkind)
  obtain ⟨hcomplete, i, hi, hfinding⟩ := exists_finding?_eq_some hf hdefect (by simp [hkind])
  exact ⟨hcomplete, i, hi, Survey.isInstanceofRedundant_of_finding? hfinding hkind⟩

theorem exists_of_redundantInstanceof {config : AnalysisConfig} {f : Finding} {b : Bool}
    (hf : f ∈ (c.analyze config).findings) (hkind : f.kind = .redundantInstanceof b) :
    (c.run config).complete = true ∧ ∃ i ∈ c.procedure.instructions,
      i.operation = .binop (some .instanceOf) ∧ f.instruction = i.index ∧
      (c.run config).survey.isInstanceofRedundant i.index = true := by
  obtain ⟨hcomplete, i, hi, hoperation, hinstruction, hredundant, -⟩ :=
    exists_possiblyNull_of_redundantInstanceof hf hkind
  exact ⟨hcomplete, i, hi, hoperation, hinstruction, hredundant⟩

/-! ## Observations of a run -/

/-- What a run observes at an instruction was observed before, or by some visit to the instruction. -/
theorem observation_tallyAll {π : Observation → Bool} (hjoin : ∀ a b, π (a.join b) = (π a || π b)) (s : Survey)
    (order : List Successor) (index : Nat) :
    π ((c.tallyAll s order).observation index) = true ↔ π (s.observation index) = true ∨
      ∃ p ∈ order, ∃ i, c.procedure.instructions[p.index]? = some i ∧ i.index = index ∧
        (visit c i p.frame).observation.reached = true ∧ π (visit c i p.frame).observation = true := by
  induction order generalizing s with
  | nil => simp [tallyAll]
  | cons p order ih =>
    have hfold : c.tallyAll s (p :: order) = c.tallyAll (c.tally s p) order := rfl
    -- one visit joins what it observed, if it observed this instruction and got to its end
    have hstep : π ((c.tally s p).observation index) = true ↔ π (s.observation index) = true ∨
        ∃ i, c.procedure.instructions[p.index]? = some i ∧ i.index = index ∧
          (visit c i p.frame).observation.reached = true ∧ π (visit c i p.frame).observation = true := by
      cases hi : c.procedure.instructions[p.index]? with
      | none => simp [tally, hi]
      | some i =>
        rw [tally_eq hi, Survey.observation_add]
        split
        · rename_i hreached
          rw [hjoin, Bool.or_eq_true]
          simp [hreached]
        · rename_i hreached
          constructor
          · exact Or.inl
          · rintro (h | ⟨j, hj, hindex, hr, -⟩)
            · exact h
            · cases hj
              exact absurd ⟨hr, hindex⟩ hreached
    rw [hfold, ih, hstep]
    simp only [List.mem_cons, exists_eq_or_imp, or_assoc]

end Context

end NullCheck
