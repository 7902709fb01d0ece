import NullCheck.Proofs.State.Persistence
import NullCheck.Proofs.Visit.Redundancy

/-!
# The operand of a redundant test

A report of a redundant test for a type tells whether the operand may be null. Where it says no, it is right: the
operand is known not to be null in every state in which the test was visited. Where it says yes, there is such a state
in which the operand is not known not to be null, or else one in which the report overstates: a hint that a value is
not null is not looked at, and neither is what is known of a variable in a state in which the test cannot fail.

Of a variable that is known not to be null, a redundant test cannot fail at all. If it could, the value would be null
then, and to follow an outcome adds to what is known, but takes nothing away.

## The architecture

* **`Visit.grows_invariant`**: conditions let the partition grow, so what is followed lets it grow.
* **`Visit.Overstates`**: where an operand counts as one that may be null though it is known not to be.
* **`Visit.possiblyNull_iff_of_not_useful`**: what a visit that is of no use to a test tells of the operand.
* **`Context.redundant_possiblyNull_iff`**: the headline.
* **`Context.redundant_possiblyNull_overstated`**: a report overstates.
-/

namespace NullCheck

namespace Visit

variable {c : Context} {i : Instruction} {f : Frame} {left right : Value}

/-! ## Outcomes that are followed -/

/-- Conditions let a partition grow. -/
theorem grows_invariant (s : Scope) (p : Partition) :
    Frame.Invariant s (fun _ => True) (fun _ => False) fun f => f.partition.WellFormed ∧ p.Grows f.partition := by
  refine ⟨fun hf _ => hf, fun hf => ⟨trivial, hf⟩, id, ?_, fun _ h => h.elim, ?_, ?_, ?_⟩
  · intro f target value hf _ _ hassigned
    unfold Frame.assign
    split
    · exact hf
    · rename_i id hid
      exact (hassigned id hid).elim
  · intro f kind negated left right hf _ _
    exact ⟨Frame.applyRelation_wellFormed hf.1 _ _ _ _, hf.2.trans (Frame.grows_applyRelation f s kind negated left right)⟩
  · intro f v hf _
    exact ⟨Frame.applyNotNull_wellFormed hf.1 _, hf.2.trans (Frame.grows_applyNotNull f v)⟩
  · intro f kind negated left right hf _ _
    rwa [Frame.partition_applyCast]

/-- What is known not to be null is not null in an outcome that is followed. -/
theorem isNull_of_follow (hf : f.partition.WellFormed) (hleft : left.isAtom) (hnotNull : f.isNotNull left = true)
    {kind : RelationKind} {negated equal : Bool} {v w : Value} {r : Frame × List Value}
    (hr : follow c f (.relation kind negated v w) equal left right = some r) : r.1.isNull left = false := by
  obtain ⟨hwellFormed, hgrows⟩ :=
    follow_keeps (grows_invariant c.scope f.partition) trivial ⟨hf, .refl _⟩ trivial trivial trivial trivial hr
  exact Frame.not_isNull_of_isNotNull hwellFormed hleft (Frame.isNotNull_of_grows hf hwellFormed hgrows hleft hnotNull)

/-- An outcome of a test is ruled out for variables only. -/
theorem exists_eq_var_of_follow_eq_none {negated equal : Bool}
    (h : follow c f (.relation .instanceOf negated left right) equal left right = none) :
    ∃ id viaMethods, left = .var id viaMethods := by
  have hholds : (f.applyInstanceOf c.scope negated left right).holds ≠ true := by
    intro hholds
    unfold follow at h
    simp only [Frame.applyCondition, Frame.applyRelation, hholds, if_true] at h
    cases h
  cases left with
  | var id viaMethods => exact ⟨id, viaMethods, rfl⟩
  | _ => exact absurd rfl hholds

/-! ## What a visit tells of the operand -/

/-- A test that is of no use is one of a value that may be null, or one of a variable that cannot fail. -/
theorem isNotNull_eq_false_or_of_fork (hf : f.partition.WellFormed) (hleft : left.isAtom) {negated : Bool}
    (h : (fork c i .instanceOf f left right (.relation .instanceOf negated left right)).observation.useful = false) :
    f.isNotNull left = false ∨ ∃ id viaMethods, left = .var id viaMethods ∧ f.isNotNull left = true ∧
      (fork c i .instanceOf f left right (.relation .instanceOf negated left right)).observation.canBeFalse = false := by
  by_cases hnotNull : f.isNotNull left = true
  · right
    simp only [fork, Value.negate, decide_true, Bool.true_and] at h ⊢
    cases hno : follow c f (.relation .instanceOf (!negated) left right) negated left right with
    | none =>
      obtain ⟨id, viaMethods, hvar⟩ := exists_eq_var_of_follow_eq_none hno
      exact ⟨id, viaMethods, hvar, hnotNull, rfl⟩
    | some r =>
      -- the value would be null there
      rw [hno, Option.any_some, isNull_of_follow hf hleft hnotNull hno] at h
      cases h
  · exact Or.inl (Bool.eq_false_iff.mpr hnotNull)

/-- Of an operand that is known by type alone, hints are not looked at. -/
theorem possiblyNull_observeTypes_iff (h : (observeTypes c left right).useful = false) :
    (observeTypes c left right).possiblyNull = true ↔ f.isNotNull left = false ∨ ∃ t, left = .typed t .nonNull := by
  cases right with
  | typed t _ =>
    cases left with
    | typed u nullness => cases nullness <;> simp [observeTypes, Frame.isNotNull]
    | notNull u => simp [observeTypes, Frame.isNotNull]
    | _ => cases h
  | _ => cases h

/-- The operand of a test counts as one that may be null, though it is known not to be: it has a hint that says so, or
is a variable in a state in which the test cannot fail. -/
def Overstates (c : Context) (i : Instruction) (f : Frame) : Prop :=
  (∃ t, f.operand 1 = .typed t .nonNull) ∨
    ∃ id viaMethods, f.operand 1 = .var id viaMethods ∧ f.isNotNull (f.operand 1) = true ∧
      (visit c i f).observation.canBeFalse = false

/-- **What a visit that is of no use to a test tells of the operand.** -/
theorem possiblyNull_iff_of_not_useful (hoperation : i.operation = .binop (some .instanceOf))
    (hf : f.partition.WellFormed) (huseless : (visit c i f).observation.useful = false) :
    (visit c i f).observation.possiblyNull = true ↔ f.isNotNull (f.operand 1) = false ∨ Overstates c i f := by
  have hpopped : f.isNotNull (f.operand 1) = f.pop.2.pop.2.isNotNull (f.operand 1) := Frame.isNotNull_congr rfl _
  unfold Overstates
  rw [hpopped]
  rw [Context.visit_binop hoperation, observation_binop_instanceOf] at huseless ⊢
  simp only at huseless ⊢
  by_cases htracked : (f.operand 1).isTracked
  · -- whatever is tracked counts
    rw [if_pos htracked] at huseless ⊢
    have hatom : (f.operand 1).isAtom := by
      revert htracked
      cases f.operand 1 <;> simp [Value.isTracked, Value.isAtom]
    exact ⟨fun _ => (isNotNull_eq_false_or_of_fork (f := f.pop.2.pop.2) hf hatom huseless).imp_right Or.inr, fun _ => rfl⟩
  · rw [if_neg htracked] at huseless ⊢
    rw [possiblyNull_observeTypes_iff (f := f.pop.2.pop.2) huseless]
    refine or_congr_right ⟨Or.inl, fun h => h.resolve_right ?_⟩
    rintro ⟨id, viaMethods, hvar, -⟩
    exact htracked (hvar ▸ rfl)

end Visit

namespace Context

variable {c : Context}

/-! ## Reports -/

/-- A test about which all visits observe the same is reported for what they observe. -/
theorem redundantInstanceof_mem_findings_of_observation (hnumbered : c.procedure.Numbered) {config : AnalysisConfig}
    (hcomplete : (c.run config).complete = true) {i : Instruction} (hi : i ∈ c.procedure.instructions)
    (hoperation : i.operation = .binop (some .instanceOf)) {o : Observation}
    (ho : o.canBeTrue = true ∧ o.canBeFalse = true ∧ o.useful = false) {k : Nat}
    (hseen : ∃ p ∈ c.wave k, c.procedure.instructions[p.index]? = some i)
    (hobserved : ∀ p ∈ c.stateSpace, p.index = i.index → (visit c i p.frame).observation = o) :
    ⟨.redundantInstanceof o.possiblyNull, i.index, i.anchor, none⟩ ∈ (c.analyze config).findings := by
  obtain ⟨htrue, hfalse, huseless⟩ := ho
  obtain ⟨q, hwave, hat⟩ := hseen
  have hq : q ∈ c.stateSpace := mem_stateSpace_of_mem_wave hwave hat
  have hindex : q.index = i.index := (hnumbered q.index i hat).symm
  -- all visits observe the same, and it makes the test redundant
  have hredundant : (c.run config).survey.isInstanceofRedundant i.index = true := by
    refine (run_isInstanceofRedundant_iff hnumbered hcomplete hi hoperation).mpr
      ⟨⟨q, hq, hindex, ?_⟩, ⟨q, hq, hindex, ?_⟩, fun p hp hpi => ?_⟩
    · rw [hobserved q hq hindex, htrue]
    · rw [hobserved q hq hindex, hfalse]
    · rw [hobserved p hp hpi, huseless]
  -- the joined observations say of null what each of them says
  have hpossiblyNull : ((c.run config).survey.observation i.index).possiblyNull = o.possiblyNull := by
    rw [Bool.eq_iff_iff,
      run_observation_iff hnumbered hcomplete hi hoperation (π := Observation.possiblyNull) (fun _ _ => rfl) rfl]
    constructor
    · rintro ⟨p, hp, hpi, h⟩
      rwa [hobserved p hp hpi] at h
    · intro h
      exact ⟨q, hq, hindex, by rw [hobserved q hq hindex, h]⟩
  have hfound := redundantInstanceof_mem_findings hcomplete hi hoperation hredundant
  rwa [hpossiblyNull] at hfound

/-- **What a report of a redundant test tells of its operand.** The run was complete, and the report says that the
operand may be null just if in some state in which the test was visited the operand is not known not to be null, or
the report overstates there. So where it says that the operand cannot be null, that is known in all those states. -/
theorem redundant_possiblyNull_iff (hnumbered : c.procedure.Numbered) {config : AnalysisConfig} {f : Finding}
    (hf : f ∈ (c.analyze config).findings) {b : Bool} (hkind : f.kind = .redundantInstanceof b) :
    (c.run config).complete = true ∧
      ∃ i, c.procedure.instructions[f.instruction]? = some i ∧ i.operation = .binop (some .instanceOf) ∧
        (b = true ↔ ∃ p, c.Visits config p ∧ p.index = f.instruction ∧
          (p.frame.isNotNull (p.frame.operand 1) = false ∨ Visit.Overstates c i p.frame)) := by
  obtain ⟨hcomplete, i, hi, hoperation, hinstruction, hredundant, rfl⟩ :=
    exists_possiblyNull_of_redundantInstanceof hf hkind
  obtain ⟨-, -, huseless⟩ := (run_isInstanceofRedundant_iff hnumbered hcomplete hi hoperation).mp hredundant
  rw [hinstruction]
  refine ⟨hcomplete, i, getElem?_index hnumbered hi, hoperation, ?_⟩
  rw [run_observation_iff hnumbered hcomplete hi hoperation (π := Observation.possiblyNull) (fun _ _ => rfl) rfl]
  -- state by state, what is observed is what the visit is about
  refine exists_congr fun p => ?_
  rw [visits_iff hcomplete]
  refine and_congr_right fun hp => and_congr_right fun hpi => ?_
  exact Visit.possiblyNull_iff_of_not_useful hoperation hp.1.reachable.wellFormed (huseless p hp hpi)

/-- Of a variable about which nothing is known, the report is right that it may be null. -/
theorem redundant_possiblyNull_of_tested_string :
    let c : Context := ⟨testedString, .empty, AnalysisConfig.standard.resolver, .empty⟩
    testedString.Numbered ∧ ∃ f ∈ (c.analyze .standard).findings, f.kind = .redundantInstanceof true ∧
      f.instruction = 2 ∧ ∃ p, c.Visits .standard p ∧ p.index = 2 ∧
        p.frame.isNotNull (p.frame.operand 1) = false := by
  intro c
  have hvalid : testedString.validate = .ok testedString := by decide +kernel
  have hnumbered : c.procedure.Numbered := Procedure.numbered_of_validate hvalid
  have hwaves : c.wave 5 = [] ∧ ((List.range 5).flatMap c.wave).length ≤ 50000 := by decide +kernel
  have hcomplete : (c.run .standard).complete = true := run_complete_of_waves hwaves.1 hwaves.2
  let test : Instruction := ⟨2, none, .binop (some .instanceOf)⟩
  have htest : test ∈ c.procedure.instructions := by decide
  have hseen : ∃ p ∈ c.wave 2, c.procedure.instructions[p.index]? = some test := by decide +kernel
  have hobserved : ∀ p ∈ (List.range 5).flatMap c.wave, p.index = test.index →
      (visit c test p.frame).observation = ⟨true, true, true, true, false, false⟩ ∧
        p.frame.operand 1 = .var 0 false := by decide +kernel
  have hall := forall_stateSpace_of_waves hwaves.1 hobserved
  have hfound := redundantInstanceof_mem_findings_of_observation hnumbered hcomplete htest rfl ⟨rfl, rfl, rfl⟩ hseen
    fun p hp hpi => (hall p hp hpi).1
  obtain ⟨-, i, hi, -, hiff⟩ := redundant_possiblyNull_iff hnumbered hfound rfl
  obtain ⟨p, hp, hpi, hcases⟩ := hiff.mp rfl
  refine ⟨hnumbered, _, hfound, rfl, rfl, p, hp, hpi, hcases.resolve_right ?_⟩
  -- the variable has no hint, and the test can fail
  obtain ⟨hobservation, hoperand⟩ := hall p ((visits_iff hcomplete).mp hp) hpi
  rw [getElem?_index hnumbered htest] at hi
  cases hi
  rintro (⟨t, ht⟩ | ⟨id, viaMethods, -, -, hfalse⟩)
  · rw [hoperand] at ht
    cases ht
  · rw [hobservation] at hfalse
    cases hfalse

/-- A procedure that tests a value of type string for that type, with a hint that the value is not null. -/
def testedHint : Procedure where
  name := "m"
  sourceFile := none
  vars := []
  anchors := []
  instructions :=
    [⟨0, none, .push (.typed .string .nonNull)⟩,
     ⟨1, none, .push (.typed .string .unknown)⟩,
     ⟨2, none, .binop (some .instanceOf)⟩,
     ⟨3, none, .pop⟩,
     ⟨4, none, .leave⟩]

/-- The value is reported to be possibly null, though it is known not to be in every state in which the test was
visited. -/
theorem redundant_possiblyNull_overstated :
    let c : Context := ⟨testedHint, .empty, AnalysisConfig.standard.resolver, .empty⟩
    testedHint.validate = .ok testedHint ∧ (c.run .standard).complete = true ∧
      ∃ f ∈ (c.analyze .standard).findings, f.kind = .redundantInstanceof true ∧ f.instruction = 2 ∧
        ¬∃ p, c.Visits .standard p ∧ p.index = 2 ∧ p.frame.isNotNull (p.frame.operand 1) = false := by
  intro c
  have hvalid : testedHint.validate = .ok testedHint := by decide +kernel
  have hnumbered : c.procedure.Numbered := Procedure.numbered_of_validate hvalid
  have hwaves : c.wave 5 = [] ∧ ((List.range 5).flatMap c.wave).length ≤ 50000 := by decide +kernel
  have hcomplete : (c.run .standard).complete = true := run_complete_of_waves hwaves.1 hwaves.2
  let test : Instruction := ⟨2, none, .binop (some .instanceOf)⟩
  have htest : test ∈ c.procedure.instructions := by decide
  have hseen : ∃ p ∈ c.wave 2, c.procedure.instructions[p.index]? = some test := by decide +kernel
  -- no visit of the test was useful, and all saw an operand that is not null
  have hobserved : ∀ p ∈ (List.range 5).flatMap c.wave, p.index = test.index →
      (visit c test p.frame).observation = ⟨true, true, true, true, false, false⟩ ∧
        p.frame.isNotNull (p.frame.operand 1) = true := by decide +kernel
  have hall := forall_stateSpace_of_waves hwaves.1 hobserved
  have hfound := redundantInstanceof_mem_findings_of_observation hnumbered hcomplete htest rfl ⟨rfl, rfl, rfl⟩ hseen
    fun p hp hpi => (hall p hp hpi).1
  refine ⟨hvalid, hcomplete, _, hfound, rfl, rfl, ?_⟩
  rintro ⟨p, hp, hpi, hnull⟩
  rw [(hall p ((visits_iff hcomplete).mp hp) hpi).2] at hnull
  cases hnull

end Context

end NullCheck
