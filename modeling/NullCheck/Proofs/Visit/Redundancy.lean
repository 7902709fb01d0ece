import NullCheck.Proofs.Convergence
import NullCheck.Proofs.Visit.Outcomes

/-!
# Reports of redundant tests

A test for a type is reported to be redundant if both outcomes were seen, and no visit saw it fail on a value that is
not null. So at every visit the value was null, or what is known of its type is below the type that is tested for.

Only NaN is in the way: a test of a value that may be NaN is turned around, and then it is the outcome `true` that is
looked at. Without NaN among the constants of a procedure none comes up.

## The architecture

* **`Context.canBeNaN_eq_false`**: without NaN among the constants, no value may be NaN.
* **`Frame.Justifies`**: why a test cannot fail on a value that is not null.
* **`Visit.justifies_of_not_useful`**: a visit that is of no use to a test justifies it.
* **`Context.redundant_justified`**: the headline.
-/

namespace NullCheck

/-! ## NaN -/

theorem Constant.isNaN_castToIntegral {k : Constant} (hk : k.isNaN = false) : k.castToIntegral.isNaN = false := by
  unfold castToIntegral
  split
  · rfl
  · exact hk

namespace Context

variable {c : Context} {f : Frame} {v : Value}

section NoNaN

variable (hconstants : ∀ i ∈ c.procedure.instructions, ∀ k ∈ i.operation.constants, k.isNaN = false)
include hconstants

/-- No constant of the procedure is NaN, by assumption, and neither are those that are always there. -/
theorem isNaN_eq_false_of_mem_constants {k : Constant} (hk : k ∈ c.constants) : k.isNaN = false := by
  simp only [constants, List.mem_cons, List.mem_flatMap] at hk
  rcases hk with rfl | rfl | rfl | ⟨i, hi, hk⟩
  · rfl
  · rfl
  · rfl
  · exact hconstants i hi k hk

/-- Nor is a constant that was cast. -/
theorem IsPlain.isNaN_eq_false (h : c.IsPlain v) : v.isNaN = false := by
  cases h with
  | var viaMethods h => rfl
  | constant h => exact isNaN_eq_false_of_mem_constants hconstants h
  | cast h => exact Constant.isNaN_castToIntegral (isNaN_eq_false_of_mem_constants hconstants h)

theorem Expressible.isNaN_eq_false (h : c.Expressible v) : v.isNaN = false := by
  cases h with
  | plain h => exact h.isNaN_eq_false hconstants
  | _ => rfl

/-- **Without NaN among the constants of a procedure no value may be NaN.** -/
theorem canBeNaN_eq_false (hf : f.Over c.scope {v | c.Expressible v}) (hv : c.Expressible v) :
    f.canBeNaN v = false := by
  -- the members of classes can be expressed, so none of them is NaN
  have hclass : ∀ u, Frame.canBeNaN.inClass f u = false := by
    intro u
    unfold Frame.canBeNaN.inClass
    refine (Option.any_eq_false _ _).mpr fun slot _ => List.any_eq_false.mpr fun w hw => ?_
    rw [Expressible.isNaN_eq_false hconstants (hf.partition.values hw)]
    exact Bool.false_ne_true
  have hplain : ∀ {u}, c.IsPlain u → f.canBeNaN u = false := by
    intro u hu
    have hnan := hu.isNaN_eq_false hconstants
    cases hu with
    | var viaMethods h => exact hclass _
    | constant h => exact hnan
    | cast h => exact hnan
  cases hv with
  | plain h => exact hplain h
  | boxed h =>
    have hwrapped := hplain h
    exact hwrapped
  | unboxed h => exact hclass _
  | _ => rfl

end NoNaN

end Context

/-! ## Tests that are of no use -/

/-- Why a test of `left` for the type `right` cannot fail on a value that is not null: the value is null, or it is of a
type that is assignable to the one that is tested for, by what it is, by its declaration, or by what was recorded. -/
def Frame.Justifies (f : Frame) (s : Scope) (left right : Value) : Prop :=
  f.isNull left = true ∨ ∃ t, right.typeOperand? = some t ∧
    ((∃ u, left.typeOperand? = some u ∧ s.hierarchy.isAssignable t u = true) ∨
      ∃ id viaMethods, left = .var id viaMethods ∧
        (s.hierarchy.isAssignable t (s.variableType id) = true ∨
          ∃ a, Sorted.get? left f.facts = some a ∧ ∃ u ∈ a.instanceOf, s.hierarchy.isAssignable t u = true))

/-- A type that is known of a variable is the declared one or was recorded. -/
theorem Frame.mem_instanceOf_factsOf {f : Frame} {s : Scope} {id : VariableId} {viaMethods : Bool} {t : JvmType}
    (h : t ∈ (f.factsOf s (.var id viaMethods)).instanceOf) :
    t = s.variableType id ∨ ∃ a, Sorted.get? (.var id viaMethods) f.facts = some a ∧ t ∈ a.instanceOf := by
  unfold factsOf at h
  cases hfacts : Sorted.get? (.var id viaMethods) f.facts with
  | some a =>
    rw [hfacts] at h
    exact Or.inr ⟨a, rfl, h⟩
  -- nothing is noted, so the type is the declared one
  | none =>
    rw [hfacts] at h
    have hmem : t ∈ ((s.staticType? (.var id viaMethods)).filter JvmType.isReference).toList := h
    rw [Option.mem_toList] at hmem
    exact Or.inl (Option.some.inj (Option.filter_eq_some_iff.mp hmem).1).symm

namespace Visit

variable {c : Context} {f : Frame} {i : Instruction} {left right : Value}

/-- A test that fails on nothing but null is justified. -/
theorem justifies_of_applyInstanceOf
    (h : (f.applyInstanceOf c.scope true left right).holds = true →
      (f.applyInstanceOf c.scope true left right).frame.isNull left = true) : f.Justifies c.scope left right := by
  unfold Frame.applyInstanceOf at h
  cases hid : left.varId? with
  | none =>
    simp only [hid] at h
    exact Or.inl (h trivial)
  | some id =>
    cases ht : right.typeOperand? with
    | none =>
      simp only [hid, ht, true_implies] at h
      exact Or.inl h
    | some t =>
      simp only [hid, ht, if_true] at h
      by_cases hadd : (f.addNotInstanceOf c.scope left t).holds = true
      · -- the type is excluded, so the value was null before
        rw [if_pos hadd] at h
        have hpartition : (f.addNotInstanceOf c.scope left t).frame.partition = f.partition :=
          Frame.partition_addNotInstanceOf f c.scope left t
        exact Or.inl (Frame.isNull_congr hpartition left ▸ h hadd)
      · -- the type is known already
        obtain ⟨u, hu, hassignable⟩ := Frame.has_of_addNotInstanceOf (Bool.eq_false_iff.mpr hadd)
        right
        cases left with
        | var id' viaMethods =>
          refine ⟨t, ht, Or.inr ⟨id', viaMethods, rfl, ?_⟩⟩
          rcases Frame.mem_instanceOf_factsOf hu with rfl | ⟨a, ha, hua⟩
          · exact Or.inl hassignable
          · exact Or.inr ⟨a, ha, u, hua, hassignable⟩
        | _ => cases hid

/-- Types that were compared and found to be of no use to the test are one below the other. -/
theorem justifies_of_observeTypes (h : (observeTypes c left right).useful = false) : f.Justifies c.scope left right := by
  cases right with
  | typed t nullness =>
    cases left with
    | typed u _ =>
      have hassignable : c.hierarchy.isAssignable t u = true := by simpa [observeTypes] using h
      exact Or.inr ⟨t, rfl, Or.inl ⟨u, rfl, hassignable⟩⟩
    | notNull u =>
      have hassignable : c.hierarchy.isAssignable t u = true := by simpa [observeTypes] using h
      exact Or.inr ⟨t, rfl, Or.inl ⟨u, rfl, hassignable⟩⟩
    | _ => cases h
  | _ => cases h

theorem compare?_instanceOf (left right : Value) (negated : Bool) :
    left.compare? right .instanceOf negated =
      if left.isTracked then some (.relation .instanceOf negated left right) else none := by
  unfold Value.compare?
  cases left.isTracked <;> simp [Value.canonical?]

/-- A type test forks on what is tracked, and otherwise looks at the types of its sides. -/
theorem observation_binop_instanceOf (c : Context) (i : Instruction) (f : Frame) :
    (binop c i (some .instanceOf) f).observation =
      let g := f.pop.2.pop.2
      let negated := g.canBeNaN (f.operand 1) || g.canBeNaN (f.operand 0)
      if (f.operand 1).isTracked then
        (fork c i .instanceOf g (f.operand 1) (f.operand 0)
          (.relation .instanceOf negated (f.operand 1) (f.operand 0))).observation
      else observeTypes c (f.operand 1) (f.operand 0) := by
  rw [Frame.operand_one, Frame.operand_zero]
  unfold binop
  simp only [compare?_instanceOf]
  rw [if_neg (by simp)]
  cases f.pop.2.pop.1.isTracked <;> rfl

/-- **A visit that is of no use to a test justifies it,** as long as neither operand may be NaN. -/
theorem justifies_of_not_useful (hleft : f.pop.2.pop.2.canBeNaN (f.operand 1) = false)
    (hright : f.pop.2.pop.2.canBeNaN (f.operand 0) = false)
    (h : (binop c i (some .instanceOf) f).observation.useful = false) :
    f.Justifies c.scope (f.operand 1) (f.operand 0) := by
  rw [observation_binop_instanceOf] at h
  simp only [hleft, hright, Bool.or_false] at h
  split at h
  · -- where the negative outcome is possible, the value is null in it
    refine justifies_of_applyInstanceOf (f := f.pop.2.pop.2) fun hholds => ?_
    have hfollow : follow c f.pop.2.pop.2 (.relation .instanceOf true (f.operand 1) (f.operand 0)) false (f.operand 1)
        (f.operand 0) = some ((f.pop.2.pop.2.applyInstanceOf c.scope true (f.operand 1) (f.operand 0)).frame, []) := by
      unfold follow
      exact if_pos hholds
    simp only [fork, Value.negate, Bool.not_false, hfollow, Option.any_some, decide_true, Bool.true_and] at h
    exact (Bool.not_eq_false' _).mp h
  · exact justifies_of_observeTypes h

end Visit

/-! ## Reports -/

/-- A test is called redundant if it was reached with either outcome and was never useful. -/
theorem Survey.isInstanceofRedundant_iff (s : Survey) (index : Nat) : s.isInstanceofRedundant index = true ↔
    (s.observation index).reached = true ∧ (s.observation index).canBeTrue = true ∧
      (s.observation index).canBeFalse = true ∧ (s.observation index).useful = false := by
  unfold isInstanceofRedundant isConditionConstant Observation.isConstant
  simp only [Bool.and_eq_true, Bool.not_eq_true', Bool.and_eq_false_iff, Bool.or_eq_false_iff, Bool.not_eq_false',
    and_assoc]
  constructor
  · -- it is not constant: never reached, which it was, or seen both ways
    rintro ⟨hreached, hreached' | houtcomes, huseful⟩
    · rw [hreached] at hreached'
      cases hreached'
    · exact ⟨hreached, houtcomes.1, houtcomes.2, huseful⟩
  · rintro ⟨hreached, htrue, hfalse, huseful⟩
    exact ⟨hreached, Or.inr ⟨htrue, hfalse⟩, huseful⟩

namespace Context

variable {c : Context}

/-- **When a complete run finds a test to be redundant:** both outcomes were seen, and no visit was of use to it. -/
theorem run_isInstanceofRedundant_iff (hnumbered : c.procedure.Numbered) {config : AnalysisConfig}
    (hcomplete : (c.run config).complete = true) {i : Instruction} (hi : i ∈ c.procedure.instructions)
    (hoperation : i.operation = .binop (some .instanceOf)) :
    (c.run config).survey.isInstanceofRedundant i.index = true ↔
      (∃ p ∈ c.stateSpace, p.index = i.index ∧ (visit c i p.frame).observation.canBeTrue = true) ∧
        (∃ p ∈ c.stateSpace, p.index = i.index ∧ (visit c i p.frame).observation.canBeFalse = true) ∧
        ∀ p ∈ c.stateSpace, p.index = i.index → (visit c i p.frame).observation.useful = false := by
  -- each part of what a run observes is what some state observes
  have hreached := run_observation_iff hnumbered hcomplete hi hoperation (π := Observation.reached) (fun _ _ => rfl) rfl
  have htrue := run_observation_iff hnumbered hcomplete hi hoperation (π := Observation.canBeTrue) (fun _ _ => rfl) rfl
  have hfalse := run_observation_iff hnumbered hcomplete hi hoperation (π := Observation.canBeFalse) (fun _ _ => rfl) rfl
  have huseful := run_observation_iff hnumbered hcomplete hi hoperation (π := Observation.useful) (fun _ _ => rfl) rfl
  -- a visit of an operator always gets to its end
  have hvisit : ∀ p : Successor, (visit c i p.frame).observation.reached = true := by
    intro p
    rw [visit_binop hoperation]
    exact (Visit.binop_observes _).reached
  rw [Survey.isInstanceofRedundant_iff, htrue, hfalse, ← Bool.not_eq_true, huseful]
  constructor
  · rintro ⟨-, hcanBeTrue, hcanBeFalse, hnone⟩
    refine ⟨hcanBeTrue, hcanBeFalse, fun p hp hindex => ?_⟩
    exact Bool.eq_false_iff.mpr fun h => hnone ⟨p, hp, hindex, h⟩
  · rintro ⟨⟨p, hp, hindex, hseen⟩, hcanBeFalse, hall⟩
    refine ⟨hreached.mpr ⟨p, hp, hindex, hvisit p⟩, ⟨p, hp, hindex, hseen⟩, hcanBeFalse, ?_⟩
    rintro ⟨p, hp, hindex, h⟩
    rw [hall p hp hindex] at h
    cases h

/-- A test that a complete run finds to be redundant is reported. -/
theorem redundantInstanceof_mem_findings {config : AnalysisConfig} (hcomplete : (c.run config).complete = true)
    {i : Instruction} (hi : i ∈ c.procedure.instructions) (hoperation : i.operation = .binop (some .instanceOf))
    (hredundant : (c.run config).survey.isInstanceofRedundant i.index = true) :
    ⟨.redundantInstanceof ((c.run config).survey.observation i.index).possiblyNull, i.index, i.anchor, none⟩ ∈
      (c.analyze config).findings := by
  show _ ∈ (if (c.run config).complete then (c.run config).survey.findings c.procedure else _)
  rw [if_pos hcomplete]
  unfold Survey.findings
  rw [Finding.mem_inOrder]
  refine List.mem_append_left _ (List.mem_reverse.mpr (List.mem_filterMap.mpr ⟨i, hi, ?_⟩))
  simp only [Survey.finding?, hoperation, hredundant, if_true]

/-- **Reports of redundant tests are justified by every visit.** If the analysis of a valid procedure without NaN among
its constants reports a test to be redundant, then the run was complete, the test was visited, both outcomes were seen
over the run, and in every state in which the test was visited the value is null, or is of a type that is assignable to
the one that is tested for, by what it is, by its declaration, or by what was recorded of it in that state. -/
theorem redundant_justified {raw procedure : Procedure} (hvalid : raw.validate = .ok procedure)
    (hconstants : ∀ i ∈ procedure.instructions, ∀ k ∈ i.operation.constants, k.isNaN = false) (methods : MethodIndex)
    (resolver : AnnotationResolver) (hierarchy : ClassHierarchy) (config : AnalysisConfig) :
    let c : Context := ⟨procedure, methods, resolver, hierarchy⟩
    ∀ f ∈ (c.analyze config).findings, ∀ b, f.kind = .redundantInstanceof b →
      (c.run config).complete = true ∧
      (∃ i, procedure.instructions[f.instruction]? = some i ∧ i.operation = .binop (some .instanceOf)) ∧
      (∃ p, c.Visits config p ∧ p.index = f.instruction) ∧
      ((c.run config).survey.observation f.instruction).canBeTrue = true ∧
      ((c.run config).survey.observation f.instruction).canBeFalse = true ∧
      ∀ p, c.Visits config p → p.index = f.instruction →
        p.frame.Justifies c.scope (p.frame.operand 1) (p.frame.operand 0) := by
  intro c f hf b hkind
  have hnumbered : c.procedure.Numbered := Procedure.numbered_of_validate hvalid
  obtain ⟨hcomplete, i, hi, hoperation, hinstruction, hredundant⟩ := exists_of_redundantInstanceof hf hkind
  obtain ⟨-, htrue, hfalse, -⟩ := (Survey.isInstanceofRedundant_iff _ _).mp hredundant
  obtain ⟨⟨q, hq, hqi, -⟩, -, huseless⟩ := (run_isInstanceofRedundant_iff hnumbered hcomplete hi hoperation).mp hredundant
  rw [hinstruction]
  refine ⟨hcomplete, ⟨i, getElem?_index hnumbered hi, hoperation⟩, ⟨q, (visits_iff hcomplete).mpr hq, hqi⟩, htrue, hfalse,
    fun p hp hpi => ?_⟩
  have hspace : p ∈ c.stateSpace := (visits_iff hcomplete).mp hp
  -- neither operand may be NaN
  have hover := hspace.1.frame_over
  obtain ⟨hright, hpop⟩ := c.over_invariant.pop hover
  obtain ⟨hleft, hrest⟩ := c.over_invariant.pop hpop
  have hnotUseful := huseless p hspace hpi
  rw [visit_binop hoperation] at hnotUseful
  refine Visit.justifies_of_not_useful ?_ ?_ hnotUseful
  · rw [Frame.operand_one]
    exact canBeNaN_eq_false hconstants hrest hleft
  · rw [Frame.operand_zero]
    exact canBeNaN_eq_false hconstants hrest hright

/-- A procedure that tests a variable of type string for that type. -/
def testedString : Procedure where
  name := "m"
  sourceFile := none
  vars := [⟨"x", .string, .local, false, []⟩]
  anchors := []
  instructions :=
    [⟨0, none, .push (.var 0 false)⟩,
     ⟨1, none, .push (.typed .string .unknown)⟩,
     ⟨2, none, .binop (some .instanceOf)⟩,
     ⟨3, none, .pop⟩,
     ⟨4, none, .leave⟩]

/-- The test is reported, and justified by the declaration. -/
theorem redundant_justified_of_tested_string :
    let c : Context := ⟨testedString, .empty, AnalysisConfig.standard.resolver, .empty⟩
    testedString.validate = .ok testedString ∧
      (∀ i ∈ testedString.instructions, ∀ k ∈ i.operation.constants, k.isNaN = false) ∧
      ∃ f ∈ (c.analyze .standard).findings, f.kind = .redundantInstanceof true ∧ f.instruction = 2 ∧
        (∃ p, c.Visits .standard p ∧ p.index = 2) ∧
        ∀ p, c.Visits .standard p → p.index = 2 →
          p.frame.Justifies c.scope (p.frame.operand 1) (p.frame.operand 0) := by
  intro c
  have hvalid : testedString.validate = .ok testedString := by decide +kernel
  have hconstants : ∀ i ∈ testedString.instructions, ∀ k ∈ i.operation.constants, k.isNaN = false := by decide
  have hwaves : c.wave 5 = [] ∧ ((List.range 5).flatMap c.wave).length ≤ 50000 := by decide +kernel
  have hcomplete : (c.run .standard).complete = true := run_complete_of_waves hwaves.1 hwaves.2
  let test : Instruction := ⟨2, none, .binop (some .instanceOf)⟩
  have htest : test ∈ c.procedure.instructions := by decide
  -- the test is visited in one state, where both outcomes are possible and the negative one tells that `x` is null
  have hseen : ∃ p ∈ c.wave 2, p.index = test.index := by decide +kernel
  have hobserved : ∀ p ∈ (List.range 5).flatMap c.wave, p.index = test.index →
      (visit c test p.frame).observation = ⟨true, true, true, true, false, false⟩ := by decide +kernel
  have hall : ∀ p ∈ c.stateSpace, p.index = test.index →
      (visit c test p.frame).observation = ⟨true, true, true, true, false, false⟩ := by
    intro p hp hindex
    obtain ⟨k, hk, hmem⟩ := exists_lt_of_reaches hwaves.1 hp.1
    exact hobserved p (List.mem_flatMap.mpr ⟨k, List.mem_range.mpr hk, hmem⟩) hindex
  obtain ⟨q, hq, hindex⟩ := hseen
  have hspace : q ∈ c.stateSpace := mem_stateSpace_of_mem_wave hq (i := test) (by rw [hindex]; rfl)
  have hnumbered : c.procedure.Numbered := Procedure.numbered_of_validate hvalid
  have hredundant : (c.run .standard).survey.isInstanceofRedundant test.index = true := by
    refine (run_isInstanceofRedundant_iff hnumbered hcomplete htest rfl).mpr ⟨⟨q, hspace, hindex, ?_⟩,
      ⟨q, hspace, hindex, ?_⟩, fun p hp hpi => ?_⟩
    · rw [hall q hspace hindex]
    · rw [hall q hspace hindex]
    · rw [hall p hp hpi]
  have hpossiblyNull : ((c.run .standard).survey.observation test.index).possiblyNull = true := by
    refine (run_observation_iff hnumbered hcomplete htest rfl (π := Observation.possiblyNull) (fun _ _ => rfl) rfl).mpr ?_
    exact ⟨q, hspace, hindex, by rw [hall q hspace hindex]⟩
  have hfound := redundantInstanceof_mem_findings hcomplete htest rfl hredundant
  rw [hpossiblyNull] at hfound
  obtain ⟨-, -, hvisited, -, -, hjustified⟩ :=
    redundant_justified hvalid hconstants .empty AnalysisConfig.standard.resolver .empty .standard _ hfound true rfl
  exact ⟨hvalid, hconstants, _, hfound, rfl, rfl, hvisited, hjustified⟩

end Context

end NullCheck
