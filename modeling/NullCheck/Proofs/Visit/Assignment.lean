import NullCheck.Proofs.Convergence
import NullCheck.Proofs.State.Assignment
import NullCheck.Proofs.Visit.Operands

/-!
# What a variable was assigned is read back

To visit an assignment leaves the target on the stack, and the frame then says of the target what it says of the value:
whether it is null or not, which constant it is, and whether it may be used where null is not expected. That the value
was checked before, for a target that is annotated not to be null, changes nothing of that.

## The architecture

* **`Context.lt_of_operand`**: a variable on the stack is a declared one.
* **`Context.assigned_read_back`**: the headline, off `Frame.answersFor_assign`.
-/

namespace NullCheck

namespace Context

variable {c : Context} {p : Successor}

/-- A variable that comes to stand on the stack in a run is declared. -/
theorem lt_of_operand (hp : c.Reaches p) {depth : Nat} {x : VariableId} {n : Bool}
    (h : p.frame.operand depth = .var x n) : x < c.procedure.vars.length := by
  have hexpressible : c.Expressible (p.frame.operand depth) := c.over_invariant.operand hp.frame_over depth
  rw [h] at hexpressible
  cases hexpressible with
  | plain hplain =>
    cases hplain with
    | var _ hlt => exact hlt

/-- **What a variable was assigned is read back.** Let an assignment be visited in a state of a run, to a variable that
is no volatile field. Then the visit has one successor, with the variable on top of the operands below, and in it the
variable answers for the value that was assigned, whatever that is. -/
theorem assigned_read_back (hp : p ∈ c.stateSpace) {i : Instruction}
    (hi : c.procedure.instructions[p.index]? = some i) (hoperation : i.operation = .assign) {x : VariableId} {n : Bool}
    (htarget : p.frame.operand 1 = .var x n)
    (htracked : ∀ decl, c.procedure.vars[x]? = some decl → decl.isUntracked = false) :
    ∃ q, c.nexts p = [q] ∧ q.frame.stack = .var x n :: p.frame.stack.drop 2 ∧
      q.frame.AnswersFor (.var x n) (p.frame.operand 0) := by
  have hwellFormed : p.frame.partition.WellFormed := hp.1.reachable.wellFormed
  -- a variable on the stack of a state is declared
  obtain ⟨decl, hdecl⟩ : ∃ decl, c.procedure.vars[x]? = some decl :=
    ⟨_, List.getElem?_eq_getElem (lt_of_operand hp.1 htarget)⟩
  have hdeclared : ((p.frame.operand 1).varId?.bind fun id => c.procedure.vars[id]?) = some decl := by
    rw [htarget]
    exact hdecl
  -- the target is tracked, so the one successor is the assignment
  have hnexts : c.nexts p = [⟨i.index + 1, ((Visit.checkAssigned c p.frame decl).assign c.scope (.var x n)
      (p.frame.operand 0)).push (.var x n)⟩] := by
    unfold nexts
    rw [hi]
    simp only [visit, hoperation]
    rw [Visit.assign_next_of_some hdeclared, htracked decl hdecl, htarget]
    rfl
  refine ⟨_, hnexts, ?_, ?_⟩
  · show .var x n :: Frame.stack (Frame.assign _ _ _ _) = _
    rw [Frame.stack_assign, Visit.stack_checkAssigned]
  · exact (Frame.answersFor_assign (Visit.checkAssigned_wellFormed hwellFormed decl) c.scope x n _).push _

/-- A procedure that assigns to an integer object `x` its own boxed form. -/
def reboxed : Procedure where
  name := "m"
  sourceFile := none
  vars := [⟨"x", .classType "java/lang/Integer", .local, false, ["org.jetbrains.annotations.NotNull"]⟩]
  anchors := []
  instructions :=
    [⟨0, none, .push (.var 0 false)⟩,
     ⟨1, none, .push (.var 0 false)⟩,
     ⟨2, none, .methodCall ⟨none, [], none, .boxing, false, none, false, .empty⟩⟩,
     ⟨3, none, .assign⟩,
     ⟨4, none, .leave⟩]

/-- The boxed form of `x` that is on the stack is one of the new `x` then, and neither may be null. -/
theorem assigned_read_back_of_reboxed :
    let c : Context := ⟨reboxed, .empty, AnalysisConfig.standard.resolver, .empty⟩
    ∃ p ∈ c.stateSpace, c.procedure.instructions[p.index]? = some ⟨3, none, .assign⟩ ∧
      p.frame.operand 1 = .var 0 false ∧
      (∀ decl, c.procedure.vars[0]? = some decl → decl.isUntracked = false) ∧
      p.frame.operand 0 = .boxed (.var 0 false) ∧
      ∃ q, c.nexts p = [q] ∧ q.frame.peek? = some (.var 0 false) ∧ q.frame.isNotNull (.var 0 false) = true ∧
        q.frame.checkNotNullable (.var 0 false) = q.frame.checkNotNullable (.boxed (.var 0 false)) := by
  intro c
  have hstate : ∃ p ∈ c.wave 3, p.index = 3 ∧ p.frame.operand 1 = .var 0 false ∧
      p.frame.operand 0 = .boxed (.var 0 false) := by decide +kernel
  obtain ⟨p, hp, hindex, htarget, hsource⟩ := hstate
  have hat : c.procedure.instructions[p.index]? = some ⟨3, none, .assign⟩ := by
    rw [hindex]
    rfl
  have htracked : ∀ decl, c.procedure.vars[0]? = some decl → decl.isUntracked = false := by
    rintro decl hdecl
    rw [← Option.some.inj hdecl]
    rfl
  have hspace : p ∈ c.stateSpace := mem_stateSpace_of_mem_wave hp hat
  obtain ⟨q, hnext, hstack, hanswers⟩ := assigned_read_back hspace hat rfl htarget htracked
  rw [hsource] at hanswers
  refine ⟨p, hspace, hat, htarget, htracked, hsource, q, hnext, ?_, hanswers.isNotNull, ?_⟩
  · unfold Frame.peek?
    rw [hstack]
    rfl
  · exact hanswers.checkNotNullable (by simp)

end Context

end NullCheck
