import NullCheck.Proofs.State.Answers
import NullCheck.Proofs.Visit.Reachable

/-!
# Operands that were evaluated before an assignment

An assignment takes the value and the target from the stack and leaves the target. What lies below are operands that
were evaluated before, say the qualifier of a call in whose argument the assignment stands. What is answered of them
stays, unless they are forms of the variable that is bound: a variable on the stack is a handle, which follows the
variable and not the value that it had when it was pushed.

## The architecture

* **`Context.bound?`**: the variable that an assignment binds, if any.
* **`Frame.standsFor`**: what a form of this variable stands for afterwards.
* **`Visit.assign_answers`**: a visit to an assignment checks the value, binds the variable and pushes the target.
* **`Context.operands_after_assign`**: the headline.
* **`Context.operands_not_kept`**: a handle on the stack does change.
-/

namespace NullCheck

/-- The variable that an assignment binds: a declared one, if it is tracked and not assigned to itself. -/
def Context.bound? (c : Context) (f : Frame) : Option VariableId :=
  (f.operand 1).varId?.filter fun id =>
    f.operand 0 ≠ f.operand 1 && c.procedure.vars[id]?.any fun decl => !decl.isUntracked

/-- What a form of a variable stands for once an assignment bound the variable: the target itself for the value it was
assigned, unless that was another form of the variable. Of all other forms nothing is known. -/
def Frame.standsFor (f : Frame) (id : VariableId) (v : Value) : Value :=
  if v = f.operand 1 ∧ (f.operand 0).base? ≠ some id then f.operand 0 else .unknown

namespace Frame

variable {f g : Frame} {id : VariableId} {v : Value}

/-- After a variable was bound its forms answer as what they stand for, and all other values as they did. -/
theorem answersAs_assign (hg : g.partition.WellFormed) (hanswers : ∀ v, g.AnswersAs v f v) (s : Scope)
    (hid : (f.operand 1).varId? = some id) (hne : f.operand 0 ≠ f.operand 1) :
    (v.base? ≠ some id → (g.assign s (f.operand 1) (f.operand 0)).AnswersAs v f v) ∧
      (v.base? = some id → (g.assign s (f.operand 1) (f.operand 0)).AnswersAs v f (f.standsFor id v)) := by
  unfold standsFor
  cases htarget : f.operand 1 with
  | var id' n =>
    obtain rfl : id' = id := by simpa [htarget, Value.varId?] using hid
    rw [htarget] at hne
    refine ⟨fun hv => (answersAs_assign_of_base?_ne hg s hne hv).trans (hanswers v), fun hv => ?_⟩
    split
    · rename_i hnew
      rw [hnew.1]
      exact (answersAs_assign_target hg s hne hnew.2).trans (hanswers _)
    · rename_i hold
      -- a form of the target that is forgotten and not bound again
      have hother : v ≠ .var id' n ∨ (f.operand 0).base? = some id' := by
        by_cases hvt : v = .var id' n
        · exact Or.inr (by simpa [hvt] using hold)
        · exact Or.inl hvt
      exact (answersAs_assign_unknown hg s hne hv hother).trans (hanswers _)
  | _ => simp [htarget, Value.varId?] at hid

end Frame

namespace Visit

variable {c : Context} {f : Frame} {i : Instruction} {decl : VariableDecl}

theorem stack_pop_pop (f : Frame) : f.pop.2.pop.2.stack = f.stack.drop 2 := by
  show f.stack.tail.tail = f.stack.drop 2
  rw [← List.drop_one, ← List.drop_one, List.drop_drop]

/-- The frame below the operands of an assignment, after the value was checked against the annotations of the target. -/
def checkAssigned (c : Context) (f : Frame) (decl : VariableDecl) : Frame :=
  (if c.resolver.isNotNull decl.annotations then f.pop.2.pop.2.applyNotNull (f.operand 0)
    else ⟨true, f.pop.2.pop.2⟩).frame

/-- The check of an assignment takes both operands. -/
theorem stack_checkAssigned (c : Context) (f : Frame) (decl : VariableDecl) :
    (checkAssigned c f decl).stack = f.stack.drop 2 := by
  unfold checkAssigned
  split
  · exact (Frame.stack_applyNotNull _ _).trans (stack_pop_pop f)
  · exact stack_pop_pop f

theorem checkAssigned_wellFormed (hf : f.partition.WellFormed) (decl : VariableDecl) :
    (checkAssigned c f decl).partition.WellFormed := by
  unfold checkAssigned
  split
  · exact Frame.applyNotNull_wellFormed (f := f.pop.2.pop.2) hf _
  · exact hf

/-- It notes at most that the source is not null, which changes no answer here. -/
theorem checkAssigned_answers (hf : f.partition.WellFormed) (decl : VariableDecl) (v : Value) :
    (checkAssigned c f decl).AnswersAs v f v := by
  unfold checkAssigned
  split
  · exact (Frame.answersAs_applyNotNull (f := f.pop.2.pop.2) hf (f.operand 0) v).trans ⟨rfl, rfl⟩
  · exact ⟨rfl, rfl⟩

/-- A target that is not declared is not bound. -/
theorem assign_next_of_none (h : ((f.operand 1).varId?.bind fun id => c.procedure.vars[id]?) = none) :
    (assign c i f).next = [⟨i.index + 1, f.pop.2.pop.2.push (f.operand 1)⟩] := by
  rw [Frame.operand_one] at h ⊢
  unfold assign
  simp only [h]
  rfl

/-- A target that is declared is bound, unless it is not tracked. -/
theorem assign_next_of_some (h : ((f.operand 1).varId?.bind fun id => c.procedure.vars[id]?) = some decl) :
    (assign c i f).next = [⟨i.index + 1, (if decl.isUntracked then checkAssigned c f decl
      else (checkAssigned c f decl).assign c.scope (f.operand 1) (f.operand 0)).push (f.operand 1)⟩] := by
  unfold checkAssigned
  rw [Frame.operand_one, Frame.operand_zero] at *
  unfold assign
  simp only [h]
  rfl

/-- **An assignment leaves all answers as they were,** but for the forms of the variable that it binds. -/
theorem assign_answers (c : Context) (i : Instruction) (hf : f.partition.WellFormed) : ∃ g : Frame,
    (assign c i f).next = [⟨i.index + 1, g.push (f.operand 1)⟩] ∧ g.stack = f.stack.drop 2 ∧
      ∀ v, ((∀ id, c.bound? f = some id → v.base? ≠ some id) → g.AnswersAs v f v) ∧
        ∀ id, c.bound? f = some id → v.base? = some id → g.AnswersAs v f (f.standsFor id v) := by
  -- where nothing is bound, the answers are those of before
  have hkept : ∀ {g : Frame}, c.bound? f = none → (∀ v, g.AnswersAs v f v) → ∀ v,
      ((∀ id, c.bound? f = some id → v.base? ≠ some id) → g.AnswersAs v f v) ∧
        ∀ id, c.bound? f = some id → v.base? = some id → g.AnswersAs v f (f.standsFor id v) := by
    intro g hbound hanswers v
    rw [hbound]
    exact ⟨fun _ => hanswers v, fun id hid => by cases hid⟩
  cases htarget : (f.operand 1).varId?.bind fun id => c.procedure.vars[id]? with
  | none =>
    have hbound : c.bound? f = none := by
      unfold Context.bound?
      rw [Option.filter_eq_none_iff]
      intro id hid
      rw [hid, Option.bind_some] at htarget
      simp [htarget]
    exact ⟨_, assign_next_of_none htarget, stack_pop_pop f, hkept hbound fun v => ⟨rfl, rfl⟩⟩
  | some decl =>
    obtain ⟨id, hid, hdecl⟩ := Option.bind_eq_some_iff.mp htarget
    have hbound : c.bound? f = if f.operand 0 ≠ f.operand 1 ∧ decl.isUntracked = false then some id else none := by
      unfold Context.bound?
      rw [hid, Option.filter_some, hdecl]
      simp
    have hstack := stack_checkAssigned c f decl
    have hwellFormed : (checkAssigned c f decl).partition.WellFormed := checkAssigned_wellFormed hf decl
    have hanswers : ∀ v, (checkAssigned c f decl).AnswersAs v f v := checkAssigned_answers hf decl
    refine ⟨_, assign_next_of_some htarget, ?_, ?_⟩
    · split
      · exact hstack
      · rw [Frame.stack_assign, hstack]
    · split
      · rename_i huntracked
        exact hkept (by simp [hbound, huntracked]) hanswers
      · rename_i htracked
        by_cases hsame : f.operand 0 = f.operand 1
        · have hunchanged : (checkAssigned c f decl).assign c.scope (f.operand 1) (f.operand 0) =
              checkAssigned c f decl := by
            unfold Frame.assign
            rw [hid]
            exact if_pos hsame
          rw [hunchanged]
          exact hkept (by simp [hbound, hsame]) hanswers
        · rw [if_pos ⟨hsame, Bool.not_eq_true _ ▸ htracked⟩] at hbound
          rw [hbound]
          intro v
          obtain ⟨hothers, hforms⟩ := Frame.answersAs_assign (v := v) hwellFormed hanswers c.scope hid hsame
          refine ⟨fun hv => hothers (hv id rfl), fun id' hid' hv => ?_⟩
          obtain rfl := Option.some.inj hid'
          exact hforms hv

end Visit

namespace Context

variable {c : Context}

/-- **Operands that were evaluated before an assignment are kept,** unless they are forms of the variable that is bound.
In every state in which an assignment is visited, the visit has one successor, with the target on the operands below.
Of each operand that is no form of the variable it is answered as before whether it is null, and which constant it is.
A form of the variable is a handle: the target answers for the value that it was assigned, and the other forms, or the
target if it was assigned one of them, for something of which nothing is known. -/
theorem operands_after_assign {p : Successor} (hp : p ∈ c.stateSpace) {i : Instruction}
    (hi : c.procedure.instructions[p.index]? = some i) (hoperation : i.operation = .assign) :
    ∃ q, c.nexts p = [q] ∧ q.frame.stack = p.frame.operand 1 :: p.frame.stack.drop 2 ∧
      ∀ e ∈ p.frame.stack.drop 2,
        ((∀ id, c.bound? p.frame = some id → e.base? ≠ some id) →
          q.frame.isNull e = p.frame.isNull e ∧ q.frame.constant? e = p.frame.constant? e) ∧
        ∀ id, c.bound? p.frame = some id → e.base? = some id →
          q.frame.isNull e = p.frame.isNull (p.frame.standsFor id e) ∧
            q.frame.constant? e = p.frame.constant? (p.frame.standsFor id e) := by
  have hwellFormed : p.frame.partition.WellFormed := hp.1.reachable.wellFormed
  obtain ⟨g, hnext, hstack, hanswers⟩ := Visit.assign_answers c i hwellFormed
  -- an assignment has one successor, that of its visit
  have hnexts : c.nexts p = (Visit.assign c i p.frame).next := by
    unfold nexts
    rw [hi]
    simp only [visit, hoperation]
  refine ⟨⟨i.index + 1, g.push (p.frame.operand 1)⟩, hnexts.trans hnext, ?_, fun e _ => ?_⟩
  · show p.frame.operand 1 :: g.stack = _
    rw [hstack]
  · obtain ⟨hothers, hforms⟩ := hanswers e
    exact ⟨fun he => ⟨(hothers he).isNull, (hothers he).constant?⟩,
      fun id hid he => ⟨(hforms id hid he).isNull, (hforms id hid he).constant?⟩⟩

/-- A procedure that calls a method on a string `x`, with an assignment of null to `x` as the argument. -/
def reassignedQualifier : Procedure where
  name := "m"
  sourceFile := none
  vars := [⟨"x", .classType "java/lang/String", .parameter, false, []⟩]
  anchors := []
  instructions :=
    [⟨0, none, .push (.var 0 false)⟩,
     ⟨1, none, .push (.var 0 false)⟩,
     ⟨2, none, .push (.constant .null)⟩,
     ⟨3, none, .assign⟩,
     ⟨4, none, .methodCall ⟨none, [⟨none, none⟩], none, .regular, false, none, false, .empty⟩⟩,
     ⟨5, none, .pop⟩,
     ⟨6, none, .leave⟩]

/-- The qualifier was pushed before the assignment, when it was not known to be null; afterwards it is null. -/
theorem operands_not_kept :
    let c : Context := ⟨reassignedQualifier, .empty, AnalysisConfig.standard.resolver, .empty⟩
    reassignedQualifier.validate = .ok reassignedQualifier ∧
      ∃ p ∈ c.stateSpace, ∃ i, c.procedure.instructions[p.index]? = some i ∧ i.operation = .assign ∧
        ∃ e ∈ p.frame.stack.drop 2, ∃ q ∈ c.nexts p,
          q.frame.isNull e ≠ p.frame.isNull e ∧ q.frame.constant? e ≠ p.frame.constant? e := by
  intro c
  have hstate : ∃ p ∈ c.wave 3, p.index = 3 ∧ ∃ e ∈ p.frame.stack.drop 2, ∃ q ∈ c.nexts p,
      q.frame.isNull e ≠ p.frame.isNull e ∧ q.frame.constant? e ≠ p.frame.constant? e := by decide +kernel
  obtain ⟨p, hp, hindex, hchanged⟩ := hstate
  have hat : c.procedure.instructions[p.index]? = some ⟨3, none, .assign⟩ := by
    rw [hindex]
    rfl
  exact ⟨by decide +kernel, p, mem_stateSpace_of_mem_wave hp hat, _, hat, rfl, hchanged⟩

/-- The qualifier answers for null, which `x` was assigned. -/
theorem operands_after_assign_of_null :
    let c : Context := ⟨reassignedQualifier, .empty, AnalysisConfig.standard.resolver, .empty⟩
    ∃ p ∈ c.stateSpace, c.procedure.instructions[p.index]? = some ⟨3, none, .assign⟩ ∧
      .var 0 false ∈ p.frame.stack.drop 2 ∧ p.frame.isNull (.var 0 false) = false ∧
      ∃ q, c.nexts p = [q] ∧ q.frame.isNull (.var 0 false) = true ∧
        q.frame.constant? (.var 0 false) = some .null := by
  intro c
  have hstate : ∃ p ∈ c.wave 3, p.index = 3 ∧ .var 0 false ∈ p.frame.stack.drop 2 ∧
      p.frame.isNull (.var 0 false) = false ∧ c.bound? p.frame = some 0 ∧
      p.frame.standsFor 0 (.var 0 false) = .null ∧ p.frame.isNull .null = true ∧
      p.frame.constant? .null = some .null := by decide +kernel
  obtain ⟨p, hp, hindex, hmem, hnotNull, hbound, hstands, hnull, hconstant⟩ := hstate
  have hat : c.procedure.instructions[p.index]? = some ⟨3, none, .assign⟩ := by
    rw [hindex]
    rfl
  have hspace : p ∈ c.stateSpace := mem_stateSpace_of_mem_wave hp hat
  obtain ⟨q, hnext, -, hanswers⟩ := operands_after_assign hspace hat rfl
  obtain ⟨hnull', hconstant'⟩ := (hanswers _ hmem).2 0 hbound rfl
  rw [hstands] at hnull' hconstant'
  exact ⟨p, hspace, hat, hmem, hnotNull, q, hnext, hnull'.trans hnull, hconstant'.trans hconstant⟩

end Context

end NullCheck
