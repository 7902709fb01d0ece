import NullCheck.Proofs.Visit.Invariant

/-!
# Where visits go on

Whatever the frame, a visit goes on with the next instruction or with the one that the instruction jumps to. Only jumps
lead anywhere else than to the next instruction, so all pairs that are reached lie between the first instruction and the
place right behind the last one, if jumps do not lead past it.

* **`Visit.index_of_mem_binop`**, **`Visit.index_of_mem_conditionalGoto`**: the visits with two outcomes.
* **`Visit.index_of_mem_visit`**: all visits.
-/

namespace NullCheck

namespace Visit

variable {c : Context} {i : Instruction} {f : Frame} {q : Successor}

theorem index_of_mem_advance (hq : q ∈ (advance i f).next) : q.index = i.index + 1 := by
  rw [mem_next_advance.mp hq]

theorem index_of_mem_fork {operator : BinaryOperator} {left right relation : Value}
    (hq : q ∈ (fork c i operator f left right relation).next) : q.index = i.index + 1 := by
  simp only [fork, List.mem_append, Option.mem_toList, Option.map_eq_some_iff] at hq
  rcases hq with ⟨_, _, rfl⟩ | ⟨_, _, rfl⟩ <;> rfl

/-- An operator goes on behind itself, also where it forks. -/
theorem index_of_mem_binop {operator : Option BinaryOperator} (hq : q ∈ (binop c i operator f).next) :
    q.index = i.index + 1 := by
  unfold binop at hq
  simp only at hq
  split at hq
  · exact index_of_mem_advance hq
  · split at hq
    · exact index_of_mem_advance hq
    · split at hq
      · exact index_of_mem_fork hq
      · split at hq
        all_goals exact index_of_mem_advance hq

/-- A jump on a condition goes to its target or goes on. -/
theorem index_of_mem_conditionalGoto {target : Nat} {negated : Bool}
    (hq : q ∈ (conditionalGoto c i target negated f).next) : q.index = target ∨ q.index = i.index + 1 := by
  unfold conditionalGoto at hq
  simp only at hq
  split at hq
  · -- the condition is known
    rename_i b _
    rw [List.mem_singleton.mp hq]
    show (if b ≠ negated then target else i.index + 1) = target ∨
      (if b ≠ negated then target else i.index + 1) = i.index + 1
    by_cases hjump : b ≠ negated
    · exact Or.inl (if_pos hjump)
    · exact Or.inr (if_neg hjump)
  · simp only [goOn, List.mem_append, List.mem_ite_nil_right, List.mem_singleton] at hq
    rcases hq with ⟨_, rfl⟩ | ⟨_, rfl⟩
    · exact Or.inl rfl
    · exact Or.inr rfl
  · rcases List.mem_pair.mp hq with rfl | rfl
    · exact Or.inl rfl
    · exact Or.inr rfl

/-- **A visit goes on with the next instruction or with the one that the instruction jumps to.** -/
theorem index_of_mem_visit (hq : q ∈ (visit c i f).next) :
    q.index = i.index + 1 ∨ i.operation.jumpTarget? = some q.index := by
  unfold visit at hq
  -- one case for each operation
  cases hoperation : i.operation with
  | goto target =>
    simp only [hoperation] at hq
    rw [List.mem_singleton.mp hq]
    exact Or.inr rfl
  | conditionalGoto target negated =>
    simp only [hoperation] at hq
    exact (index_of_mem_conditionalGoto hq).symm.imp_right fun h => congrArg some h.symm
  | leave =>
    simp only [hoperation] at hq
    cases hq
  | binop operator =>
    simp only [hoperation] at hq
    exact Or.inl (index_of_mem_binop hq)
  | assign =>
    simp only [hoperation] at hq
    unfold assign at hq
    simp only at hq
    split at hq
    all_goals exact Or.inl (index_of_mem_advance hq)
  | fieldReference physical =>
    simp only [hoperation] at hq
    split at hq
    all_goals exact Or.inl (index_of_mem_advance hq)
  | typeCast cast =>
    simp only [hoperation] at hq
    unfold typeCast at hq
    simp only at hq
    split at hq
    all_goals exact Or.inl (index_of_mem_advance hq)
  | _ =>
    simp only [hoperation] at hq
    exact Or.inl (index_of_mem_advance hq)

end Visit

end NullCheck
