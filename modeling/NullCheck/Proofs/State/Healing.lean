import NullCheck.Proofs.State.Answers

/-!
# Variables against which nothing speaks

A variable passes the check for null if it shows not to be null in something that does not rest on other variables, or
if nothing is known of it at all. Neither is lost when other values are checked, and when other variables are noted not
to be null after all. One that was noted so itself passes the check from then on, in each of its forms.

## The architecture

* **`Frame.apart_of_new`**: a variable of which nothing is known differs from null once that is demanded.
* **`Frame.Cleared`**: nothing speaks against a form of a variable. It passes the check then:
  `Cleared.checkNotNullable`.
* **`Cleared.applyNotNull`**, **`Cleared.assign`**: that is kept by all that a check does.
* **`Frame.Healed`**: a form of a variable was noted not to be null, and nothing speaks against the others.
-/

namespace NullCheck

/-- An inequality between classes that are in no conflict is noted. -/
theorem EqualityOutcome.apart_of_holds {q p : Partition} {a b : Nat} {negated holds : Bool} {v w : Value}
    (h : EqualityOutcome q a b negated holds p) (hnegated : negated = true) (hholds : holds = true)
    (hconflict : q.inConflict a b = false) (hv : v ∈ q.members a) (hw : w ∈ q.members b) : p.Apart v w := by
  cases h with
  | same => simp [hnegated] at hholds
  | refuted => cases hnegated
  | apart _ hc =>
    rw [hconflict] at hc
    cases hc
  | separated => exact ⟨a, b, hv, hw, decide_eq_true (Partition.mem_distinct_separate.mpr (Or.inl rfl))⟩
  | merged => cases hnegated

namespace Frame

variable {f : Frame} {s : Scope} {id : VariableId} {m : Bool} {v : Value}

/-- **A variable of which nothing is known differs from null once that is demanded,** as its new class is in conflict
with no other. -/
theorem apart_of_new (hf : f.partition.WellFormed) (hnew : ¬f.partition.Contains (.var id m)) :
    (f.applyEquality (.var id m) .null true).frame.partition.Apart (.var id m) .null := by
  have hholds : (f.applyEquality (.var id m) .null true).holds = true := by
    rw [applyEquality_not_null_holds hf rfl, Bool.not_eq_true', Bool.eq_false_iff]
    intro hnull
    cases Partition.eq_of_alike_of_not_contains hnew ((isNull_eq_true_iff hf).mp hnull)
  have hslotted : Slotted f.partition (f.ensureSlots (.var id m) .null).2.2.partition (.var id m) .null
      (f.ensureSlots (.var id m) .null).1 (f.ensureSlots (.var id m) .null).2.1 := slotted_ensureSlots f rfl rfl
  refine (applyEquality_outcome f rfl rfl true).apart_of_holds rfl hholds ?_ hslotted.left_mem hslotted.right_mem
  -- the class holds the variable and nothing else
  have halone : ∀ u ∈ (f.ensureSlots (.var id m) .null).2.2.partition.members (f.ensureSlots (.var id m) .null).1,
      .var id m = u := by
    intro u hu
    refine Partition.eq_of_alike_of_not_contains hnew ?_
    exact (Partition.alike_ensure f.partition (.var id m)).mp
      ((Partition.alike_ensure _ .null).mp (Or.inr ⟨_, hslotted.left_mem, hu⟩))
  rw [Bool.eq_false_iff]
  intro hconflict
  rcases Partition.inConflict_iff.mp hconflict with ⟨⟨k, hk, hconstant⟩, -⟩ | ⟨hnull, -⟩ | ⟨-, u, hu, hboxed⟩
  · rw [← halone k hk] at hconstant
    cases hconstant
  · cases halone _ hnull
  · rw [← halone u hu] at hboxed
    cases hboxed

/-- What shows that it is not null is known to be not null. -/
theorem isNotNull_of_shows (hf : f.partition.WellFormed) {lost : VariableId → Prop}
    (h : f.partition.ShowsNotNull lost (.var id m)) : f.isNotNull (.var id m) = true :=
  (isNotNull_iff_shows hf).mpr (h.of_imp fun _ hfalse => hfalse.elim)

/-- Nothing speaks against a form of a variable: it shows not to be null in something that does not rest on other
variables, or nothing is known of it. -/
def Cleared (f : Frame) (id : VariableId) (m : Bool) : Prop :=
  f.partition.ShowsNotNull (· ≠ id) (.var id m) ∨
    ¬f.partition.Contains (.var id m) ∧ f.hasNullableMark (.var id m) = false

namespace Cleared

/-- **It passes the check.** -/
theorem checkNotNullable (h : f.Cleared id m) (hf : f.partition.WellFormed) :
    f.checkNotNullable (.var id m) = true := by
  by_contra hcheck
  rcases h with hshows | ⟨hnew, hmark⟩
  · -- it shows that it is not null, so it cannot be null or be marked
    have hnotNull := isNotNull_of_shows hf hshows
    rcases (checkNotNullable_eq_false_iff hf).mp (Bool.eq_false_iff.mpr hcheck) with hnull | ⟨hunknown, -⟩
    · rw [not_isNull_of_isNotNull hf rfl hnotNull] at hnull
      cases hnull
    · rw [hnotNull] at hunknown
      cases hunknown
  · rcases (checkNotNullable_eq_false_iff hf).mp (Bool.eq_false_iff.mpr hcheck) with hnull | ⟨-, w, halike, hw⟩
    · cases Partition.eq_of_alike_of_not_contains hnew ((isNull_eq_true_iff hf).mp hnull)
    · rw [← Partition.eq_of_alike_of_not_contains hnew halike, hmark] at hw
      cases hw

/-- **So it holds that it is not null,** and the frame notes it. -/
theorem holds_applyNotNull (h : f.Cleared id m) (hf : f.partition.WellFormed) :
    (f.applyNotNull (.var id m)).holds = true := by
  have hcheck := h.checkNotNullable hf
  unfold Frame.applyNotNull
  rw [if_pos hcheck, applyEquality_not_null_holds hf rfl, Bool.not_eq_true', Bool.eq_false_iff]
  intro hnull
  rw [(checkNotNullable_eq_false_iff hf).mpr (Or.inl hnull)] at hcheck
  cases hcheck

/-- That some value is not null speaks against no variable. -/
theorem applyEquality (h : f.Cleared id m) (hf : f.partition.WellFormed) (v : Value) :
    (f.applyEquality v .null true).frame.Cleared id m := by
  rcases h with hshows | ⟨hnew, hmark⟩
  · exact Or.inl (hshows.mono (grows_applyEquality f v .null true))
  · -- the equation is about the variable itself, or about something else
    by_cases hv : v = .var id m
    · subst hv
      exact Or.inl (Or.inl (apart_of_new hf hnew))
    · refine Or.inr ⟨fun hcontains => ?_, Bool.eq_false_iff.mpr fun hmarked => ?_⟩
      · rcases applyEquality_contains f v .null true hcontains with hold | heq | heq
        · exact hnew hold
        · exact hv heq.symm
        · cases heq
      · rw [(takesMarks_applyEquality f v .null true).of_hasNullableMark hmarked] at hmark
        cases hmark

theorem applyNotNull (h : f.Cleared id m) (hf : f.partition.WellFormed) (v : Value) :
    (f.applyNotNull v).frame.Cleared id m := by
  unfold Frame.applyNotNull
  split
  · exact h.applyEquality hf v
  · exact h

/-- Of a variable that is forgotten nothing is known. -/
theorem of_flushVariable (f : Frame) (id : VariableId) (m : Bool) : (f.flushVariable id).Cleared id m := by
  refine Or.inr ⟨?_, by simp [hasNullableMark_flushVariable, Value.base?]⟩
  rintro ⟨a, ha⟩
  exact of_decide_eq_false (Partition.mem_members_forget.mp ha).2 rfl

theorem flushVariable (h : f.Cleared id m) (x : VariableId) : (f.flushVariable x).Cleared id m := by
  by_cases hx : x = id
  · subst hx
    exact of_flushVariable f x m
  · rcases h with hshows | ⟨hnew, hmark⟩
    · exact Or.inl (shows_flushVariable hshows (fun hne => hne rfl) hx)
    · refine Or.inr ⟨?_, by simp [hasNullableMark_flushVariable, hmark]⟩
      rintro ⟨a, ha⟩
      exact hnew ⟨a, (Partition.mem_members_forget.mp ha).1⟩

theorem recordType (h : f.Cleared id m) (v : Value) (t : JvmType) : (f.recordType s v t).Cleared id m := by
  unfold Cleared
  rwa [partition_recordType, hasNullableMark_recordType]

/-- A value that is not null marks nothing. -/
theorem assign (h : f.Cleared id m) (hf : f.partition.WellFormed) (target : Value) (t : JvmType) :
    (f.assign s target (.notNull t)).Cleared id m := by
  cases target with
  | var x n =>
    rw [assign_eq_adopt f s (by simp)]
    have hflushed : (f.unbind x (.notNull t)).Cleared id m := h.flushVariable x
    exact (hflushed.applyEquality (unbind_wellFormed hf x _) (.var x n)).recordType _ t
  | _ => exact h

end Cleared

/-- A form of a variable was noted not to be null, and nothing speaks against the others. -/
structure Healed (f : Frame) (id : VariableId) (m : Bool) : Prop where
  shows : f.partition.ShowsNotNull (· ≠ id) (.var id m)
  cleared : ∀ n, f.Cleared id n

namespace Healed

/-- **To note that a variable is not null after all heals it.** -/
theorem of_assign (hf : f.partition.WellFormed) (s : Scope) (id : VariableId) (m : Bool) (t : JvmType) :
    (f.assign s (.var id m) (.notNull t)).Healed id m := by
  rw [assign_eq_adopt f s (by simp)]
  have hnew : ∀ n, (f.unbind id (.notNull t)).Cleared id n := fun n => Cleared.of_flushVariable f id n
  refine ⟨?_, fun n => ((hnew n).applyEquality (unbind_wellFormed hf id _) (.var id m)).recordType _ t⟩
  have hcontains : ¬(f.unbind id (.notNull t)).partition.Contains (.var id m) := fun ⟨_, ha⟩ =>
    base?_ne_of_mem_unbind ha rfl
  show (Frame.recordType _ s (.var id m) t).partition.ShowsNotNull _ _
  rw [partition_recordType]
  exact Or.inl (apart_of_new (unbind_wellFormed hf id _) hcontains)

theorem applyNotNull (h : f.Healed id m) (hf : f.partition.WellFormed) (v : Value) :
    (f.applyNotNull v).frame.Healed id m where
  shows := h.shows.mono (grows_applyNotNull f v)
  cleared n := (h.cleared n).applyNotNull hf v

/-- Another variable that is noted not to be null leaves it healed. -/
theorem assign (h : f.Healed id m) (hf : f.partition.WellFormed) {target : Value} (htarget : target.varId? ≠ some id)
    (t : JvmType) : (f.assign s target (.notNull t)).Healed id m where
  shows := shows_assign h.shows (fun hne => hne rfl) s (fun _ hx heq => htarget (heq ▸ hx)) _
  cleared n := (h.cleared n).assign hf target t

end Healed

end Frame

end NullCheck
