import NullCheck.Proofs.State.Healing
import NullCheck.Proofs.State.NotANumber

/-!
# A variable answers for what it was assigned

An assignment forgets a variable and notes what the value that is assigned tells. An atom is made equal to the variable,
and of any other value only its kind is noted. Either way the frame says of the variable from then on what it says of
the value: whether it is null, whether it is not, which constant it is, and whether it may be used where null is not
expected. The last one is asked of a value by its form, and an unboxed value passes though the variable that it comes
from is marked, so there the variable is the stricter of the two.

## The architecture

* **`Frame.AnswersFor`**: a frame says of a variable what it says of a value.
* **`Frame.answersFor_of_alike`**: it does so for atoms that are alike.
* **`Frame.answersFor_adopt_of_not_isAtom`**: it does so for a value that is no atom, by the kind of the value.
* **`Frame.answersFor_assign`**: the headline for frames.
-/

namespace NullCheck

namespace Frame

variable {f : Frame} {s : Scope} {x : VariableId} {n : Bool} {v w : Value}

/-- The frame says of a variable what it says of a value. -/
structure AnswersFor (f : Frame) (target v : Value) : Prop where
  isNull : f.isNull target = f.isNull v
  isNotNull : f.isNotNull target = f.isNotNull v
  constant? : f.constant? target = f.constant? v
  checkNotNullable : (∀ w, v ≠ .unboxed w) → f.checkNotNullable target = f.checkNotNullable v

/-- The stack has no part in it. -/
theorem AnswersFor.push {target : Value} (h : f.AnswersFor target v) (w : Value) : (f.push w).AnswersFor target v :=
  ⟨h.isNull, h.isNotNull, h.constant?, h.checkNotNullable⟩

/-- Values other than variables are checked for null alone, unless they are said to be nullable by their type. -/
theorem checkNotNullable_of_form (f : Frame) (hvar : v.varId? = none) (htyped : ∀ t, v ≠ .typed t .nullable) :
    f.checkNotNullable v = !f.isNull v := by
  unfold checkNotNullable
  cases hnull : f.isNull v with
  | true => rfl
  | false =>
    cases v with
    | var id m => cases hvar
    | typed t nullness =>
      cases nullness with
      | nullable => exact absurd rfl (htyped t)
      | _ => rfl
    | _ => rfl

/-- A variable of which it is known whether it is null may be used unless it is. -/
theorem checkNotNullable_of_decided (hf : f.partition.WellFormed)
    (h : f.isNull (.var x n) = true ∨ f.isNotNull (.var x n) = true) :
    f.checkNotNullable (.var x n) = !f.isNull (.var x n) := by
  cases hnull : f.isNull (.var x n) with
  | true => exact (checkNotNullable_eq_false_iff hf).mpr (Or.inl hnull)
  | false =>
    have hnotNull : f.isNotNull (.var x n) = true := h.resolve_left (by simp [hnull])
    rw [Bool.not_false, ← Bool.not_eq_false]
    intro hcheck
    rcases (checkNotNullable_eq_false_iff hf).mp hcheck with htrue | ⟨hfalse, -⟩
    · rw [hnull] at htrue
      cases htrue
    · rw [hnotNull] at hfalse
      cases hfalse

/-! ## Atoms -/

theorem isNotNull_eq_of_alike (hf : f.partition.WellFormed) (hv : v.isAtom = true) (hw : w.isAtom = true)
    (h : f.partition.Alike v w) : f.isNotNull v = f.isNotNull w := by
  have hvalue : ∀ σ : Valuation ℕ, σ.Satisfies f.partition → σ v = σ w := hf.alike_iff.mp h
  rw [Bool.eq_iff_iff, isNotNull_iff (V := ℕ) hf hv, isNotNull_iff (V := ℕ) hf hw]
  constructor
  · intro hne σ hσ
    exact hvalue σ hσ ▸ hne σ hσ
  · intro hne σ hσ
    exact (hvalue σ hσ).symm ▸ hne σ hσ

/-- **A variable answers for the atoms that it is alike to.** -/
theorem answersFor_of_alike (hf : f.partition.WellFormed) (hv : v.isAtom = true)
    (h : f.partition.Alike (.var x n) v) : f.AnswersFor (.var x n) v := by
  have hanswers : f.AnswersAs (.var x n) f v :=
    answersAs_of_alike hf hf fun k _ => ⟨fun hk => h.symm.trans hf hk, fun hk => h.trans hf hk⟩
  have hnotNull : f.isNotNull (.var x n) = f.isNotNull v := isNotNull_eq_of_alike hf rfl hv h
  -- where the value is decided by its form, so is the variable
  have hdecided : v.varId? = none → (f.isNull v = true ∨ f.isNotNull v = true) →
      f.checkNotNullable (.var x n) = f.checkNotNullable v := by
    intro hvar hknown
    have htyped : ∀ t, v ≠ .typed t .nullable := by
      rintro t rfl
      cases hv
    rw [← hanswers.isNull, ← hnotNull] at hknown
    rw [checkNotNullable_of_form f hvar htyped, checkNotNullable_of_decided hf hknown, hanswers.isNull]
  refine ⟨hanswers.isNull, hnotNull, hanswers.constant?, fun hunboxed => ?_⟩
  cases v with
  | var y m =>
    -- both are asked for the marks of one class
    rw [Bool.eq_iff_iff, ← not_iff_not, Bool.not_eq_true, Bool.not_eq_true, checkNotNullable_eq_false_iff hf,
      checkNotNullable_eq_false_iff hf, hanswers.isNull, hnotNull]
    refine or_congr_right (and_congr_right fun _ => exists_congr fun u => and_congr_left fun _ => ?_)
    exact ⟨fun hu => h.symm.trans hf hu, fun hu => h.trans hf hu⟩
  | constant c =>
    refine hdecided rfl ?_
    cases c with
    | null => exact Or.inl rfl
    | _ => exact Or.inr rfl
  | boxed u => exact hdecided rfl (Or.inr rfl)
  | unboxed u => exact absurd rfl (hunboxed u)
  | _ => cases hv

/-! ## Other values -/

theorem isNull_of_not_isAtom (hf : f.partition.WellFormed) (hv : v.isAtom = false) : f.isNull v = false := by
  rw [← Bool.not_eq_true, isNull_eq_true_iff hf]
  intro halike
  rw [hf.isAtom_of_alike halike rfl] at hv
  cases hv

/-- Of a variable in no class nothing is known. -/
theorem isNotNull_of_not_contains (h : ¬f.partition.Contains (.var x n)) : f.isNotNull (.var x n) = false := by
  have hslot : f.partition.slot? (.var x n) = none := Partition.slot?_eq_none_iff.mpr fun a ha => h ⟨a, ha⟩
  show (f.partition.slot? (.var x n)).any _ = false
  rw [hslot]
  rfl

section Adoption

variable (hf : f.partition.WellFormed) (hnew : ¬f.partition.Contains (.var x n))
  (hmark : f.hasNullableMark (.var x n) = false) (s : Scope)
include hf hnew

/-- A variable of which nothing was known is not null once it was demanded that it is not, whatever type is noted. -/
theorem isNotNull_recordType_applyEquality (t : JvmType) :
    ((f.applyEquality (.var x n) .null true).frame.recordType s (.var x n) t).isNotNull (.var x n) = true := by
  have hshows : (f.applyEquality (.var x n) .null true).frame.partition.ShowsNotNull (fun _ => False) (.var x n) :=
    Or.inl (apart_of_new hf hnew)
  rw [isNotNull_congr (partition_recordType _ s (.var x n) t)]
  exact isNotNull_of_shows (applyEquality_wellFormed hf _ _ _) hshows

include hmark

/-- **A variable of which nothing was known and a value that is no atom are both not null or both not known to be, and
pass the check both or not,** once the kind of the value was noted. -/
theorem nullability_adopt_of_not_isAtom (hv : v.isAtom = false) :
    (f.adopt s (.var x n) v).isNotNull (.var x n) = (f.adopt s (.var x n) v).isNotNull v ∧
      (f.adopt s (.var x n) v).checkNotNullable (.var x n) = (f.adopt s (.var x n) v).checkNotNullable v := by
  have hcleared : f.Cleared x n := Or.inr ⟨hnew, hmark⟩
  have hunknown : f.isNotNull (.var x n) = false := isNotNull_of_not_contains hnew
  have hg : ∀ w, (f.adopt s (.var x n) w).partition.WellFormed := adopt_wellFormed hf (.var x n)
  -- other values than variables pass the check unless they are null, which they are not
  have hpasses : v.varId? = none → (∀ t, v ≠ .typed t .nullable) →
      (f.adopt s (.var x n) v).checkNotNullable v = true := fun hvar htyped => by
    rw [checkNotNullable_of_form _ hvar htyped, isNull_of_not_isAtom (hg v) hv, Bool.not_false]
  -- and a variable that is not null passes it
  have hnotNull : (f.adopt s (.var x n) v).isNotNull (.var x n) = true →
      (f.adopt s (.var x n) v).checkNotNullable (.var x n) = true := fun h => by
    rw [checkNotNullable_of_decided (hg v) (Or.inr h), not_isNull_of_isNotNull (hg v) rfl h, Bool.not_false]
  cases v with
  | notNull t =>
    have htarget := isNotNull_recordType_applyEquality hf hnew s t
    exact ⟨htarget, (hnotNull htarget).trans (hpasses rfl (by simp)).symm⟩
  | typed t nullness =>
    cases nullness with
    | nonNull =>
      have htarget := isNotNull_recordType_applyEquality hf hnew s t
      exact ⟨htarget, (hnotNull htarget).trans (hpasses rfl (by simp)).symm⟩
    | nullable =>
      have hpartition : (f.adopt s (.var x n) (.typed t .nullable)).partition = f.partition :=
        partition_recordType (f.markNullable s (.var x n)) s (.var x n) t
      have hmarked : (f.adopt s (.var x n) (.typed t .nullable)).hasNullableMark (.var x n) = true := by
        show ((f.markNullable s (.var x n)).recordType s (.var x n) t).hasNullableMark (.var x n) = true
        rw [hasNullableMark_recordType]
        unfold hasNullableMark markNullable withFacts
        rw [Sorted.get?_put_self]
        rfl
      have htarget : (f.adopt s (.var x n) (.typed t .nullable)).isNotNull (.var x n) = false :=
        (isNotNull_congr hpartition _).trans hunknown
      refine ⟨htarget, ((checkNotNullable_eq_false_iff (hg _)).mpr (Or.inr ⟨htarget, _, Or.inl rfl, hmarked⟩)).trans ?_⟩
      unfold checkNotNullable
      rw [ite_self]
    | unknown =>
      have hpartition : (f.adopt s (.var x n) (.typed t .unknown)).partition = f.partition :=
        partition_recordType f s (.var x n) t
      refine ⟨(isNotNull_congr hpartition _).trans hunknown, ?_⟩
      exact ((hcleared.recordType (.var x n) t).checkNotNullable (hg (.typed t .unknown))).trans
        (hpasses rfl (by simp)).symm
  | unknown => exact ⟨hunknown, (hcleared.checkNotNullable hf).trans (hpasses rfl (by simp)).symm⟩
  | relation kind negated left right =>
    exact ⟨hunknown, (hcleared.checkNotNullable hf).trans (hpasses rfl (by simp)).symm⟩
  | _ => cases hv

end Adoption

/-! ## Assignments -/

/-- No constant is alike to the target of an assignment just because it is to a value that is no atom. -/
theorem answersAs_adopt_of_not_isAtom (hf : f.partition.WellFormed)
    (hx : ∀ {a u}, u ∈ f.partition.members a → u.base? ≠ some x) (s : Scope) (n : Bool) (hv : v.isAtom = false) :
    (f.adopt s (.var x n) v).AnswersAs (.var x n) (f.adopt s (.var x n) v) v := by
  have hg : (f.adopt s (.var x n) v).partition.WellFormed := adopt_wellFormed hf _ v
  have hno : ∀ {g : Frame} {k : Value}, g.partition.WellFormed → k.isConstant = true → ¬g.partition.Alike v k := by
    intro g k hg hk halike
    rw [hg.isAtom_of_alike halike hk] at hv
    cases hv
  refine answersAs_of_alike hg hg fun k hk => ?_
  exact (alike_adopt_target hf hx s n hk).trans (iff_of_false (hno hf hk) (hno hg hk))

/-- **A variable answers for what it was assigned,** whatever that is, and be it made from the variable itself. -/
theorem answersFor_assign (hf : f.partition.WellFormed) (s : Scope) (x : VariableId) (n : Bool) (v : Value) :
    (f.assign s (.var x n) v).AnswersFor (.var x n) v := by
  by_cases hself : v = .var x n
  · rw [hself]
    exact ⟨rfl, rfl, rfl, fun _ => rfl⟩
  · rw [assign_eq_adopt f s hself]
    have hbefore : (f.unbind x v).partition.WellFormed := unbind_wellFormed hf x v
    cases hv : v.isAtom with
    | true =>
      -- an atom is equated with the target, of which nothing is known, so that cannot fail
      have hholds := holds_of_forgotten hbefore base?_ne_of_mem_unbind n hv
      rw [adopt_of_isAtom _ s _ hv]
      exact answersFor_of_alike (applyEquality_wellFormed hbefore _ _ _) hv
        (alike_of_applyEquality hbefore rfl hv hholds)
    | false =>
      -- the target was forgotten, so it is in no class and has no mark
      have hnew : ¬(f.unbind x v).partition.Contains (.var x n) := fun ⟨_, ha⟩ => base?_ne_of_mem_unbind ha rfl
      have hmark : (f.unbind x v).hasNullableMark (.var x n) = false := by
        show (f.flushVariable x).hasNullableMark (.var x n) = false
        simp [hasNullableMark_flushVariable, Value.base?]
      have hanswers := answersAs_adopt_of_not_isAtom hbefore base?_ne_of_mem_unbind s n hv
      obtain ⟨hnotNull, hcheck⟩ := nullability_adopt_of_not_isAtom hbefore hnew hmark s hv
      exact ⟨hanswers.isNull, hnotNull, hanswers.constant?, fun _ => hcheck⟩

end Frame

end NullCheck
