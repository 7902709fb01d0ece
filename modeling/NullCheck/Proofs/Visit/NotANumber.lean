import NullCheck.Proofs.State.NotANumber
import NullCheck.Proofs.Visit.Invariant

/-!
# Comparisons that NaN takes part in

A comparison goes on with each outcome that it may have, as long as NaN takes no part in it. For NaN the relation is
turned around that stands for the comparison, if one of the values is known to be NaN. That is right for an equality of
two values that are NaN both, and for some orderings of a value with itself; in other cases the one outcome that is
possible is left out. This module tells exactly in which.

## The architecture

* **`Visit.Covers`**: a visit goes on with an outcome, in a frame that a valuation admits.
* **`Visit.follow_admits_iff`**: an outcome is followed just if its relation holds and the valuation still admits the
  frame; that one of two equal values is noted not to be null loses nothing.
* **`Visit.fork_covers_iff`**, **`Visit.compareConstants_covers_iff`**: the same for the visit of a comparison.
* **`Frame.Misses`**: the cases that are left out.
* **`comparison_covered_iff`**: the headline.
* **`comparison_not_covered`**: a case is left out.
-/

namespace NullCheck

/-- A value is that of a variable, or a constant. -/
inductive Value.IsOperand : Value → Prop
  | var (id : VariableId) (viaMethods : Bool) : IsOperand (.var id viaMethods)
  | constant (k : Constant) : IsOperand (.constant k)

theorem Value.IsOperand.isAtom {v : Value} (h : v.IsOperand) : v.isAtom = true := by
  cases h <;> rfl

theorem Value.IsOperand.isConstant_or_isTracked {v : Value} (h : v.IsOperand) :
    v.isConstant = true ∨ v.isTracked = true := by
  cases h with
  | var => exact Or.inr rfl
  | constant => exact Or.inl rfl

/-- A constant that is compared is NaN only as the one that documents can name. -/
theorem Datum.IsScalar.eq_nan {k : Constant} (h : (Datum.constant k).IsScalar) (hk : k.isNaN = true) : k = .nan := by
  generalize hd : Datum.constant k = d at h
  cases h with
  | nan => exact Datum.constant.inj hd
  | null | boolean | integer =>
    cases hd
    cases hk

/-! ## What may be NaN -/

namespace Frame

variable {f : Frame} {σ : Valuation Datum} {v : Value}

/-- What is known to be NaN is NaN. -/
theorem eq_nan_of_canBeNaN (hσ : σ.Admits f.partition) (hself : ∀ k, σ (.constant k) = .constant k)
    (hv : v.IsOperand) (hscalar : (σ v).IsScalar) (h : f.canBeNaN v = true) : σ v = .nan := by
  -- there is one NaN among scalars
  have hconstant : ∀ k : Constant, k.isNaN = true → σ v = .constant k → σ v = .nan := by
    intro k hk heq
    rw [heq] at hscalar ⊢
    rw [hscalar.eq_nan hk]
    rfl
  cases hv with
  | constant k => exact hconstant k h (hself k)
  | var id m =>
    obtain ⟨a, ha, hany⟩ := (Option.any_eq_true _ _).mp h
    obtain ⟨w, hw, hnan⟩ := List.any_eq_true.mp hany
    cases w with
    | constant k =>
      exact hconstant k hnan ((hσ.equal (Partition.mem_members_of_slot? ha) hw).trans (hself k))
    | _ => cases hnan

end Frame

namespace Visit

variable {c : Context} {i : Instruction} {f : Frame} {σ : Valuation Datum} {left right : Value} {outcome : Bool}

/-- A visit goes on with an outcome on top of the stack, or with nothing known of it, in a frame that the valuation
admits. -/
def Covers (v : Visit) (σ : Valuation Datum) (outcome : Bool) : Prop :=
  ∃ q ∈ v.next, (q.frame.operand 0 = .boolean outcome ∨ q.frame.operand 0 = .unknown) ∧
    σ.Admits q.frame.partition

/-! ## Relations -/

/-- What shows that it is not null has another value than `null`. -/
theorem ne_null_of_admits (hf : f.partition.WellFormed) (hσ : σ.Admits f.partition)
    (hself : ∀ k, σ (.constant k) = .constant k) {v : Value} (hshows : showsNotNull f v = true) : σ v ≠ .null := by
  unfold showsNotNull at hshows
  split at hshows
  · exact Frame.ne_null_of_admits hf hσ rfl hself hshows
  · rw [hself]
    exact fun h => by cases h
  · cases hshows

section Relations

variable (hf : f.partition.WellFormed) (hself : ∀ k, σ (.constant k) = .constant k) (hleft : left.IsOperand)
  (hright : right.IsOperand)
include hf hself hleft hright

/-- Of two values that are both null or both not, either may be noted not to be null when the other is not. -/
theorem shareNotNull_admits_iff (hnull : σ.Admits f.partition → (σ left = .null ↔ σ right = .null)) :
    σ.Admits (shareNotNull c f left right).1.partition ↔ σ.Admits f.partition := by
  constructor
  · intro hσ
    obtain heq | ⟨other, condition, hother, hcompare, heq⟩ := shareNotNull_cases c f left right
    · rwa [heq] at hσ
    · rw [heq, Value.eq_of_compare?_null hcompare] at hσ
      have hatom : other.isAtom = true := by
        rcases hother with rfl | rfl
        · exact hleft.isAtom
        · exact hright.isAtom
      exact Frame.admits_of_applyEquality hf hatom rfl hσ
  · intro hσ
    -- whichever value is noted, it is not null
    have hother : ∀ v, (if showsNotNull f left then some right else if showsNotNull f right then some left else none) =
        some v → v.isAtom = true ∧ σ v ≠ .null := by
      intro v hv
      split at hv
      · rename_i hshows
        cases hv
        exact ⟨hright.isAtom, fun h => ne_null_of_admits hf hσ hself hshows ((hnull hσ).mpr h)⟩
      · split at hv
        · rename_i hshows
          cases hv
          exact ⟨hleft.isAtom, fun h => ne_null_of_admits hf hσ hself hshows ((hnull hσ).mp h)⟩
        · cases hv
    unfold shareNotNull
    simp only
    split
    · rename_i condition hcondition
      obtain ⟨v, hv, hcompare⟩ := Option.bind_eq_some_iff.mp hcondition
      rw [Value.eq_of_compare?_null hcompare]
      obtain ⟨hatom, hne⟩ := hother v hv
      have hdiffers : σ v ≠ σ .null := fun h => hne (h.trans (hself .null))
      exact ((Frame.admits_applyEquality_not_iff hf hσ hatom rfl).mpr
        ⟨Or.inl hdiffers, fun halike => hdiffers (hσ.alike halike)⟩).2
    · exact hσ

/-- **An outcome is followed just if its relation holds,** and nothing is lost beside what the relation says. -/
theorem follow_admits_iff {kind : RelationKind} {negated : Bool} {v w : Value}
    (hnull : negated = false → (f.applyRelation c.scope kind negated v w).holds = true →
      σ.Admits (f.applyRelation c.scope kind negated v w).frame.partition → (σ left = .null ↔ σ right = .null)) :
    (∃ r, follow c f (.relation kind negated v w) (!negated) left right = some r ∧ σ.Admits r.1.partition) ↔
      (f.applyRelation c.scope kind negated v w).holds = true ∧
        σ.Admits (f.applyRelation c.scope kind negated v w).frame.partition := by
  have happly : f.applyCondition c.scope (.relation kind negated v w) = f.applyRelation c.scope kind negated v w := rfl
  have hwellFormed := Frame.applyRelation_wellFormed (s := c.scope) hf kind negated v w
  unfold follow
  simp only [happly]
  split
  · rename_i hholds
    simp only [Option.some.injEq, exists_eq_left', hholds, true_and]
    -- what the sides share is noted only on the side where they are equal
    cases negated with
    | true => exact Iff.rfl
    | false => exact shareNotNull_admits_iff hwellFormed hself hleft hright (hnull rfl hholds)
  · rename_i hholds
    simp [hholds]

end Relations

/-- **A comparison covers an outcome just if it follows it.** -/
theorem fork_covers_iff {operator : BinaryOperator} {kind : RelationKind} {negated : Bool} {v w : Value} :
    (fork c i operator f left right (.relation kind negated v w)).Covers σ outcome ↔
      ∃ r, follow c f (.relation kind (negated ^^ !outcome) v w) (!(negated ^^ !outcome)) left right = some r ∧
        σ.Admits r.1.partition := by
  simp only [Covers, fork, Value.negate, List.mem_append, Option.mem_toList, Option.map_eq_some_iff]
  constructor
  · -- the successor pushes what it was followed for
    rintro ⟨q, ⟨r, hr, rfl⟩ | ⟨r, hr, rfl⟩, htop, hadmits⟩
    · rcases htop with htop | htop
      · obtain rfl : true = outcome := by simpa [Frame.operand, Frame.push, Value.boolean] using htop
        refine ⟨r, ?_, hadmits⟩
        rwa [Bool.not_true, Bool.xor_false]
      · cases htop
    · rcases htop with htop | htop
      · obtain rfl : false = outcome := by simpa [Frame.operand, Frame.push, Value.boolean] using htop
        refine ⟨r, ?_, hadmits⟩
        rwa [Bool.not_false, Bool.xor_true, Bool.not_not]
      · cases htop
  · rintro ⟨r, hr, hadmits⟩
    cases outcome with
    | true =>
      rw [Bool.not_true, Bool.xor_false] at hr
      exact ⟨_, Or.inl ⟨r, hr, rfl⟩, Or.inl rfl, hadmits⟩
    | false =>
      rw [Bool.not_false, Bool.xor_true, Bool.not_not] at hr
      exact ⟨_, Or.inr ⟨r, hr, rfl⟩, Or.inl rfl, hadmits⟩

/-- Two constants are compared by identity, and the outcome is turned around if one of them may be NaN. -/
theorem compareConstants_covers_iff (hσ : σ.Admits f.partition) {operator : BinaryOperator} :
    (compareConstants i f operator left right).Covers σ outcome ↔
      outcome = (decide (left = right) ^^ (decide (operator = .ne) ^^ (f.canBeNaN left || f.canBeNaN right))) := by
  simp only [Covers, compareConstants, mem_next_advance, exists_eq_left]
  constructor
  · rintro ⟨htop | htop, -⟩
    · simpa [Frame.operand, Frame.push, Value.boolean, eq_comm] using htop
    · cases htop
  · rintro rfl
    exact ⟨Or.inl rfl, hσ⟩

section Comparisons

variable (hf : f.partition.WellFormed) (hσ : σ.Admits f.partition) (hself : ∀ k, σ (.constant k) = .constant k)
  (hleft : left.IsOperand) (hright : right.IsOperand) {operator : BinaryOperator} {nan : Bool} {relation : Value}
  (hrelation : left.compare? right operator nan = some relation)
include hf hσ hself hleft hright hrelation

/-- **Which equalities cover an outcome.** -/
theorem equality_covers_iff (hoperator : operator = .eq ∨ operator = .ne) :
    (fork c i operator f left right relation).Covers σ outcome ↔
      if (nan ^^ decide (operator = .ne)) ^^ !outcome then
        (σ left).Differs (σ right) ∧ ¬f.partition.Alike left right
      else σ left = σ right ∧ ¬f.partition.Apart left right := by
  -- an equation, or its negation, that holds and admits the valuation
  have happlied : ∀ {v w : Value} (negated : Bool), v.IsOperand → w.IsOperand →
      ((f.applyRelation c.scope .eq negated v w).holds = true ∧
        σ.Admits (f.applyRelation c.scope .eq negated v w).frame.partition ↔
          if negated then (σ v).Differs (σ w) ∧ ¬f.partition.Alike v w
          else σ v = σ w ∧ ¬f.partition.Apart v w) := by
    intro v w negated hv hw
    cases negated with
    | true => exact Frame.admits_applyEquality_not_iff hf hσ hv.isAtom hw.isAtom
    | false => exact Frame.admits_applyEquality_iff hf hσ hv.isAtom hw.isAtom
  obtain ⟨kind, flip, hcanonical, hcases⟩ := Value.exists_of_compare? hrelation
  obtain ⟨rfl, rfl⟩ : kind = .eq ∧ flip = decide (operator = .ne) := by
    rcases hoperator with rfl | rfl <;> cases hcanonical <;> exact ⟨rfl, rfl⟩
  -- the condition has the sides in order, or exchanged
  rcases hcases with rfl | ⟨-, rfl⟩
  · rw [fork_covers_iff, follow_admits_iff hf hself hleft hright]
    · exact happlied _ hleft hright
    · intro hnegated hholds hadmits
      have heq := (happlied _ hleft hright).mp ⟨hholds, hadmits⟩
      rw [if_neg (by simp [hnegated])] at heq
      rw [heq.1]
  · rw [fork_covers_iff, follow_admits_iff hf hself hleft hright]
    · refine (happlied _ hright hleft).trans ?_
      split
      · exact and_congr ⟨Datum.Differs.symm, Datum.Differs.symm⟩ (not_congr ⟨.symm, .symm⟩)
      · exact and_congr eq_comm (not_congr ⟨.symm, .symm⟩)
    · intro hnegated hholds hadmits
      have heq := (happlied _ hright hleft).mp ⟨hholds, hadmits⟩
      rw [if_neg (by simp [hnegated])] at heq
      rw [heq.1]

/-- An ordering covers an outcome just if its relation holds; the frame stays as it is. -/
theorem ordering_covers_iff (hcomparison : operator.isComparison = true) (heq : operator ≠ .eq) (hne : operator ≠ .ne)
    (hnull : σ left ≠ .null ∧ σ right ≠ .null) :
    ∃ kind flip, Value.canonical? operator = some (kind, flip) ∧ (kind = .lt ∨ kind = .gt) ∧
      flip = (!decide (operator = .lt ∨ operator = .gt)) ∧ ∃ kind' v w,
        (kind' = kind ∧ v = left ∧ w = right ∨ kind' = kind.flipped ∧ v = right ∧ w = left) ∧ ∀ outcome,
          (fork c i operator f left right relation).Covers σ outcome ↔
            (f.applyOrdering kind' ((nan ^^ flip) ^^ !outcome) v w).holds = true := by
  obtain ⟨kind, flip, hcanonical, hcases⟩ := Value.exists_of_compare? hrelation
  obtain ⟨hkind, hflip⟩ : (kind = .lt ∨ kind = .gt) ∧ flip = !decide (operator = .lt ∨ operator = .gt) := by
    cases operator with
    | eq => exact absurd rfl heq
    | ne => exact absurd rfl hne
    | lt | ge =>
      cases hcanonical
      exact ⟨Or.inl rfl, rfl⟩
    | gt | le =>
      cases hcanonical
      exact ⟨Or.inr rfl, rfl⟩
    | _ => cases hcomparison
  -- an order adds nothing to the frame, so it is admitted if it holds
  have hcovers : ∀ {kind' : RelationKind} {v w : Value}, kind' = .lt ∨ kind' = .gt → ∀ outcome,
      (fork c i operator f left right (.relation kind' (nan ^^ flip) v w)).Covers σ outcome ↔
        (f.applyOrdering kind' ((nan ^^ flip) ^^ !outcome) v w).holds = true := by
    intro kind' v w hkind' outcome
    rw [fork_covers_iff, follow_admits_iff hf hself hleft hright fun _ _ _ => iff_of_false hnull.1 hnull.2]
    have happly : f.applyRelation c.scope kind' ((nan ^^ flip) ^^ !outcome) v w =
        f.applyOrdering kind' ((nan ^^ flip) ^^ !outcome) v w := by
      rcases hkind' with rfl | rfl <;> rfl
    rw [happly, Frame.frame_applyOrdering]
    exact and_iff_left hσ
  refine ⟨kind, flip, hcanonical, hkind, hflip, ?_⟩
  rcases hcases with rfl | ⟨-, rfl⟩
  · exact ⟨kind, left, right, Or.inl ⟨rfl, rfl, rfl⟩, hcovers hkind⟩
  · have hflipped : kind.flipped = .lt ∨ kind.flipped = .gt := by
      rcases hkind with rfl | rfl
      · exact Or.inr rfl
      · exact Or.inl rfl
    exact ⟨kind.flipped, right, left, Or.inr ⟨rfl, rfl, rfl⟩, hcovers hflipped⟩

end Comparisons

end Visit

/-! ## The cases that are left out -/

/-- The outcome of a comparison is left out. -/
inductive Frame.Misses (f : Frame) (σ : Valuation Datum) (operator : BinaryOperator) (left right : Value) : Prop
  /-- An equality in which a value is known to be NaN, and the other one is something else, or is known to differ. -/
  | known (hoperator : operator = .eq ∨ operator = .ne) (hknown : (f.canBeNaN left || f.canBeNaN right) = true)
      (h : σ left ≠ σ right ∨ f.partition.Apart left right)
  /-- An equality of a value with itself, which is NaN, though that is not known. -/
  | unknown (hoperator : operator = .eq ∨ operator = .ne) (hunknown : (f.canBeNaN left || f.canBeNaN right) = false)
      (hnan : σ left = .nan) (h : f.partition.Alike left right)
  /-- An ordering of a value with itself, which is NaN: for `<` and `>` if that is known, for `<=` and `>=` if not. -/
  | ordering (heq : operator ≠ .eq) (hne : operator ≠ .ne) (hnan : σ left = .nan)
      (htracked : left.isTracked = true ∨ right.isTracked = true) (h : f.partition.Same left right)
      (hknown : (f.canBeNaN left || f.canBeNaN right) = decide (operator = .lt ∨ operator = .gt))

namespace Frame

variable {f : Frame} {σ : Valuation Datum} {operator : BinaryOperator} {left right : Value}

theorem misses_iff_of_equality (hequality : operator = .eq ∨ operator = .ne) :
    f.Misses σ operator left right ↔
      if f.canBeNaN left || f.canBeNaN right then σ left ≠ σ right ∨ f.partition.Apart left right
      else σ left = .nan ∧ f.partition.Alike left right := by
  constructor
  · intro h
    cases h with
    | known _ hknown h => rwa [if_pos hknown]
    | unknown _ hunknown hnan h =>
      rw [if_neg (Bool.eq_false_iff.mp hunknown)]
      exact ⟨hnan, h⟩
    | ordering heq hne => exact absurd hequality (not_or.mpr ⟨heq, hne⟩)
  · intro h
    split at h
    · rename_i hknown
      exact .known hequality hknown h
    · rename_i hunknown
      exact .unknown hequality (Bool.eq_false_iff.mpr hunknown) h.1 h.2

/-- An order is missed only between sides of one class. -/
theorem misses_iff_of_ordering (heq : operator ≠ .eq) (hne : operator ≠ .ne) :
    f.Misses σ operator left right ↔
      σ left = .nan ∧ (left.isTracked = true ∨ right.isTracked = true) ∧ f.partition.Same left right ∧
        (f.canBeNaN left || f.canBeNaN right) = decide (operator = .lt ∨ operator = .gt) := by
  constructor
  · intro h
    cases h with
    | known hequality => exact absurd hequality (not_or.mpr ⟨heq, hne⟩)
    | unknown hequality => exact absurd hequality (not_or.mpr ⟨heq, hne⟩)
    | ordering _ _ hnan htracked hsame hknown => exact ⟨hnan, htracked, hsame, hknown⟩
  · rintro ⟨hnan, htracked, hsame, hknown⟩
    exact .ordering heq hne hnan htracked hsame hknown

end Frame

namespace Visit

variable {c : Context} {i : Instruction} {f : Frame} {σ : Valuation Datum} {left right : Value} {outcome : Bool}
  {operator : BinaryOperator}

/-- A comparison is tracked if one of its operands is. -/
theorem exists_compare? (hcomparison : operator.isComparison = true)
    (htracked : left.isTracked = true ∨ right.isTracked = true) (negated : Bool) :
    ∃ relation, left.compare? right operator negated = some relation := by
  obtain ⟨kind, flip, hcanonical, hkind⟩ :
      ∃ kind flip, Value.canonical? operator = some (kind, flip) ∧ kind ≠ .instanceOf := by
    cases operator <;> first | exact ⟨_, _, rfl, by decide⟩ | cases hcomparison
  unfold Value.compare?
  simp only [hcanonical, Option.bind_eq_bind, Option.bind_some, if_neg hkind]
  split
  · exact ⟨_, rfl⟩
  · rename_i hleft
    rw [if_pos (htracked.resolve_left hleft)]
    exact ⟨_, rfl⟩

/-- Two constants are not tracked. -/
theorem compare?_of_constants (hleft : left.isConstant = true) (hright : right.isConstant = true) (negated : Bool) :
    left.compare? right operator negated = none := by
  cases left with
  | constant k =>
    cases right with
    | constant l => cases operator <;> rfl
    | _ => cases hright
  | _ => cases hleft

theorem canBeNaN_congr {g : Frame} (h : f.partition = g.partition) (v : Value) : f.canBeNaN v = g.canBeNaN v := by
  induction v with
  | boxed v ih => exact ih
  | var | unboxed => simp only [Frame.canBeNaN, Frame.canBeNaN.inClass, h]
  | _ => rfl

/-! ## Binary operations -/

theorem binop_of_constants (hoperator : operator = .eq ∨ operator = .ne) (hleft : (f.operand 1).isConstant = true)
    (hright : (f.operand 0).isConstant = true) :
    binop c i (some operator) f = compareConstants i f.pop.2.pop.2 operator (f.operand 1) (f.operand 0) := by
  rw [Frame.operand_one] at hleft ⊢
  rw [Frame.operand_zero] at hright ⊢
  unfold binop
  simp only
  rw [if_pos ⟨hoperator, hleft, hright⟩]

theorem binop_of_tracked (hcomparison : operator.isComparison = true)
    (htracked : (f.operand 1).isTracked = true ∨ (f.operand 0).isTracked = true) :
    ∃ relation, (f.operand 1).compare? (f.operand 0) operator (f.canBeNaN (f.operand 1) || f.canBeNaN (f.operand 0)) =
        some relation ∧
      binop c i (some operator) f =
        fork c i operator f.pop.2.pop.2 (f.operand 1) (f.operand 0) relation := by
  obtain ⟨relation, hrelation⟩ := exists_compare? hcomparison htracked
    (f.canBeNaN (f.operand 1) || f.canBeNaN (f.operand 0))
  refine ⟨relation, hrelation, ?_⟩
  -- two constants would not make a condition
  have hconstants : ¬((f.operand 1).isConstant = true ∧ (f.operand 0).isConstant = true) := by
    rintro ⟨hleft, hright⟩
    rw [compare?_of_constants hleft hright] at hrelation
    cases hrelation
  have hrest : ∀ v, f.canBeNaN v = f.pop.2.pop.2.canBeNaN v := canBeNaN_congr rfl
  rw [hrest, hrest] at hrelation
  rw [Frame.operand_one, Frame.operand_zero] at hrelation hconstants ⊢
  unfold binop
  simp only
  rw [if_neg fun h => hconstants h.2, hrelation]

/-- An ordering of two constants tells nothing. -/
theorem covers_of_constants (hcomparison : operator.isComparison = true) (heq : operator ≠ .eq) (hne : operator ≠ .ne)
    (hleft : (f.operand 1).isConstant = true) (hright : (f.operand 0).isConstant = true)
    (hσ : σ.Admits f.partition) : (binop c i (some operator) f).Covers σ outcome := by
  -- an order of two constants is not folded: what is pushed is unknown
  have hnext : (binop c i (some operator) f).next = [⟨i.index + 1, f.pop.2.pop.2.push .unknown⟩] := by
    rw [Frame.operand_one] at hleft
    rw [Frame.operand_zero] at hright
    unfold binop
    simp only
    rw [if_neg (fun h => h.1.elim heq hne), compare?_of_constants hleft hright]
    cases operator <;> first | rfl | cases hcomparison
  refine ⟨⟨i.index + 1, f.pop.2.pop.2.push .unknown⟩, ?_, Or.inr rfl, hσ⟩
  rw [hnext]
  exact List.mem_singleton_self _

/-! ## What is covered -/

section Covered

variable (hf : f.partition.WellFormed) (hσ : σ.Admits f.partition) (hself : ∀ k, σ (.constant k) = .constant k)
  (hleft : (f.operand 1).IsOperand) (hright : (f.operand 0).IsOperand)

include hleft hright in
/-- What is not tracked are two constants. -/
theorem isConstant_of_not_tracked (htracked : ¬((f.operand 1).isTracked = true ∨ (f.operand 0).isTracked = true)) :
    (f.operand 1).isConstant = true ∧ (f.operand 0).isConstant = true :=
  ⟨hleft.isConstant_or_isTracked.resolve_right fun h => htracked (Or.inl h),
    hright.isConstant_or_isTracked.resolve_right fun h => htracked (Or.inr h)⟩

include hf hσ hself hleft hright

/-- **Which equalities cover an outcome,** tracked or not: the relation is turned around if a value is known to be
NaN. -/
theorem binop_equality_covers_iff (hoperator : operator = .eq ∨ operator = .ne) :
    (binop c i (some operator) f).Covers σ outcome ↔
      if ((f.canBeNaN (f.operand 1) || f.canBeNaN (f.operand 0)) ^^ decide (operator = .ne)) ^^ !outcome then
        (σ (f.operand 1)).Differs (σ (f.operand 0)) ∧ ¬f.partition.Alike (f.operand 1) (f.operand 0)
      else σ (f.operand 1) = σ (f.operand 0) ∧ ¬f.partition.Apart (f.operand 1) (f.operand 0) := by
  by_cases htracked : (f.operand 1).isTracked = true ∨ (f.operand 0).isTracked = true
  · have hcomparison : operator.isComparison = true := by
      rcases hoperator with rfl | rfl <;> rfl
    obtain ⟨relation, hrelation, hbinop⟩ := binop_of_tracked (c := c) (i := i) hcomparison htracked
    rw [hbinop]
    exact equality_covers_iff (f := f.pop.2.pop.2) hf hσ hself hleft hright hrelation hoperator
  · obtain ⟨hl, hr⟩ := isConstant_of_not_tracked hleft hright htracked
    have hrest : ∀ v, f.pop.2.pop.2.canBeNaN v = f.canBeNaN v := canBeNaN_congr rfl
    rw [binop_of_constants hoperator hl hr, compareConstants_covers_iff (f := f.pop.2.pop.2) hσ, hrest, hrest]
    generalize (f.canBeNaN (f.operand 1) || f.canBeNaN (f.operand 0)) = known
    generalize decide (operator = .ne) = differs
    -- constants have one value exactly if they are one
    by_cases hsame : f.operand 1 = f.operand 0
    · have hapart : ¬f.partition.Apart (f.operand 0) (f.operand 0) := fun h => hf.not_alike_of_apart h (Or.inl rfl)
      have halike : f.partition.Alike (f.operand 0) (f.operand 0) := Or.inl rfl
      rw [hsame]
      cases known <;> cases differs <;> cases outcome <;> simp [hapart, halike]
    · have hne : σ (f.operand 1) ≠ σ (f.operand 0) := fun heq => hsame (Valuation.eq_of_isConstant hl hr heq)
      have halike : ¬f.partition.Alike (f.operand 1) (f.operand 0) := fun h => hne (hσ.alike h)
      have hdiffers : (σ (f.operand 1)).Differs (σ (f.operand 0)) := Or.inl hne
      cases known <;> cases differs <;> cases outcome <;> simp [hsame, hne, halike, hdiffers]

/-- An equality of integers, truth values or null covers its outcome. -/
theorem covers_equality_of_computes (hoperator : operator = .eq ∨ operator = .ne)
    (hknown : (f.canBeNaN (f.operand 1) || f.canBeNaN (f.operand 0)) = false) (hl : σ (f.operand 1) ≠ .nan)
    (hcomputes : Computes (some operator) (σ (f.operand 1)) (σ (f.operand 0)) (.boolean outcome)) :
    (binop c i (some operator) f).Covers σ outcome := by
  have hcanonical : Value.canonical? operator = some (.eq, decide (operator = .ne)) := by
    rcases hoperator with rfl | rfl <;> rfl
  -- neither side is known to be NaN, so nothing is turned around
  have htrue := Value.true_of_canonical? hcanonical hcomputes (by rcases hoperator with rfl | rfl <;> decide)
  rw [binop_equality_covers_iff hf hσ hself hleft hright hoperator, hknown, Bool.false_xor]
  split
  · rename_i hnegated
    have hne : σ (f.operand 1) ≠ σ (f.operand 0) := fun heq => by
      rw [htrue.mp heq] at hnegated
      cases hnegated
    exact ⟨Or.inl hne, fun halike => hne (hσ.alike halike)⟩
  · rename_i hnegated
    have heq := htrue.mpr (Bool.eq_false_iff.mpr hnegated)
    exact ⟨heq, fun hapart => (hσ.apart hapart).elim (fun hne => hne heq) hl⟩

/-- **An equality that NaN takes part in covers its outcome** if the frame takes the values for one, where it knows of
the NaN, or for different ones, where it does not. -/
theorem equality_covers_iff_of_nan (hoperator : operator = .eq ∨ operator = .ne)
    (hnan : σ (f.operand 1) = .nan ∨ σ (f.operand 0) = .nan) :
    (binop c i (some operator) f).Covers σ (operator = .ne) ↔
      if f.canBeNaN (f.operand 1) || f.canBeNaN (f.operand 0) then
        σ (f.operand 1) = σ (f.operand 0) ∧ ¬f.partition.Apart (f.operand 1) (f.operand 0)
      else ¬f.partition.Alike (f.operand 1) (f.operand 0) := by
  have hdiffers : (σ (f.operand 1)).Differs (σ (f.operand 0)) :=
    hnan.elim Or.inr fun h => Datum.Differs.symm (Or.inr h)
  have hflag : ∀ known differs : Bool, ((known ^^ differs) ^^ !differs) = !known := by decide
  rw [binop_equality_covers_iff hf hσ hself hleft hright hoperator, hflag, and_iff_right hdiffers]
  cases f.canBeNaN (f.operand 1) || f.canBeNaN (f.operand 0) <;> rfl

section Orderings

variable (hcomparison : operator.isComparison = true) (heq : operator ≠ .eq) (hne : operator ≠ .ne)
include hcomparison heq hne

/-- **An ordering of integers covers its outcome.** -/
theorem covers_ordering_of_computes (hknown : (f.canBeNaN (f.operand 1) || f.canBeNaN (f.operand 0)) = false)
    (hcomputes : Computes (some operator) (σ (f.operand 1)) (σ (f.operand 0)) (.boolean outcome)) :
    (binop c i (some operator) f).Covers σ outcome := by
  by_cases htracked : (f.operand 1).isTracked = true ∨ (f.operand 0).isTracked = true
  · obtain ⟨relation, hrelation, hbinop⟩ := binop_of_tracked (c := c) (i := i) hcomparison htracked
    rw [hknown] at hrelation
    obtain ⟨hl, hr⟩ := Datum.isNumber_of_computes hcomparison heq hne hcomputes
    obtain ⟨kind, flip, hcanonical, hkind, -, kind', v, w, hcases, hcovers⟩ := ordering_covers_iff (c := c) (i := i)
      (f := f.pop.2.pop.2) hf hσ hself hleft hright hrelation hcomparison heq hne ⟨hl.ne_null, hr.ne_null⟩
    have hinstanceOf : operator ≠ .instanceOf := by
      rintro rfl
      cases hcomparison
    have htrue := Value.true_of_canonical? hcanonical hcomputes hinstanceOf
    rw [hbinop, hcovers, Bool.false_xor]
    rcases hcases with ⟨rfl, rfl, rfl⟩ | ⟨rfl, rfl, rfl⟩
    · exact Frame.holds_applyOrdering_of_true (f := f.pop.2.pop.2) hf hσ hself hkind htrue
    · refine Frame.holds_applyOrdering_of_true (f := f.pop.2.pop.2) hf hσ hself ?_ htrue.flipped
      rcases hkind with rfl | rfl
      · exact Or.inr rfl
      · exact Or.inl rfl
  · obtain ⟨hl, hr⟩ := isConstant_of_not_tracked hleft hright htracked
    exact covers_of_constants hcomparison heq hne hl hr hσ

/-- **An ordering that NaN takes part in covers its outcome,** unless it is one of a value with itself for which the
relation that is turned around does not hold. -/
theorem ordering_covers_iff_of_nan (hnumbers : (σ (f.operand 1)).IsNumber ∧ (σ (f.operand 0)).IsNumber)
    (hnan : σ (f.operand 1) = .nan ∨ σ (f.operand 0) = .nan) :
    (binop c i (some operator) f).Covers σ false ↔
      ¬(((f.operand 1).isTracked = true ∨ (f.operand 0).isTracked = true) ∧
        f.partition.Same (f.operand 1) (f.operand 0) ∧
        (f.canBeNaN (f.operand 1) || f.canBeNaN (f.operand 0)) = decide (operator = .lt ∨ operator = .gt)) := by
  by_cases htracked : (f.operand 1).isTracked = true ∨ (f.operand 0).isTracked = true
  · obtain ⟨relation, hrelation, hbinop⟩ := binop_of_tracked (c := c) (i := i) hcomparison htracked
    obtain ⟨kind, flip, -, -, hflip, kind', v, w, hcases, hcovers⟩ := ordering_covers_iff (c := c) (i := i)
      (f := f.pop.2.pop.2) hf hσ hself hleft hright hrelation hcomparison heq hne
      ⟨hnumbers.1.ne_null, hnumbers.2.ne_null⟩
    -- an order with NaN is taken to hold, unless the sides share a class
    have hholds : ∀ negated, (f.pop.2.pop.2.applyOrdering kind' negated v w).holds = true ↔
        (f.partition.Same (f.operand 1) (f.operand 0) → negated = true) := by
      intro negated
      rcases hcases with ⟨rfl, rfl, rfl⟩ | ⟨rfl, rfl, rfl⟩
      · exact Frame.holds_applyOrdering_nan (f := f.pop.2.pop.2) hf hσ hself hnan _
      · refine (Frame.holds_applyOrdering_nan (f := f.pop.2.pop.2) hf hσ hself hnan.symm _).trans ?_
        exact imp_congr_left ⟨fun ⟨a, hv, hw⟩ => ⟨a, hw, hv⟩, fun ⟨a, hv, hw⟩ => ⟨a, hw, hv⟩⟩
    rw [hbinop, hcovers, hholds, hflip, not_and, not_and]
    generalize (f.canBeNaN (f.operand 1) || f.canBeNaN (f.operand 0)) = known
    generalize decide (operator = .lt ∨ operator = .gt) = strict
    simp only [htracked, true_imp_iff]
    cases known <;> cases strict <;> simp
  · obtain ⟨hl, hr⟩ := isConstant_of_not_tracked hleft hright htracked
    exact iff_of_true (covers_of_constants hcomparison heq hne hl hr hσ) fun h => htracked h.1

end Orderings

end Covered

end Visit

section Headline

variable {c : Context} {i : Instruction} {f : Frame} {σ : Valuation Datum} {operator : BinaryOperator}
  (hσ : σ.Admits f.partition) (hself : ∀ k, σ (.constant k) = .constant k)
  (hleft : (f.operand 1).IsOperand) (hright : (f.operand 0).IsOperand)
  (hl : (σ (f.operand 1)).IsScalar) (hr : (σ (f.operand 0)).IsScalar)
include hσ hself hleft hright hl hr

/-- Neither side is known to be NaN if neither is. -/
theorem known_eq_false (hlnan : σ (f.operand 1) ≠ .nan) (hrnan : σ (f.operand 0) ≠ .nan) :
    (f.canBeNaN (f.operand 1) || f.canBeNaN (f.operand 0)) = false := by
  rw [Bool.or_eq_false_iff, Bool.eq_false_iff, Bool.eq_false_iff]
  exact ⟨fun h => hlnan (Frame.eq_nan_of_canBeNaN hσ hself hleft hl h),
    fun h => hrnan (Frame.eq_nan_of_canBeNaN hσ hself hright hr h)⟩

/-- **Without NaN nothing is left out.** -/
theorem not_misses (hlnan : σ (f.operand 1) ≠ .nan) (hrnan : σ (f.operand 0) ≠ .nan) :
    ¬f.Misses σ operator (f.operand 1) (f.operand 0) := by
  intro h
  cases h with
  | known _ hknown =>
    rw [known_eq_false hσ hself hleft hright hl hr hlnan hrnan] at hknown
    cases hknown
  | unknown _ _ hnan => exact hlnan hnan
  | ordering _ _ hnan => exact hlnan hnan

/-- **When the outcome of a comparison is covered.** Let a valuation admit a reachable frame, in which the operands of a
comparison are variables or constants; let the operands have values that are compared, constants the ones that they
name. Then the visit goes on with the outcome of the comparison, in a frame that the valuation admits, in all cases but
those in `Frame.Misses`, and in none of these. -/
theorem comparison_covered_iff (hf : f.Reachable c.scope) (hoperation : i.operation = .binop (some operator))
    {outcome : Bool} (h : Datum.Compares operator (σ (f.operand 1)) (σ (f.operand 0)) outcome) :
    (visit c i f).Covers σ outcome ↔ ¬f.Misses σ operator (f.operand 1) (f.operand 0) := by
  have hwellFormed := hf.wellFormed
  rw [show visit c i f = Visit.binop c i (some operator) f by simp only [visit, hoperation]]
  cases h with
  | computed hcomparison hlnan hrnan hcomputes =>
    have hknown := known_eq_false hσ hself hleft hright hl hr hlnan hrnan
    refine iff_of_true ?_ (not_misses hσ hself hleft hright hl hr hlnan hrnan)
    -- two numbers are compared as the machine does
    by_cases hequality : operator = .eq ∨ operator = .ne
    · exact Visit.covers_equality_of_computes hwellFormed hσ hself hleft hright hequality hknown hlnan hcomputes
    · rw [not_or] at hequality
      exact Visit.covers_ordering_of_computes hwellFormed hσ hself hleft hright hcomparison hequality.1 hequality.2
        hknown hcomputes
  | equality hequality hnan =>
    rw [Visit.equality_covers_iff_of_nan hwellFormed hσ hself hleft hright hequality hnan,
      Frame.misses_iff_of_equality hequality]
    split
    · rw [not_or, not_not]
    · refine not_congr ⟨fun halike => ⟨?_, halike⟩, And.right⟩
      exact hnan.elim id fun h => (hσ.alike halike).trans h
  | ordering hcomparison heq hne hlnumber hrnumber hnan =>
    rw [Visit.ordering_covers_iff_of_nan hwellFormed hσ hself hleft hright hcomparison heq hne ⟨hlnumber, hrnumber⟩
      hnan, Frame.misses_iff_of_ordering heq hne]
    refine not_congr ⟨fun h => ⟨?_, h⟩, And.right⟩
    exact hnan.elim id fun hr => (hσ.alike (Or.inr h.2.1)).trans hr

end Headline

/-- The comparison of two operands of a stack that is otherwise empty. -/
def Frame.comparing (left right : Value) : Frame := (Frame.empty.push left).push right

/-- A valuation in which all variables are NaN. -/
def Valuation.allNaN : Valuation Datum := Environment.valuation fun _ => .nan

/-- That a variable is 5 is covered with the outcome `false` if the variable is NaN, which is not known. -/
theorem comparison_covered_iff_of_variable :
    let c : Context := ⟨⟨"m", none, [⟨"x", .primitive .double, .local, false, []⟩], [], []⟩, .empty,
      AnalysisConfig.standard.resolver, .empty⟩
    let i : Instruction := ⟨0, none, .binop (some .eq)⟩
    (visit c i (Frame.comparing (.var 0 false) (.constant (.integer 5)))).Covers .allNaN false := by
  intro c i
  have hcompares : Datum.Compares .eq .nan (.integer 5) false := .equality (Or.inl rfl) (Or.inl rfl)
  refine (comparison_covered_iff (f := .comparing (.var 0 false) (.constant (.integer 5))) (Valuation.admits_empty _)
    (fun _ => rfl) (.var 0 false) (.constant _) .nan (.integer 5) ((Frame.Reachable.empty.push _).push _) rfl
    hcompares).mpr fun hmisses => ?_
  cases hmisses with
  | known _ hknown => cases hknown
  | unknown _ _ _ halike => cases (Valuation.admits_empty .allNaN).alike halike
  | ordering heq => exact heq rfl

/-- An outcome is left out: 5 is not equal to NaN, but the visit goes on with `true` alone. -/
theorem comparison_not_covered :
    let c : Context := ⟨⟨"m", none, [], [], []⟩, .empty, AnalysisConfig.standard.resolver, .empty⟩
    let i : Instruction := ⟨2, none, .binop (some .eq)⟩
    let f : Frame := .comparing (.constant .nan) (.constant (.integer 5))
    f.Reachable c.scope ∧ Valuation.allNaN.Admits f.partition ∧
      Datum.Compares .eq (Valuation.allNaN (f.operand 1)) (Valuation.allNaN (f.operand 0)) false ∧
      ¬(visit c i f).Covers .allNaN false := by
  intro c i f
  refine ⟨(Frame.Reachable.empty.push _).push _, Valuation.admits_empty _, .equality (Or.inl rfl) (Or.inl rfl), ?_⟩
  rintro ⟨q, hq, htop, -⟩
  have hnext : (visit c i f).next = [⟨3, Frame.empty.push (.boolean true)⟩] := by decide
  rw [hnext] at hq
  obtain rfl := List.mem_singleton.mp hq
  rcases htop with htop | htop <;> cases htop

end NullCheck
