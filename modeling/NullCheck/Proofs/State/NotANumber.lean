import NullCheck.Proofs.Machine.Comparison
import NullCheck.Proofs.State.Answers

/-!
# Valuations with NaN

NaN is equal to nothing, not even to itself. So two values that were found to differ may both be NaN, while a class that
holds NaN is one of values that are NaN. A valuation that admits a frame in this sense satisfies it once NaN is told
apart from NaN by tags, and then all that is known of equalities applies.

## The architecture

* **`Datum.Compares`**: the outcome of a comparison, NaN included.
* **`Valuation.Admits`**: a valuation agrees with a partition, where NaN differs from NaN.
* **`Valuation.tag`**: NaN with tags. Tags that respect the partition make a valuation that satisfies it:
  `satisfies_tag`, `admits_of_tag`.
* **`Frame.admits_applyEquality_iff`**, **`Frame.admits_applyEquality_not_iff`**: when an equality or an inequality
  holds and the valuation still admits the frame.
* **`Frame.holds_applyOrdering_of_true`**, **`Frame.holds_applyOrdering_nan`**: when an ordering holds.
-/

namespace NullCheck

namespace Datum

def nan : Datum := .constant .nan

/-- Two values are found to differ. NaN differs from all values. -/
def Differs (a b : Datum) : Prop := a ≠ b ∨ a = .nan

theorem Differs.symm {a b : Datum} (h : a.Differs b) : b.Differs a := by
  by_cases heq : b = a
  · subst heq
    exact h
  · exact Or.inl heq

/-- Values that are compared: null, truth values, integers and NaN. -/
inductive IsScalar : Datum → Prop
  | null : IsScalar .null
  | boolean (b : Bool) : IsScalar (.boolean b)
  | integer (i : Int) : IsScalar (.integer i)
  | nan : IsScalar .nan

/-- Values that are put in order. -/
inductive IsNumber : Datum → Prop
  | integer (i : Int) : IsNumber (.integer i)
  | nan : IsNumber .nan

theorem IsNumber.ne_null {a : Datum} (h : a.IsNumber) : a ≠ .null := by
  cases h with
  | integer i => exact fun h => by cases h
  | nan => exact fun h => by cases h

/-- The outcome of a comparison. To compare NaN for inequality yields `true`, all else that NaN takes part in yields
`false`. Orderings are between integers and NaN. -/
inductive Compares : BinaryOperator → Datum → Datum → Bool → Prop
  | computed {operator : BinaryOperator} {a b : Datum} {outcome : Bool} (hcomparison : operator.isComparison = true)
      (ha : a ≠ .nan) (hb : b ≠ .nan) (h : Computes (some operator) a b (.boolean outcome)) :
      Compares operator a b outcome
  | equality {operator : BinaryOperator} {a b : Datum} (hoperator : operator = .eq ∨ operator = .ne)
      (hnan : a = .nan ∨ b = .nan) : Compares operator a b (operator = .ne)
  | ordering {operator : BinaryOperator} {a b : Datum} (hcomparison : operator.isComparison = true)
      (heq : operator ≠ .eq) (hne : operator ≠ .ne) (ha : a.IsNumber) (hb : b.IsNumber) (hnan : a = .nan ∨ b = .nan) :
      Compares operator a b false

/-- Only integers have an outcome that is put in order by a machine. -/
theorem isNumber_of_computes {operator : BinaryOperator} {a b : Datum} {outcome : Bool}
    (hcomparison : operator.isComparison = true) (heq : operator ≠ .eq) (hne : operator ≠ .ne)
    (h : Computes (some operator) a b (.boolean outcome)) : a.IsNumber ∧ b.IsNumber := by
  generalize Datum.boolean outcome = d at h
  cases h with
  | eq => exact absurd rfl heq
  | ne => exact absurd rfl hne
  | lt i j | le i j | gt i j | ge i j => exact ⟨.integer i, .integer j⟩
  | plus => cases hcomparison
  | other hother =>
    rw [Option.all_some, hcomparison] at hother
    cases hother

end Datum

namespace Valuation

variable {σ : Valuation Datum} {p : Partition} {t : Value → Value} {v w : Value}

/-- The valuation agrees with all that a partition says, where values that differ may both be NaN. -/
structure Admits (σ : Valuation Datum) (p : Partition) : Prop where
  equal : ∀ {a v w}, v ∈ p.members a → w ∈ p.members a → σ v = σ w
  differ : ∀ {d v w}, d ∈ p.distinct → v ∈ p.members d.low → w ∈ p.members d.high → (σ v).Differs (σ w)

theorem admits_empty (σ : Valuation Datum) : σ.Admits .empty := by
  constructor <;> simp [Partition.empty, Partition.members]

theorem Admits.alike (hσ : σ.Admits p) (h : p.Alike v w) : σ v = σ w := by
  rcases h with rfl | ⟨a, hv, hw⟩
  · rfl
  · exact hσ.equal hv hw

theorem Admits.apart (hσ : σ.Admits p) (h : p.Apart v w) : (σ v).Differs (σ w) := by
  obtain ⟨a, b, hv, hw, hd⟩ := h
  have hmem := of_decide_eq_true hd
  rcases SlotPair.of_cases a b with hof | hof
  · rw [hof] at hmem
    exact hσ.differ hmem hv hw
  · rw [hof] at hmem
    exact (hσ.differ hmem hw hv).symm

/-! ## Tags -/

/-- The valuation in which NaN carries a tag. -/
def tag (σ : Valuation Datum) (t : Value → Value) : Valuation (Datum × Value) where
  value v := (σ v, if σ v = .nan then t v else .unknown)
  constant_inj h := σ.constant_inj (congrArg Prod.fst h)
  boxed_ne_null v h := σ.boxed_ne_null v (congrArg Prod.fst h)

/-- Tagged values are equal iff the values are, and for NaN the tags too. -/
theorem tag_eq_iff : σ.tag t v = σ.tag t w ↔ σ v = σ w ∧ (σ v = .nan → t v = t w) := by
  show (σ v, _) = (σ w, _) ↔ _
  rw [Prod.mk.injEq]
  refine and_congr_right fun heq => ?_
  rw [← heq]
  by_cases hnan : σ v = .nan
  · simp [hnan]
  · simp [hnan]

/-- Tagged values that are unequal are those of unequal values, or of two NaN. -/
theorem differs_of_tag_ne (h : σ.tag t v ≠ σ.tag t w) : (σ v).Differs (σ w) := by
  by_contra hdiffers
  unfold Datum.Differs at hdiffers
  rw [not_or, not_not] at hdiffers
  exact h (tag_eq_iff.mpr ⟨hdiffers.1, fun hnan => absurd hnan hdiffers.2⟩)

/-- Values that differ have different tagged values, if NaN has different tags. -/
theorem tag_ne (h : (σ v).Differs (σ w)) (ht : t v ≠ t w) : σ.tag t v ≠ σ.tag t w := by
  rw [ne_eq, tag_eq_iff]
  rintro ⟨heq, hnan⟩
  exact ht (hnan (h.resolve_left (not_not_intro heq)))

/-- Tags of NaN that are one in a class, and others in a class that is known to differ. -/
theorem satisfies_tag (hσ : σ.Admits p) (hp : p.WellFormed) (hsame : ∀ v w, p.Same v w → t v = t w)
    (hapart : ∀ v w, p.Apart v w → t v ≠ t w) : (σ.tag t).Satisfies p where
  equal hv hw := tag_eq_iff.mpr ⟨hσ.equal hv hw, fun _ => hsame _ _ ⟨_, hv, hw⟩⟩
  differ {d v w} hd hv hw := by
    refine tag_ne (hσ.differ hd hv hw) (hapart v w ⟨d.low, d.high, hv, hw, decide_eq_true ?_⟩)
    rwa [SlotPair.of_low_high (hp.ordered hd)]

theorem admits_of_tag (h : (σ.tag t).Satisfies p) : σ.Admits p where
  equal hv hw := (tag_eq_iff.mp (h.equal hv hw)).1
  differ hd hv hw := differs_of_tag_ne (h.differ hd hv hw)

end Valuation

namespace Partition

variable {p : Partition} {v w : Value}

theorem Alike.trans {u : Value} (hp : p.WellFormed) (huv : p.Alike u v) (hvw : p.Alike v w) : p.Alike u w := by
  rcases huv with rfl | ⟨a, hu, hv⟩
  · exact hvw
  · exact Or.inr ⟨a, hu, hp.mem_members_of_alike hv hvw⟩

/-- Classes that differ hold different atoms. -/
theorem WellFormed.not_alike_of_apart (hp : p.WellFormed) (h : p.Apart v w) : ¬p.Alike v w := by
  intro halike
  obtain ⟨σ, hσ, -⟩ := hp.exists_separating ℕ
  obtain ⟨a, b, hv, hw, hd⟩ := h
  exact hσ.areDistinct hd hv hw (hp.alike_iff.mp halike σ hσ)

/-- What is known to differ is known of all that is alike. -/
theorem Apart.of_alike {v' w' : Value} (hp : p.WellFormed) (h : p.Apart v w) (hv : p.Alike v v') (hw : p.Alike w w') :
    p.Apart v' w' := by
  obtain ⟨a, b, hva, hwb, hd⟩ := h
  exact ⟨a, b, hp.mem_members_of_alike hva hv, hp.mem_members_of_alike hwb hw, hd⟩

theorem Apart.symm (h : p.Apart v w) : p.Apart w v := by
  obtain ⟨a, b, hv, hw, hd⟩ := h
  refine ⟨b, a, hw, hv, ?_⟩
  unfold areDistinct at hd ⊢
  rwa [SlotPair.of_comm]

end Partition

/-! ## Equalities -/

namespace Frame

variable {f : Frame} {σ : Valuation Datum} {left right : Value} {negated : Bool}

/-- Tagged by its class, each value fits: what is alike has one class and so one tag. -/
theorem satisfies_tag_root (hf : f.partition.WellFormed) (hσ : σ.Admits f.partition) :
    (σ.tag f.partition.root).Satisfies f.partition :=
  Valuation.satisfies_tag hσ hf (fun _ _ hsame => hf.root_eq_root_iff.mpr (Or.inr hsame))
    fun _ _ hapart heq => hf.not_alike_of_apart hapart (hf.root_eq_root_iff.mp heq)

/-- A valuation that admits a frame after an equality admitted it before. -/
theorem admits_of_applyEquality (hf : f.partition.WellFormed) (hl : left.isAtom = true) (hr : right.isAtom = true)
    (hσ : σ.Admits (f.applyEquality left right negated).frame.partition) : σ.Admits f.partition := by
  have htagged := satisfies_tag_root (applyEquality_wellFormed hf left right negated) hσ
  cases hholds : (f.applyEquality left right negated).holds with
  | true => exact Valuation.admits_of_tag ((applyEquality_satisfies hf hl hr hholds).mp htagged).1
  | false => exact Valuation.admits_of_tag ((applyEquality_satisfies_of_not_holds hf hl hr hholds).mp htagged)

/-- What is known not to be null is not null under a valuation that admits the frame. -/
theorem ne_null_of_admits (hf : f.partition.WellFormed) (hσ : σ.Admits f.partition) {v : Value} (hv : v.isAtom = true)
    (hself : ∀ k, σ (.constant k) = .constant k) (h : f.isNotNull v = true) : σ v ≠ .null := by
  intro hnull
  rcases Valuation.differs_of_tag_ne (isNotNull_sound (satisfies_tag_root hf hσ) hv h) with hne | hnan
  · exact hne (hnull.trans (hself .null).symm)
  · rw [hnull] at hnan
    cases hnan

/-- **When an inequality holds and the valuation still admits the frame:** the values differ, and the frame did not
know them to be one. -/
theorem admits_applyEquality_not_iff (hf : f.partition.WellFormed) (hσ : σ.Admits f.partition)
    (hl : left.isAtom = true) (hr : right.isAtom = true) :
    (f.applyEquality left right true).holds = true ∧ σ.Admits (f.applyEquality left right true).frame.partition ↔
      (σ left).Differs (σ right) ∧ ¬f.partition.Alike left right := by
  constructor
  · rintro ⟨hholds, hadmits⟩
    -- the valuation is tagged by the classes afterwards, and then `≠` is inequality
    have htagged := satisfies_tag_root (applyEquality_wellFormed hf left right true) hadmits
    obtain ⟨hbefore, hne⟩ := (applyEquality_satisfies hf hl hr hholds).mp htagged
    refine ⟨Valuation.differs_of_tag_ne hne, ?_⟩
    rintro (rfl | hsame)
    · exact hne rfl
    · exact hne (hbefore.same hsame)
  · rintro ⟨hdiffers, halike⟩
    have hne : (σ.tag f.partition.root).Fulfils true left right :=
      Valuation.tag_ne hdiffers fun heq => halike (hf.root_eq_root_iff.mp heq)
    obtain ⟨hholds, hsatisfies⟩ := applyEquality_sound hf hl hr (satisfies_tag_root hf hσ) hne
    exact ⟨hholds, Valuation.admits_of_tag hsatisfies⟩

/-- **When an equality holds and the valuation still admits the frame:** the values are one, and the frame did not know
them to differ. -/
theorem admits_applyEquality_iff (hf : f.partition.WellFormed) (hσ : σ.Admits f.partition) (hl : left.isAtom = true)
    (hr : right.isAtom = true) :
    (f.applyEquality left right false).holds = true ∧ σ.Admits (f.applyEquality left right false).frame.partition ↔
      σ left = σ right ∧ ¬f.partition.Apart left right := by
  constructor
  · rintro ⟨hholds, hadmits⟩
    have htagged := satisfies_tag_root (applyEquality_wellFormed hf left right false) hadmits
    obtain ⟨hbefore, heq⟩ := (applyEquality_satisfies hf hl hr hholds).mp htagged
    refine ⟨(Valuation.tag_eq_iff.mp heq).1, ?_⟩
    rintro ⟨a, b, hva, hwb, hd⟩
    exact hbefore.areDistinct hd hva hwb heq
  · rintro ⟨heq, hapart⟩
    -- the two classes get one tag
    let t : Value → Value := fun v => if f.partition.root v = f.partition.root right then f.partition.root left
      else f.partition.root v
    have ht : ∀ {v}, ¬f.partition.Alike v right → t v = f.partition.root v := fun h =>
      if_neg fun hroot => h (hf.root_eq_root_iff.mp hroot)
    have ht' : ∀ {v}, f.partition.Alike v right → t v = f.partition.root left := fun h =>
      if_pos (hf.root_eq_root_iff.mpr h)
    have hsatisfies : (σ.tag t).Satisfies f.partition := by
      refine Valuation.satisfies_tag hσ hf (fun v w hsame => ?_) fun v w hvw htag => ?_
      · simp only [t, hf.root_eq_root_iff.mpr (Or.inr hsame)]
      · by_cases hv : f.partition.Alike v right
        · by_cases hw : f.partition.Alike w right
          · exact hf.not_alike_of_apart hvw (hv.trans hf hw.symm)
          · rw [ht' hv, ht hw, hf.root_eq_root_iff] at htag
            exact hapart (hvw.of_alike hf hv htag.symm).symm
        · by_cases hw : f.partition.Alike w right
          · rw [ht hv, ht' hw, hf.root_eq_root_iff] at htag
            exact hapart (hvw.of_alike hf htag hw)
          · rw [ht hv, ht hw, hf.root_eq_root_iff] at htag
            exact hf.not_alike_of_apart hvw htag
    have htags : t left = t right := by
      rw [ht' (Or.inl rfl)]
      by_cases hleft : f.partition.Alike left right
      · exact ht' hleft
      · exact ht hleft
    have hfulfils : (σ.tag t).Fulfils false left right := Valuation.tag_eq_iff.mpr ⟨heq, fun _ => htags⟩
    obtain ⟨hholds, hafter⟩ := applyEquality_sound hf hl hr hsatisfies hfulfils
    exact ⟨hholds, Valuation.admits_of_tag hafter⟩

/-! ## Orderings -/

/-- An ordering of what is known to be one holds if it is negated; else it is one of what is known of the constants. -/
theorem holds_applyOrdering_iff (hf : f.partition.WellFormed) (kind : RelationKind) (negated : Bool)
    (left right : Value) :
    (f.applyOrdering kind negated left right).holds = true ↔ (f.partition.Same left right → negated = true) ∧
      (¬f.partition.Same left right → ordered kind negated (f.constant? left) (f.constant? right) = true) := by
  -- the constant of a slot is that of the value in it
  have hconstant : ∀ {v a}, f.partition.slot? v = some a → f.partition.constant? a = f.constant? v := by
    intro v a ha
    unfold Frame.constant?
    split
    · rename_i hv
      exact hf.constant?_eq_some_iff.mpr ⟨Partition.mem_members_of_slot? ha, hv⟩
    · rw [ha]
      rfl
  unfold applyOrdering
  split
  · rename_i a b ha hb
    rw [hf.same_iff (Partition.mem_members_of_slot? ha) (Partition.mem_members_of_slot? hb)]
    split
    · rename_i hab
      simp [hab]
    · rename_i hab
      rw [hconstant ha, hconstant hb]
      simp [hab]
  · rename_i hslots
    have hsame : ¬f.partition.Same left right := fun ⟨a, hl, hr⟩ =>
      hslots a a (hf.slot?_eq_some_iff.mpr hl) (hf.slot?_eq_some_iff.mpr hr)
    simp [hsame]

section Constants

variable (hf : f.partition.WellFormed) (hσ : σ.Admits f.partition) (hself : ∀ k, σ (.constant k) = .constant k)
include hf hσ hself

theorem eq_of_constant? {v : Value} {k : Constant} (h : f.constant? v = some (.constant k)) : σ v = .constant k :=
  (hσ.alike ((constant?_eq_some_iff hf).mp h).2).trans (hself k)

/-- An ordering that is true of two integers holds. -/
theorem holds_applyOrdering_of_true {kind : RelationKind} (hkind : kind = .lt ∨ kind = .gt)
    (htrue : kind.IsTrue negated (σ left) (σ right)) : (f.applyOrdering kind negated left right).holds = true := by
  refine (holds_applyOrdering_iff hf kind negated left right).mpr ⟨fun hsame => ?_, fun _ => ?_⟩
  · rw [hσ.alike (Or.inr hsame)] at htrue
    exact htrue.negated_of_self hkind
  · exact Fits.ordered_of_true htrue (fun _ h => eq_of_constant? hf hσ hself h) fun _ h => eq_of_constant? hf hσ hself h

/-- **An ordering that NaN takes part in holds** unless it is one of what is known to be one, and is not negated. -/
theorem holds_applyOrdering_nan (hnan : σ left = .nan ∨ σ right = .nan) (kind : RelationKind) :
    (f.applyOrdering kind negated left right).holds = true ↔ (f.partition.Same left right → negated = true) := by
  rw [holds_applyOrdering_iff hf]
  refine and_iff_left fun _ => ?_
  unfold ordered
  split
  · rename_i i j hi hj
    rcases hnan with hnan | hnan
    · cases (eq_of_constant? hf hσ hself hi).symm.trans hnan
    · cases (eq_of_constant? hf hσ hself hj).symm.trans hnan
  · rfl

end Constants

end Frame

end NullCheck
