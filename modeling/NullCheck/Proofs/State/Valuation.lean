import Mathlib.Data.Fintype.EquivFin
import Mathlib.Logic.Equiv.List
import Mathlib.Tactic.DeriveCountable
import NullCheck.Proofs.State.Partition

/-!
# Valuations of partitions

A valuation gives every atom a value, so that different constants have different values and nothing boxed has the
value of null. It satisfies a partition when the atoms of a class have one value and classes that differ have
different ones. What a partition knows is what all valuations that satisfy it have in common.

## The architecture

* **`Valuation.satisfies_…`**: making a class says nothing, telling slots apart says that the values of their atoms
  differ, merging says that they are equal, and forgetting only loses.
* **`Partition.WellFormed.exists_separating`**: a well-formed partition is satisfied by a valuation that takes no two
  atoms to one value unless they are in one class. Whatever the partition does not say is refuted by this valuation.
* **`Partition.WellFormed.exists_null`**: an atom that nothing speaks against being null is null under the valuation
  that takes its class to null and separates all others.
-/

namespace NullCheck

/-! ## There are countably many values -/

instance countableChar : Countable Char :=
  Function.Injective.countable (f := Char.toNat) fun _ _ h => Char.toNat_inj.1 h

instance countableString : Countable String :=
  Function.Injective.countable (f := String.toList) fun _ _ h => String.toList_inj.1 h

instance countableUInt32 : Countable UInt32 :=
  Function.Injective.countable (f := UInt32.toNat) fun _ _ h => UInt32.toNat_inj.1 h

instance countableUInt64 : Countable UInt64 :=
  Function.Injective.countable (f := UInt64.toNat) fun _ _ h => UInt64.toNat_inj.1 h

deriving instance Countable for Primitive, JvmType, Nullness, Constant, RelationKind, Value

/-- An assignment of values to atoms. -/
structure Valuation (V : Type*) where
  value : Value → V
  constant_inj : ∀ {c d}, value (.constant c) = value (.constant d) → c = d
  boxed_ne_null : ∀ v, value (.boxed v) ≠ value .null

namespace Valuation

variable {V : Type*}

instance : CoeFun (Valuation V) fun _ => Value → V := ⟨Valuation.value⟩

/-- The valuation makes an equality of two values true, or an inequality if `negated`. -/
def Fulfils (σ : Valuation V) (negated : Bool) (v w : Value) : Prop :=
  if negated then σ v ≠ σ w else σ v = σ w

/-- The valuation agrees with all that a partition says. -/
structure Satisfies (σ : Valuation V) (p : Partition) : Prop where
  equal : ∀ {a v w}, v ∈ p.members a → w ∈ p.members a → σ v = σ w
  differ : ∀ {d v w}, d ∈ p.distinct → v ∈ p.members d.low → w ∈ p.members d.high → σ v ≠ σ w

variable {σ : Valuation V} {p : Partition}

/-- Constants with one value are one constant. -/
theorem eq_of_isConstant {v w : Value} (hv : v.isConstant) (hw : w.isConstant) (h : σ v = σ w) : v = w := by
  cases v with
  | constant c =>
    cases w with
    | constant d => rw [σ.constant_inj h]
    | _ => simp [Value.isConstant, Value.constant?] at hw
  | _ => simp [Value.isConstant, Value.constant?] at hv

/-- A boxed value is an object, whatever is boxed. -/
theorem ne_null_of_isBoxed {v : Value} (hv : v.isBoxed) : σ v ≠ σ .null := by
  cases v with
  | boxed w => exact σ.boxed_ne_null w
  | _ => simp [Value.isBoxed] at hv

/-- Constants have different values, so only `null` has that of `null`. -/
theorem ne_null_of_isNonNullConstant {v : Value} (hv : v.isNonNullConstant) : σ v ≠ σ .null := by
  cases v with
  | constant c =>
    intro h
    rw [σ.constant_inj h] at hv
    simp [Value.isNonNullConstant, Value.constant?, Constant.isNull] at hv
  | _ => simp [Value.isNonNullConstant, Value.constant?] at hv

namespace Satisfies

theorem same (hσ : σ.Satisfies p) {v w : Value} (h : p.Same v w) : σ v = σ w := by
  obtain ⟨a, hv, hw⟩ := h
  exact hσ.equal hv hw

/-- Slots that are known to differ hold atoms of different values. -/
theorem areDistinct (hσ : σ.Satisfies p) {a b : Nat} {v w : Value} (h : p.areDistinct a b) (hv : v ∈ p.members a)
    (hw : w ∈ p.members b) : σ v ≠ σ w := by
  have hd : SlotPair.of a b ∈ p.distinct := by simpa [Partition.areDistinct] using h
  rcases SlotPair.of_cases a b with hof | hof
  · rw [hof] at hd
    exact hσ.differ hd hv hw
  · rw [hof] at hd
    exact (hσ.differ hd hw hv).symm

/-- Slots in conflict hold atoms of different values. -/
theorem inConflict (hp : p.WellFormed) (hσ : σ.Satisfies p) {a b : Nat} {v w : Value} (hab : a ≠ b)
    (h : p.inConflict a b) (hv : v ∈ p.members a) (hw : w ∈ p.members b) : σ v ≠ σ w := by
  intro heq
  rcases Partition.inConflict_iff.1 h with ⟨⟨c, hc, hcc⟩, ⟨d, hd, hdc⟩⟩ | ⟨hn, ⟨x, hx, hxb⟩⟩ | ⟨hn, ⟨x, hx, hxb⟩⟩
  · -- the two constants would be one, in two slots
    have hcd : σ c = σ d := (hσ.equal hc hv).trans (heq.trans (hσ.equal hw hd))
    exact hab (hp.disjoint hc (eq_of_isConstant hcc hdc hcd ▸ hd))
  · exact ne_null_of_isBoxed hxb ((hσ.equal hx hw).trans (heq.symm.trans (hσ.equal hv hn)))
  · exact ne_null_of_isBoxed hxb ((hσ.equal hx hv).trans (heq.trans (hσ.equal hw hn)))

end Satisfies

/-! ## What each change says -/

theorem satisfies_empty (σ : Valuation V) : σ.Satisfies .empty := by
  constructor <;> simp [Partition.empty, Partition.members]

/-- Making a class for an atom says nothing. -/
theorem satisfies_ensure (hp : p.WellFormed) (v : Value) : σ.Satisfies (p.ensure v).2 ↔ σ.Satisfies p := by
  cases hs : p.slot? v with
  | some a => rw [show p.ensure v = (a, p) by simp [Partition.ensure, hs]]
  | none =>
    have hfree : ∀ u, u ∉ p.members (p.ensure v).1 :=
      (Partition.mem_members_ensure_of_none (w := v) (b := 0) hs).1
    have hold : ∀ {a w}, w ∈ p.members a → w ∈ (p.ensure v).2.members a :=
      fun hw => Partition.mem_members_ensure.2 (.inl hw)
    constructor
    · intro hσ
      refine ⟨fun hv hw => hσ.equal (hold hv) (hold hw), fun hd hv hw => ?_⟩
      exact hσ.differ (by simpa using hd) (hold hv) (hold hw)
    · intro hσ
      constructor
      · intro a u w hu hw
        rcases Partition.mem_members_ensure_pair hs hu hw with ⟨hu', hw'⟩ | ⟨rfl, rfl⟩
        · exact hσ.equal hu' hw'
        · rfl
      · intro d u w hd hu hw
        rw [Partition.distinct_ensure] at hd
        obtain ⟨⟨x, hx⟩, ⟨y, hy⟩⟩ := hp.inhabited hd
        -- a slot of a pair holds something, so the new class is in none of them
        rcases Partition.mem_members_ensure.1 hu with hu' | ⟨_, ha⟩
        · rcases Partition.mem_members_ensure.1 hw with hw' | ⟨_, hb⟩
          · exact hσ.differ hd hu' hw'
          · exact absurd (hb ▸ hy) (hfree y)
        · exact absurd (ha ▸ hx) (hfree x)

/-- Telling two slots apart says that their values differ. -/
theorem satisfies_separate {a b : Nat} {v w : Value} (hv : v ∈ p.members a) (hw : w ∈ p.members b) :
    σ.Satisfies (p.separate a b) ↔ σ.Satisfies p ∧ σ v ≠ σ w := by
  constructor
  · intro hσ
    refine ⟨⟨hσ.equal, fun hd => hσ.differ (Partition.mem_distinct_separate.2 (.inr hd))⟩, ?_⟩
    refine Satisfies.areDistinct hσ (a := a) (b := b) ?_ hv hw
    simp [Partition.areDistinct, Partition.mem_distinct_separate]
  · rintro ⟨hσ, hne⟩
    refine ⟨hσ.equal, ?_⟩
    intro d u x hd hu hx
    rcases Partition.mem_distinct_separate.1 hd with rfl | hd
    · rw [Partition.members_separate] at hu hx
      -- the pair that was added is kept in order, so the slots may have changed places
      rcases SlotPair.of_cases a b with hof | hof
      · rw [hof] at hu hx
        rw [hσ.equal hu hv, hσ.equal hx hw]
        exact hne
      · rw [hof] at hu hx
        rw [hσ.equal hu hw, hσ.equal hx hv]
        exact hne.symm
    · exact hσ.differ hd hu hx

/-- Merging two classes says that their values are equal. -/
theorem satisfies_merge (hp : p.WellFormed) {a b : Nat} {v w : Value} (hv : v ∈ p.members a) (hw : w ∈ p.members b)
    (hab : a ≠ b) : σ.Satisfies (p.merge a b).2 ↔ σ.Satisfies p ∧ σ v = σ w := by
  have hmem := fun {c u} => Partition.mem_members_merge_of_mem (c := c) (u := u) hv hw hab
  have hmoved : ∀ {c u}, u ∈ p.members c →
      u ∈ (p.merge a b).2.members (Partition.renamed (max a b) (min a b) c) := fun hu => hmem.2 ⟨_, rfl, hu⟩
  constructor
  · intro hσ
    refine ⟨⟨fun hu hx => hσ.equal (hmoved hu) (hmoved hx), ?_⟩, ?_⟩
    · -- a pair that differed differs under its new name
      intro e u x he hu hx
      have hd : e.map (Partition.renamed (max a b) (min a b)) ∈ (p.merge a b).2.distinct :=
        Partition.mem_distinct_merge.2 ⟨e, he, rfl⟩
      refine Satisfies.areDistinct hσ ?_ (hmoved hu) (hmoved hx)
      simpa [Partition.areDistinct, SlotPair.map] using hd
    · refine hσ.equal (hmoved hv) ?_
      rw [Partition.renamed_eq_renamed_iff.2 (.inr (.inl ⟨rfl, rfl⟩))]
      exact hmoved hw
  · rintro ⟨hσ, heq⟩
    have hequal : ∀ {c u x}, u ∈ (p.merge a b).2.members c → x ∈ (p.merge a b).2.members c → σ u = σ x := by
      intro c u x hu hx
      obtain ⟨d₁, rfl, hud⟩ := hmem.1 hu
      obtain ⟨d₂, hd₂, hxd⟩ := hmem.1 hx
      rcases Partition.renamed_eq_renamed_iff.1 hd₂ with rfl | ⟨rfl, rfl⟩ | ⟨rfl, rfl⟩
      · exact hσ.equal hud hxd
      · rw [hσ.equal hud hw, hσ.equal hxd hv, heq]
      · rw [hσ.equal hud hv, hσ.equal hxd hw, heq]
    refine ⟨hequal, ?_⟩
    intro d u x hd hu hx
    obtain ⟨e, he, rfl⟩ := Partition.mem_distinct_merge.1 hd
    obtain ⟨⟨y, hy⟩, ⟨z, hz⟩⟩ := hp.inhabited he
    -- the atoms of the pair before it was renamed still stand for its two sides
    have hne := hσ.differ he hy hz
    unfold SlotPair.map at hu hx
    rcases SlotPair.of_cases (Partition.renamed (max a b) (min a b) e.low)
      (Partition.renamed (max a b) (min a b) e.high) with hof | hof
    · rw [hof] at hu hx
      rw [hequal hu (hmoved hy), hequal hx (hmoved hz)]
      exact hne
    · rw [hof] at hu hx
      rw [hequal hu (hmoved hz), hequal hx (hmoved hy)]
      exact hne.symm

/-- Forgetting atoms only loses what was known. -/
theorem Satisfies.forget (hσ : σ.Satisfies p) (forgotten : Value → Bool) : σ.Satisfies (p.forget forgotten) where
  equal hv hw := hσ.equal (Partition.mem_members_forget.1 hv).1 (Partition.mem_members_forget.1 hw).1
  differ hd hv hw := hσ.differ (Partition.mem_distinct_forget.1 hd).1 (Partition.mem_members_forget.1 hv).1
    (Partition.mem_members_forget.1 hw).1

end Valuation

/-! ## The valuation that separates classes -/

namespace Partition

variable {p : Partition}

/-- The atom that stands for the class of a value: its constant, or else its first atom. -/
def root (p : Partition) (v : Value) : Value :=
  match p.slot? v with
  | some a => (p.constant? a).getD ((p.members a).headD v)
  | none => v

theorem root_of_slot?_eq_none {v : Value} (h : p.slot? v = none) : p.root v = v := by
  unfold root
  rw [h]

/-- An atom in a class is represented by its constant, or else by the first atom of the class. -/
theorem root_of_slot?_eq_some {a : Nat} {v : Value} (h : p.slot? v = some a) :
    p.root v = (p.constant? a).getD ((p.members a).headD v) := by
  simp only [root, h]

/-- What represents a class is a member of it. -/
theorem root_mem {a : Nat} {v : Value} (h : p.slot? v = some a) : p.root v ∈ p.members a := by
  have hv := mem_members_of_slot? h
  rw [root_of_slot?_eq_some h]
  cases hc : p.constant? a with
  | some k => exact (constant?_spec hc).1
  | none =>
    cases hm : p.members a with
    | nil => simp [hm] at hv
    | cons u us => simp

/-- Two values have one root only if they are one, or in one class. -/
theorem WellFormed.root_eq_root_iff (h : p.WellFormed) {v w : Value} : p.root v = p.root w ↔ p.Alike v w := by
  constructor
  · intro heq
    cases hv : p.slot? v with
    | none =>
      rw [root_of_slot?_eq_none hv] at heq
      cases hw : p.slot? w with
      | none => exact .inl (heq.trans (root_of_slot?_eq_none hw))
      | some b => exact absurd (heq ▸ root_mem hw) (slot?_eq_none_iff.1 hv b)
    | some a =>
      cases hw : p.slot? w with
      | none =>
        rw [root_of_slot?_eq_none hw] at heq
        exact absurd (heq ▸ root_mem hv) (slot?_eq_none_iff.1 hw a)
      | some b =>
        -- the atom that represents both is in either class, and classes are disjoint
        have hab : a = b := h.disjoint (root_mem hv) (heq ▸ root_mem hw)
        exact .inr ⟨a, mem_members_of_slot? hv, hab ▸ mem_members_of_slot? hw⟩
  · rintro (rfl | ⟨a, hv, hw⟩)
    · rfl
    · rw [root_of_slot?_eq_some (h.slot?_eq_some_iff.2 hv), root_of_slot?_eq_some (h.slot?_eq_some_iff.2 hw)]
      cases hm : p.members a with
      | nil => simp [hm] at hv
      | cons u us => rfl

/-- A constant stands for its class. -/
theorem WellFormed.root_of_isConstant (h : p.WellFormed) {v : Value} (hv : v.isConstant) : p.root v = v := by
  cases hs : p.slot? v with
  | none => exact root_of_slot?_eq_none hs
  | some a =>
    rw [root_of_slot?_eq_some hs, h.constant?_eq_some_iff.2 ⟨mem_members_of_slot? hs, hv⟩]
    rfl

/-- A boxed value is not represented by `null`, since no class holds both. -/
theorem WellFormed.root_boxed_ne_null (h : p.WellFormed) (v : Value) : p.root (.boxed v) ≠ .null := by
  intro heq
  cases hs : p.slot? (.boxed v) with
  | none =>
    rw [root_of_slot?_eq_none hs] at heq
    exact Value.noConfusion heq
  | some a =>
    have hbox := h.boxed (heq ▸ root_mem hs) (mem_members_of_slot? hs)
    simp [Value.isBoxed] at hbox

/-- The valuation that takes every class to a value of its own. -/
def WellFormed.separating {V : Type*} (h : p.WellFormed) (φ : Value → V) (hφ : Function.Injective φ) :
    Valuation V where
  value v := φ (p.root v)
  constant_inj {c d} heq := by
    rw [h.root_of_isConstant rfl, h.root_of_isConstant rfl] at heq
    exact Value.constant.inj (hφ heq)
  boxed_ne_null v heq := by
    rw [h.root_of_isConstant (v := .null) rfl] at heq
    exact h.root_boxed_ne_null v (hφ heq)

/-- **A well-formed partition says nothing that it does not show.** Some valuation satisfies it and takes two values
to one only if they are one or in one class. -/
theorem WellFormed.exists_separating (h : p.WellFormed) (V : Type*) [Infinite V] :
    ∃ σ : Valuation V, σ.Satisfies p ∧ ∀ v w, σ v = σ w ↔ p.Alike v w := by
  obtain ⟨code, hcode⟩ := exists_injective_nat Value
  let φ : Value → V := fun v => Infinite.natEmbedding V (code v)
  have hφ : Function.Injective φ := (Infinite.natEmbedding V).injective.comp hcode
  -- values are equal exactly if what represents them is
  have hiff : ∀ v w, h.separating φ hφ v = h.separating φ hφ w ↔ p.Alike v w :=
    fun v w => hφ.eq_iff.trans h.root_eq_root_iff
  refine ⟨h.separating φ hφ, ⟨fun hv hw => (hiff _ _).2 (.inr ⟨_, hv, hw⟩), ?_⟩, hiff⟩
  intro d v w hd hv hw heq
  have hlt := h.ordered hd
  rcases (hiff v w).1 heq with rfl | ⟨a, hva, hwa⟩
  · exact absurd (h.disjoint hv hw) (Nat.ne_of_lt hlt)
  · exact absurd ((h.disjoint hv hva).trans (h.disjoint hwa hw)) (Nat.ne_of_lt hlt)

/-! ## The valuation that takes a class to null -/

/-- A class that differs from that of null is known not to be null. -/
theorem WellFormed.isNotNull_of_areDistinct (h : p.WellFormed) {a b : Nat} (hn : .null ∈ p.members b) (hab : a ≠ b)
    (hd : p.areDistinct a b) : p.isNotNull a := by
  unfold isNotNull
  rw [h.slot?_eq_some_iff.2 hn]
  simp [hd, hab.symm]

/-- A class that is not known to be non-null holds neither a boxed value nor a constant other than `null`. -/
theorem not_isNotNull {a : Nat} (h : p.isNotNull a = false) :
    (∀ v ∈ p.members a, v.isBoxed = false) ∧ ∀ v ∈ p.members a, v.isNonNullConstant = false := by
  unfold isNotNull at h
  rw [Bool.or_eq_false_iff, List.any_eq_false] at h
  refine ⟨fun v hv => ?_, fun v hv => ?_⟩
  · exact (Bool.or_eq_false_iff.1 (Bool.eq_false_iff.2 (h.1 v hv))).1
  · exact (Bool.or_eq_false_iff.1 (Bool.eq_false_iff.2 (h.1 v hv))).2

/-- Nothing speaks against an atom being null: it is no constant, not boxed, and its class is not known not to be
null. -/
structure MayBeNull (p : Partition) (v : Value) : Prop where
  constant : v.isConstant = false
  boxed : v.isBoxed = false
  slot : ∀ {a}, v ∈ p.members a → p.isNotNull a = false

namespace MayBeNull

variable {v : Value}

/-- No constant but null is in the class of the atom. -/
theorem eq_null_of_alike (hv : p.MayBeNull v) {c : Constant} (halike : p.Alike (.constant c) v) : c = .null := by
  rcases halike with rfl | ⟨a, hca, hva⟩
  · have hconstant := hv.constant
    simp [Value.isConstant, Value.constant?] at hconstant
  · have hnull := (not_isNotNull (hv.slot hva)).2 _ hca
    cases c <;> first | rfl | simp [Value.isNonNullConstant, Value.constant?, Constant.isNull] at hnull

/-- Nothing boxed is in the class of the atom. -/
theorem not_alike_boxed (hv : p.MayBeNull v) (w : Value) : ¬p.Alike (.boxed w) v := by
  rintro (rfl | ⟨a, hwa, hva⟩)
  · have hboxed := hv.boxed
    simp [Value.isBoxed] at hboxed
  · have hboxed := (not_isNotNull (hv.slot hva)).1 _ hwa
    simp [Value.isBoxed] at hboxed

open Classical in
/-- The valuation that takes the class of the atom to null, and agrees with another one elsewhere. -/
noncomputable def nulling {V : Type*} (hv : p.MayBeNull v) (σ : Valuation V) : Valuation V where
  value u := if p.Alike u v then σ .null else σ u
  constant_inj {c d} heq := by
    have hconstant : ∀ c, (if p.Alike (.constant c) v then σ .null else σ (.constant c)) = σ (.constant c) := by
      intro c
      split
      · rename_i halike
        rw [hv.eq_null_of_alike halike]
        rfl
      · rfl
    rw [hconstant, hconstant] at heq
    exact σ.constant_inj heq
  boxed_ne_null w := by
    rw [if_neg (hv.not_alike_boxed w)]
    split
    · exact σ.boxed_ne_null w
    · exact σ.boxed_ne_null w

theorem nulling_of_alike {V : Type*} (hv : p.MayBeNull v) (σ : Valuation V) {u : Value} (h : p.Alike u v) :
    hv.nulling σ u = σ .null := if_pos h

theorem nulling_of_not_alike {V : Type*} (hv : p.MayBeNull v) (σ : Valuation V) {u : Value} (h : ¬p.Alike u v) :
    hv.nulling σ u = σ u := if_neg h

theorem nulling_null {V : Type*} (hv : p.MayBeNull v) (σ : Valuation V) : hv.nulling σ .null = σ .null := by
  by_cases h : p.Alike .null v
  · exact hv.nulling_of_alike σ h
  · exact hv.nulling_of_not_alike σ h

/-- If a valuation separates all classes, what differs from the class of the atom differs from null. -/
theorem ne_null_of_areDistinct {V : Type*} (hv : p.MayBeNull v) (hp : p.WellFormed) {σ : Valuation V}
    (hsep : ∀ u w, σ u = σ w ↔ p.Alike u w) {a b : Nat} {u : Value} (hva : v ∈ p.members a) (hub : u ∈ p.members b)
    (hab : a ≠ b) (hd : p.areDistinct a b) : σ u ≠ σ .null := by
  intro heq
  have hn : .null ∈ p.members b := hp.mem_members_of_alike hub ((hsep u .null).1 heq)
  have hnotNull := hp.isNotNull_of_areDistinct hn hab hd
  rw [hv.slot hva] at hnotNull
  cases hnotNull

end MayBeNull

/-- **An atom that may be null is null under some valuation.** The valuation separates all classes but that of the
atom, which it takes to null. -/
theorem WellFormed.exists_null (h : p.WellFormed) (V : Type*) [Infinite V] {v : Value} (hv : p.MayBeNull v) :
    ∃ σ : Valuation V, σ.Satisfies p ∧ σ v = σ .null := by
  obtain ⟨σ, hσ, hsep⟩ := h.exists_separating V
  have hnull : hv.nulling σ v = hv.nulling σ .null := by
    rw [hv.nulling_null, hv.nulling_of_alike σ (.inl rfl)]
  refine ⟨hv.nulling σ, ⟨?_, ?_⟩, hnull⟩
  · intro a u w hu hw
    by_cases hva : v ∈ p.members a
    · -- the class of the atom
      rw [hv.nulling_of_alike σ (.inr ⟨a, hu, hva⟩), hv.nulling_of_alike σ (.inr ⟨a, hw, hva⟩)]
    · rw [hv.nulling_of_not_alike σ fun halike => hva (h.mem_members_of_alike hu halike),
        hv.nulling_of_not_alike σ fun halike => hva (h.mem_members_of_alike hw halike)]
      exact hσ.equal hu hw
  · intro d u w hd hu hw
    have hlt := h.ordered hd
    have hdistinct : p.areDistinct d.low d.high := by
      rw [areDistinct, SlotPair.of_low_high hlt]
      simpa using hd
    by_cases hvu : p.Alike u v
    · have hva := h.mem_members_of_alike hu hvu
      have hvw : ¬p.Alike w v := fun halike =>
        Nat.ne_of_lt hlt (h.disjoint hva (h.mem_members_of_alike hw halike))
      rw [hv.nulling_of_alike σ hvu, hv.nulling_of_not_alike σ hvw]
      exact (hv.ne_null_of_areDistinct h hsep hva hw (Nat.ne_of_lt hlt) hdistinct).symm
    · rw [hv.nulling_of_not_alike σ hvu]
      by_cases hvw : p.Alike w v
      · have hva := h.mem_members_of_alike hw hvw
        rw [areDistinct, SlotPair.of_comm] at hdistinct
        rw [hv.nulling_of_alike σ hvw]
        exact hv.ne_null_of_areDistinct h hsep hva hu (Nat.ne_of_gt hlt) hdistinct
      · rw [hv.nulling_of_not_alike σ hvw]
        exact hσ.differ hd hu hw

end Partition

end NullCheck
