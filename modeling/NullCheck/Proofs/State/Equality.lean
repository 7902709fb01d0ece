import NullCheck.Proofs.State.Valuation
import NullCheck.State.Condition

/-!
# Equalities of atoms are decided exactly

A frame answers an equality of two atoms with `false` only if no valuation that satisfies it makes the equality
true, and otherwise takes on exactly what the equality says. The same holds of inequalities, and of what is known
about null.

## The architecture

* **`EqualityOutcome`** lists what applying an equality can come to, once slots were made for both atoms. All later
  facts are read off its cases, and nothing unfolds `Frame.applyEquality` again.
* **`applyEquality_satisfies`**, **`applyEquality_refutes`**: what an outcome of `true` or `false` means.
* **`isNull_iff`**, **`isNotNull_iff`**: what is known about null is what all valuations agree on.
-/

namespace NullCheck

/-! ## Changes that leave the partition alone -/

namespace Frame

variable (f : Frame)

@[simp] theorem partition_markNullable (s : Scope) (v : Value) : (f.markNullable s v).partition = f.partition := rfl

@[simp] theorem partition_recordType (s : Scope) (v : Value) (t : JvmType) :
    (f.recordType s v t).partition = f.partition := by
  unfold recordType
  split <;> rfl

@[simp] theorem partition_refreshNullableMarks (a : Nat) : (f.refreshNullableMarks a).partition = f.partition := by
  unfold refreshNullableMarks
  split <;> rfl

@[simp] theorem partition_unite (a b : Nat) : (f.unite a b).partition = (f.partition.merge a b).2 := by
  unfold unite
  simp

/-- A note is made unless the classes are in conflict, and so differ anyway. -/
theorem partition_separate (a b : Nat) :
    (f.separate a b).partition = if f.partition.inConflict a b then f.partition else f.partition.separate a b := by
  unfold separate
  split <;> simp

end Frame

/-! ## The outcomes of an equality -/

def Partition.Contains (p : Partition) (v : Value) : Prop := ∃ a, v ∈ p.members a

/-- `q` is the partition `p` after slots `a` and `b` were made for two atoms. -/
structure Slotted (p q : Partition) (left right : Value) (a b : Nat) : Prop where
  left_mem : left ∈ q.members a
  right_mem : right ∈ q.members b
  wellFormed : p.WellFormed → q.WellFormed
  members : ∀ {c v}, v ∈ q.members c → v ∈ p.members c ∨ v = left ∨ v = right

/-- What it comes to to apply an equality, or an inequality if `negated`, of the atoms in two slots: whether it
holds, and the partition that is left. -/
inductive EqualityOutcome (q : Partition) (a b : Nat) : (negated holds : Bool) → Partition → Prop
  | same (negated : Bool) (hab : a = b) : EqualityOutcome q a b negated (!negated) q
  | refuted (hab : a ≠ b) (h : q.areDistinct a b ∨ q.inConflict a b) : EqualityOutcome q a b false false q
  | apart (hab : a ≠ b) (h : q.inConflict a b) : EqualityOutcome q a b true true q
  | separated (hab : a ≠ b) : EqualityOutcome q a b true true (q.separate a b)
  | merged (hab : a ≠ b) (hd : q.areDistinct a b = false) (hc : q.inConflict a b = false) :
      EqualityOutcome q a b false true (q.merge a b).2

namespace Frame

variable {f : Frame} {left right : Value} {negated : Bool}

/-- Both sides of an equation get slots, and nothing else changes. -/
theorem slotted_ensureSlots (f : Frame) (hl : left.isAtom) (hr : right.isAtom) :
    Slotted f.partition (f.ensureSlots left right).2.2.partition left right (f.ensureSlots left right).1
      (f.ensureSlots left right).2.1 := by
  unfold ensureSlots
  refine ⟨?_, Partition.mem_members_ensure_self _ _, fun h => (h.ensure hl).ensure hr, ?_⟩
  · exact Partition.mem_members_ensure.2 (.inl (Partition.mem_members_ensure_self _ _))
  · intro c v hv
    rcases Partition.mem_members_ensure.1 hv with hv' | ⟨hvr, _⟩
    · rcases Partition.mem_members_ensure.1 hv' with hv'' | ⟨hvl, _⟩
      · exact .inl hv''
      · exact .inr (.inl hvl)
    · exact .inr (.inr hvr)

/-- A new class of one atom restricts no valuation. -/
theorem satisfies_ensureSlots {V : Type*} {σ : Valuation V} (hf : f.partition.WellFormed) (hl : left.isAtom) :
    σ.Satisfies (f.ensureSlots left right).2.2.partition ↔ σ.Satisfies f.partition := by
  unfold ensureSlots
  exact (Valuation.satisfies_ensure (hf.ensure hl) right).trans (Valuation.satisfies_ensure hf left)

/-- Between values of which one is no atom the frame stays as it is. -/
theorem applyEquality_of_not_isAtom (h : ¬(left.isAtom ∧ right.isAtom)) :
    f.applyEquality left right negated = ⟨!f.nullnessContradicts left right || negated, f⟩ := by
  unfold applyEquality
  rw [if_pos]
  cases hl : left.isAtom <;> cases hr : right.isAtom <;> simp_all

/-- The cases of an equation are those of the relation: equal slots, slots that differ or are in conflict, and slots
that are merged or noted. -/
theorem applyEquality_outcome (f : Frame) (hl : left.isAtom) (hr : right.isAtom) (negated : Bool) :
    EqualityOutcome (f.ensureSlots left right).2.2.partition (f.ensureSlots left right).1
      (f.ensureSlots left right).2.1 negated (f.applyEquality left right negated).holds
      (f.applyEquality left right negated).frame.partition := by
  unfold applyEquality
  rw [if_neg (by simp [hl, hr])]
  generalize f.ensureSlots left right = slots
  obtain ⟨a, b, g⟩ := slots
  simp only
  split
  · -- the sides differ
    rename_i hn
    subst hn
    split
    · rename_i hab
      exact .same true hab
    · rename_i hab
      rw [partition_separate]
      split
      · rename_i hc
        exact .apart hab hc
      · exact .separated hab
  · -- the sides are equal
    rename_i hn
    rw [Bool.eq_false_iff.2 hn]
    split
    · rename_i hab
      exact .same false hab
    · rename_i hab
      split
      · rename_i hdc
        exact .refuted hab (by simpa using hdc)
      · rename_i hdc
        rw [partition_unite]
        simp only [Bool.or_eq_true, not_or, Bool.not_eq_true] at hdc
        exact .merged hab hdc.1 hdc.2

end Frame

/-! ## What an outcome means -/

namespace EqualityOutcome

variable {q p : Partition} {a b : Nat} {v w : Value} {negated holds : Bool}

/-- Whichever way an equation ends, classes stay well formed. -/
theorem wellFormed (h : EqualityOutcome q a b negated holds p) (hq : q.WellFormed) (hv : v ∈ q.members a)
    (hw : w ∈ q.members b) : p.WellFormed := by
  cases h with
  | same => exact hq
  | refuted => exact hq
  | apart => exact hq
  | separated hab => exact hq.separate hv hw hab
  | merged hab hd hc => exact hq.merge hv hw hab hd hc

/-- An equality that holds is all that the partition takes on. -/
theorem satisfies {V : Type*} {σ : Valuation V} (h : EqualityOutcome q a b negated true p) (hq : q.WellFormed)
    (hv : v ∈ q.members a) (hw : w ∈ q.members b) : σ.Satisfies p ↔ σ.Satisfies q ∧ σ.Fulfils negated v w := by
  -- the outcome is generalized, since `cases` needs a variable there
  generalize ht : true = holds at h
  unfold Valuation.Fulfils
  cases h with
  | same _ hab =>
    rw [show negated = false by simpa using ht, if_neg (by simp)]
    exact ⟨fun hσ => ⟨hσ, hσ.equal hv (hab ▸ hw)⟩, And.left⟩
  | refuted => simp at ht
  | apart hab hc =>
    rw [if_pos rfl]
    exact ⟨fun hσ => ⟨hσ, hσ.inConflict hq hab hc hv hw⟩, And.left⟩
  | separated =>
    rw [if_pos rfl]
    exact Valuation.satisfies_separate hv hw
  | merged hab =>
    rw [if_neg (by simp)]
    exact Valuation.satisfies_merge hq hv hw hab

/-- No atoms come up in an outcome that were not there. -/
theorem contains (h : EqualityOutcome q a b negated holds p) (hv : v ∈ q.members a) (hw : w ∈ q.members b)
    {u : Value} (hu : p.Contains u) : q.Contains u := by
  cases h with
  | same => exact hu
  | refuted => exact hu
  | apart => exact hu
  | separated => exact hu
  | merged hab =>
    obtain ⟨c, hc⟩ := hu
    obtain ⟨d, -, hd⟩ := (Partition.mem_members_merge_of_mem hv hw hab).mp hc
    exact ⟨d, hd⟩

/-- An equation that fails changes no classes. -/
theorem eq_of_not_holds (h : EqualityOutcome q a b negated false p) : p = q := by
  generalize hf : false = holds at h
  cases h with
  | same => rfl
  | refuted => rfl
  | apart => rfl
  | separated => simp at hf
  | merged => simp at hf

/-- An equality that does not hold is true under no valuation. -/
theorem refutes {V : Type*} {σ : Valuation V} (h : EqualityOutcome q a b negated false p) (hq : q.WellFormed)
    (hv : v ∈ q.members a) (hw : w ∈ q.members b) (hσ : σ.Satisfies q) : ¬σ.Fulfils negated v w := by
  generalize hf : false = holds at h
  unfold Valuation.Fulfils
  cases h with
  | same _ hab =>
    rw [show negated = true by simpa using hf, if_pos rfl]
    exact not_not_intro (hσ.equal hv (hab ▸ hw))
  | refuted hab hdc =>
    rw [if_neg (by simp)]
    -- the classes are noted as distinct, or hold what cannot be equal
    rcases hdc with hd | hc
    · exact hσ.areDistinct hd hv hw
    · exact hσ.inConflict hq hab hc hv hw
  | apart => simp at hf
  | separated => simp at hf
  | merged => simp at hf

end EqualityOutcome

namespace Frame

variable {f : Frame} {left right : Value} {negated : Bool} {V : Type*} {σ : Valuation V}

/-- An equation keeps classes well formed, also when its sides are no atoms. -/
theorem applyEquality_wellFormed (hf : f.partition.WellFormed) (left right : Value) (negated : Bool) :
    (f.applyEquality left right negated).frame.partition.WellFormed := by
  by_cases h : left.isAtom ∧ right.isAtom
  · have hs := slotted_ensureSlots f h.1 h.2
    exact (applyEquality_outcome f h.1 h.2 negated).wellFormed (hs.wellFormed hf) hs.left_mem hs.right_mem
  · rw [applyEquality_of_not_isAtom h]
    exact hf

/-- No atoms come up but those that are equated. -/
theorem applyEquality_contains (f : Frame) (left right : Value) (negated : Bool) {v : Value}
    (hv : (f.applyEquality left right negated).frame.partition.Contains v) :
    f.partition.Contains v ∨ v = left ∨ v = right := by
  by_cases h : left.isAtom ∧ right.isAtom
  · have hs := slotted_ensureSlots f h.1 h.2
    obtain ⟨a, ha⟩ := (applyEquality_outcome f h.1 h.2 negated).contains hs.left_mem hs.right_mem hv
    exact (hs.members ha).imp_left fun hmem => ⟨a, hmem⟩
  · rw [applyEquality_of_not_isAtom h] at hv
    exact Or.inl hv

/-- A frame takes on an equality that holds, and nothing else. -/
theorem applyEquality_satisfies (hf : f.partition.WellFormed) (hl : left.isAtom) (hr : right.isAtom)
    (h : (f.applyEquality left right negated).holds = true) :
    σ.Satisfies (f.applyEquality left right negated).frame.partition ↔
      σ.Satisfies f.partition ∧ σ.Fulfils negated left right := by
  have hs := slotted_ensureSlots f hl hr
  have ho := applyEquality_outcome f hl hr negated
  rw [h] at ho
  rw [ho.satisfies (hs.wellFormed hf) hs.left_mem hs.right_mem, satisfies_ensureSlots hf hl]

/-- An equality that does not hold is true under no valuation that satisfies the frame. -/
theorem applyEquality_refutes (hf : f.partition.WellFormed) (hl : left.isAtom) (hr : right.isAtom)
    (h : (f.applyEquality left right negated).holds = false) (hσ : σ.Satisfies f.partition) :
    ¬σ.Fulfils negated left right := by
  have hs := slotted_ensureSlots f hl hr
  have ho := applyEquality_outcome f hl hr negated
  rw [h] at ho
  exact ho.refutes (hs.wellFormed hf) hs.left_mem hs.right_mem ((satisfies_ensureSlots hf hl).2 hσ)

/-- A frame to which an equality was applied in vain says what it said before. -/
theorem applyEquality_satisfies_of_not_holds (hf : f.partition.WellFormed) (hl : left.isAtom) (hr : right.isAtom)
    (h : (f.applyEquality left right negated).holds = false) :
    σ.Satisfies (f.applyEquality left right negated).frame.partition ↔ σ.Satisfies f.partition := by
  have hs := slotted_ensureSlots f hl hr
  have ho := applyEquality_outcome f hl hr negated
  rw [h] at ho
  rw [ho.eq_of_not_holds, satisfies_ensureSlots hf hl]

/-- An equality holds exactly if some valuation that satisfies the frame makes it true. -/
theorem applyEquality_holds_iff [Infinite V] (hf : f.partition.WellFormed) (hl : left.isAtom) (hr : right.isAtom) :
    (f.applyEquality left right negated).holds = true ↔
      ∃ σ : Valuation V, σ.Satisfies f.partition ∧ σ.Fulfils negated left right := by
  constructor
  · intro h
    obtain ⟨σ, hσ, _⟩ := (applyEquality_wellFormed hf left right negated).exists_separating V
    exact ⟨σ, (applyEquality_satisfies hf hl hr h).1 hσ⟩
  · rintro ⟨σ, hσ, hfulfils⟩
    cases h : (f.applyEquality left right negated).holds with
    | true => rfl
    | false => exact absurd hfulfils (applyEquality_refutes hf hl hr h hσ)

/-- Of a valuation that satisfies the frame and makes the equality true, nothing is lost. -/
theorem applyEquality_sound (hf : f.partition.WellFormed) (hl : left.isAtom) (hr : right.isAtom)
    (hσ : σ.Satisfies f.partition) (hfulfils : σ.Fulfils negated left right) :
    (f.applyEquality left right negated).holds = true ∧
      σ.Satisfies (f.applyEquality left right negated).frame.partition := by
  cases h : (f.applyEquality left right negated).holds with
  | true => exact ⟨rfl, (applyEquality_satisfies hf hl hr h).2 ⟨hσ, hfulfils⟩⟩
  | false => exact absurd hfulfils (applyEquality_refutes hf hl hr h hσ)

/-! ## What is known about null -/

/-- An atom is known to be null iff it is alike to `null`. -/
theorem isNull_iff_alike (hf : f.partition.WellFormed) {v : Value} (hv : v.isAtom) :
    f.isNull v ↔ f.partition.Alike v .null := by
  unfold isNull Partition.Alike
  cases hs : f.partition.slot? v with
  | none =>
    -- without a slot it shares a class with nothing
    have hsame : ¬f.partition.Same v .null := fun ⟨a, ha, _⟩ => Partition.slot?_eq_none_iff.1 hs a ha
    simp [hsame]
  | some a =>
    cases hn : f.partition.slot? .null with
    | none =>
      have hsame : ¬f.partition.Same v .null := fun ⟨b, _, hb⟩ => Partition.slot?_eq_none_iff.1 hn b hb
      simp [hsame]
    | some b =>
      rw [hf.same_iff (Partition.mem_members_of_slot? hs) (Partition.mem_members_of_slot? hn)]
      simp [hv]

/-- **Null is proven exactly.** An atom is known to be null if all valuations agree that it is. -/
theorem isNull_iff [Infinite V] (hf : f.partition.WellFormed) {v : Value} (hv : v.isAtom) :
    f.isNull v ↔ ∀ σ : Valuation V, σ.Satisfies f.partition → σ v = σ .null := by
  rw [isNull_iff_alike hf hv]
  constructor
  · rintro (rfl | hsame) σ hσ
    · rfl
    · exact hσ.same hsame
  · intro h
    obtain ⟨σ, hσ, hsep⟩ := hf.exists_separating V
    exact (hsep v .null).1 (h σ hσ)

/-- A class that is known not to be null holds no value of null. -/
theorem isNotNull_slot_sound (hσ : σ.Satisfies f.partition) {a : Nat} {v : Value} (hv : v ∈ f.partition.members a)
    (h : f.partition.isNotNull a) : σ v ≠ σ .null := by
  unfold Partition.isNotNull at h
  rw [Bool.or_eq_true] at h
  -- some member is never null, or the class was told apart from that of `null`
  rcases h with h | h
  · obtain ⟨w, hw, hnn⟩ := List.any_eq_true.1 h
    rw [hσ.equal hv hw]
    rcases Bool.or_eq_true_iff.1 hnn with hb | hc
    · exact Valuation.ne_null_of_isBoxed hb
    · exact Valuation.ne_null_of_isNonNullConstant hc
  · cases hn : f.partition.slot? .null with
    | none => simp [hn] at h
    | some b =>
      simp only [hn, Bool.and_eq_true] at h
      exact hσ.areDistinct h.2 hv (Partition.mem_members_of_slot? hn)

/-- What is known not to be null is null under no valuation. -/
theorem isNotNull_sound (hσ : σ.Satisfies f.partition) {v : Value} (hv : v.isAtom) (h : f.isNotNull v) :
    σ v ≠ σ .null := by
  -- a variable, or what was unboxed, is asked about by its class
  have hslot : ∀ v, (f.partition.slot? v).any f.partition.isNotNull → σ v ≠ σ .null := by
    intro v hany
    obtain ⟨a, ha, hnn⟩ := (Option.any_eq_true _ _).1 hany
    exact isNotNull_slot_sound hσ (Partition.mem_members_of_slot? ha) hnn
  cases v with
  | var id viaMethods => exact hslot _ h
  | unboxed w => exact hslot _ h
  | boxed w => exact σ.boxed_ne_null w
  | constant c =>
    have hconstant : (Value.constant c).isNonNullConstant := by
      simpa [isNotNull, Value.isNonNullConstant, Value.constant?] using h
    exact Valuation.ne_null_of_isNonNullConstant hconstant
  | _ => simp [Value.isAtom] at hv

/-- **Everything else may be null.** An atom that is not known not to be null is null under some valuation. -/
theorem exists_null_of_not_isNotNull (V : Type*) [Infinite V] (hf : f.partition.WellFormed) {v : Value} (hv : v.isAtom)
    (h : f.isNotNull v = false) : ∃ σ : Valuation V, σ.Satisfies f.partition ∧ σ v = σ .null := by
  have hslot : ∀ v : Value, v.isConstant = false → v.isBoxed = false →
      (f.partition.slot? v).any f.partition.isNotNull = false →
      ∃ σ : Valuation V, σ.Satisfies f.partition ∧ σ v = σ .null := by
    intro v hc hb hany
    refine hf.exists_null V ⟨hc, hb, fun {a} ha => ?_⟩
    rw [hf.slot?_eq_some_iff.2 ha] at hany
    exact hany
  cases v with
  | var id viaMethods => exact hslot _ rfl rfl h
  | unboxed w => exact hslot _ rfl rfl h
  | boxed w => simp [isNotNull] at h
  | constant c =>
    -- only null is not known not to be null
    obtain ⟨σ, hσ, _⟩ := hf.exists_separating V
    have hnull : c = .null := by
      cases c <;> simp [isNotNull, Constant.isNull] at h ⊢
    exact ⟨σ, hσ, by rw [hnull]; rfl⟩
  | _ => simp [Value.isAtom] at hv

/-- **Non-nullness is proven exactly.** An atom is known not to be null if no valuation takes it to null. -/
theorem isNotNull_iff [Infinite V] (hf : f.partition.WellFormed) {v : Value} (hv : v.isAtom) :
    f.isNotNull v ↔ ∀ σ : Valuation V, σ.Satisfies f.partition → σ v ≠ σ .null := by
  constructor
  · intro h σ hσ
    exact isNotNull_sound hσ hv h
  · intro h
    cases hn : f.isNotNull v with
    | true => rfl
    | false =>
      obtain ⟨σ, hσ, hnull⟩ := exists_null_of_not_isNotNull V hf hv hn
      exact absurd hnull (h σ hσ)

/-- An atom can differ from null unless it is known to be null. -/
theorem applyEquality_not_null_holds (hf : f.partition.WellFormed) {v : Value} (hv : v.isAtom) :
    (f.applyEquality v .null true).holds = !f.isNull v := by
  rw [Bool.eq_iff_iff, applyEquality_holds_iff (V := ℕ) hf hv rfl, Bool.not_eq_true', Bool.eq_false_iff, ne_eq,
    isNull_iff (V := ℕ) hf hv]
  simp [Valuation.Fulfils]

end Frame

end NullCheck
