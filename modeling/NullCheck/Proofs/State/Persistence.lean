import NullCheck.Proofs.State.Reachable

/-!
# What partitions do not forget

Conditions only add to what a partition tells: atoms of one class stay in one class, and classes that differ stay
different. What is known of an atom is lost only when atoms are forgotten, and then as little as possible: of the
others, all that was told directly is told on.

That an atom is not null may show in three ways: its class differs from that of null, it holds a constant, or it
holds a boxed value. The last one alone may be lost with another variable, the one that was boxed.

## The architecture

* **`Partition.Grows`**: what one partition tells, another one tells too.
* **`Frame.grows_…`**: conditions let the partition grow.
* **`Frame.isNotNull_of_grows`**: what is known not to be null stays so as it grows.
* **`Partition.Same.forget`**, **`Partition.Apart.forget`**: what is told of atoms that are not forgotten.
* **`Partition.ShowsNotNull`**: that an atom is not null shows in something else than the boxed forms of some variables.
* **`Frame.isNotNull_iff_shows`**: it shows in anything at all just if it is known.
-/

namespace NullCheck

/-- Renaming a pair of slots is pairing the renamed slots. -/
@[simp] theorem SlotPair.map_of (rename : Nat → Nat) (a b : Nat) :
    (SlotPair.of a b).map rename = .of (rename a) (rename b) := by
  rcases SlotPair.of_cases a b with hof | hof
  · rw [hof]
    rfl
  · rw [hof, SlotPair.of_comm (rename a)]
    rfl

namespace Value

theorem base?_var_ne {id id' : VariableId} (h : id' ≠ id) (viaMethods : Bool) : (var id viaMethods).base? ≠ some id' :=
  fun hbase => h (Option.some.inj hbase).symm

theorem base?_null_ne (id : VariableId) : null.base? ≠ some id := fun hbase => by cases hbase

end Value

namespace Partition

variable {p q r : Partition} {v w : Value}

/-- The classes of two atoms are known to differ. -/
def Apart (p : Partition) (v w : Value) : Prop := ∃ a b, v ∈ p.members a ∧ w ∈ p.members b ∧ p.areDistinct a b = true

/-- What `p` tells of atoms, `q` tells too. -/
structure Grows (p q : Partition) : Prop where
  same : ∀ {v w}, p.Same v w → q.Same v w
  apart : ∀ {v w}, p.Apart v w → q.Apart v w

theorem Grows.refl (p : Partition) : p.Grows p := ⟨id, id⟩

theorem Grows.trans (hpq : p.Grows q) (hqr : q.Grows r) : p.Grows r :=
  ⟨fun h => hqr.same (hpq.same h), fun h => hqr.apart (hpq.apart h)⟩

theorem Grows.alike (hgrows : p.Grows q) (h : p.Alike v w) : q.Alike v w := h.imp_right hgrows.same

/-- A partition tells on whatever it told of slots, if those are renamed. -/
theorem Grows.of_renaming (rename : Nat → Nat) (hmembers : ∀ {a v}, v ∈ p.members a → v ∈ q.members (rename a))
    (hdistinct : ∀ {a b}, p.areDistinct a b = true → q.areDistinct (rename a) (rename b) = true) : p.Grows q where
  same := fun ⟨a, hv, hw⟩ => ⟨rename a, hmembers hv, hmembers hw⟩
  apart := fun ⟨a, b, hv, hw, hd⟩ => ⟨rename a, rename b, hmembers hv, hmembers hw, hdistinct hd⟩

theorem grows_ensure (p : Partition) (v : Value) : p.Grows (p.ensure v).2 := by
  refine .of_renaming id (fun hu => mem_members_ensure.mpr (.inl hu)) fun hd => ?_
  unfold areDistinct at hd ⊢
  rwa [distinct_ensure]

theorem grows_separate (p : Partition) (a b : Nat) : p.Grows (p.separate a b) := by
  refine .of_renaming id (fun hu => hu) fun hd => ?_
  unfold areDistinct at hd ⊢
  exact decide_eq_true (mem_distinct_separate.mpr (.inr (of_decide_eq_true hd)))

/-- A merge joins classes, and lets what was told apart be told apart. -/
theorem grows_merge {a b : Nat} (hv : v ∈ p.members a) (hw : w ∈ p.members b) (hab : a ≠ b) :
    p.Grows (p.merge a b).2 := by
  refine .of_renaming (renamed (max a b) (min a b)) (fun hu => ?_) fun hd => ?_
  · exact (mem_members_merge_of_mem hv hw hab).mpr ⟨_, rfl, hu⟩
  · unfold areDistinct at hd ⊢
    exact decide_eq_true (mem_distinct_merge.mpr ⟨_, of_decide_eq_true hd, SlotPair.map_of _ _ _⟩)

/-! ## Forgetting -/

theorem Same.forget {forgotten : Value → Bool} (h : p.Same v w) (hv : forgotten v = false) (hw : forgotten w = false) :
    (p.forget forgotten).Same v w := by
  obtain ⟨a, hva, hwa⟩ := h
  exact ⟨a, mem_members_forget.mpr ⟨hva, hv⟩, mem_members_forget.mpr ⟨hwa, hw⟩⟩

theorem Same.of_forget {forgotten : Value → Bool} (h : (p.forget forgotten).Same v w) : p.Same v w := by
  obtain ⟨a, hva, hwa⟩ := h
  exact ⟨a, (mem_members_forget.mp hva).1, (mem_members_forget.mp hwa).1⟩

/-- What is not forgotten stays told apart, since its classes still hold something. -/
theorem Apart.forget {forgotten : Value → Bool} (h : p.Apart v w) (hv : forgotten v = false)
    (hw : forgotten w = false) : (p.forget forgotten).Apart v w := by
  obtain ⟨a, b, hva, hwb, hd⟩ := h
  have hva' := mem_members_forget.mpr ⟨hva, hv⟩
  have hwb' := mem_members_forget.mpr ⟨hwb, hw⟩
  refine ⟨a, b, hva', hwb', ?_⟩
  -- the pair is kept because either slot still holds something
  refine decide_eq_true (mem_distinct_forget.mpr ⟨of_decide_eq_true hd, ?_⟩)
  rcases SlotPair.of_cases a b with hof | hof
  · rw [hof]
    exact ⟨⟨v, hva'⟩, ⟨w, hwb'⟩⟩
  · rw [hof]
    exact ⟨⟨w, hwb'⟩, ⟨v, hva'⟩⟩

/-! ## What shows that an atom is not null -/

/-- That an atom is not null shows in something that does not depend on the variables in `lost`. -/
def ShowsNotNull (p : Partition) (lost : VariableId → Prop) (v : Value) : Prop :=
  p.Apart v .null ∨ (∃ w, p.Same v w ∧ w.isNonNullConstant = true) ∨
    ∃ w, p.Same v w ∧ w.isBoxed = true ∧ ∀ id, w.base? = some id → ¬lost id

/-- A partition that keeps all that another one says still shows that a value is not null. -/
theorem ShowsNotNull.mono {lost : VariableId → Prop} (h : p.ShowsNotNull lost v) (hgrows : p.Grows q) :
    q.ShowsNotNull lost v := by
  rcases h with hd | ⟨w, hw, hc⟩ | ⟨w, hw, hb⟩
  · exact Or.inl (hgrows.apart hd)
  · exact Or.inr (Or.inl ⟨w, hgrows.same hw, hc⟩)
  · exact Or.inr (Or.inr ⟨w, hgrows.same hw, hb⟩)

/-- What shows without some variables shows without fewer of them. -/
theorem ShowsNotNull.of_imp {lost lost' : VariableId → Prop} (h : p.ShowsNotNull lost v)
    (hle : ∀ id, lost' id → lost id) : p.ShowsNotNull lost' v := by
  rcases h with hd | hc | ⟨w, hw, hb, hbase⟩
  · exact Or.inl hd
  · exact Or.inr (Or.inl hc)
  · exact Or.inr (Or.inr ⟨w, hw, hb, fun id hid hlost => hbase id hid (hle id hlost)⟩)

/-- To forget a variable in `lost` leaves what does not depend on those. -/
theorem ShowsNotNull.forget {lost : VariableId → Prop} (h : p.ShowsNotNull lost v) {id : VariableId} (hid : lost id)
    (hv : v.base? ≠ some id) : (p.forget fun u => u.base? = some id).ShowsNotNull lost v := by
  have hkept : ∀ {u : Value}, u.base? ≠ some id → decide (u.base? = some id) = false := fun hu => decide_eq_false hu
  rcases h with hd | ⟨w, hw, hc⟩ | ⟨w, hw, hb, hbase⟩
  · exact Or.inl (hd.forget (hkept hv) rfl)
  · have hw' : w.base? ≠ some id := by
      intro hbase
      cases w <;> first | cases hc | cases hbase
    exact Or.inr (Or.inl ⟨w, hw.forget (hkept hv) (hkept hw'), hc⟩)
  · have hw' : w.base? ≠ some id := fun h => hbase id h hid
    exact Or.inr (Or.inr ⟨w, hw.forget (hkept hv) (hkept hw'), hb, hbase⟩)

end Partition

namespace EqualityOutcome

/-- Whichever way an equation ends, the partition keeps what it said. -/
theorem grows {q p : Partition} {a b : Nat} {negated holds : Bool} (h : EqualityOutcome q a b negated holds p)
    {v w : Value} (hv : v ∈ q.members a) (hw : w ∈ q.members b) : q.Grows p := by
  cases h with
  | same => exact .refl q
  | refuted => exact .refl q
  | apart => exact .refl q
  | separated => exact Partition.grows_separate q a b
  | merged hab => exact Partition.grows_merge hv hw hab

end EqualityOutcome

/-- A valuation that agrees with a partition agrees with one that tells less. -/
theorem Valuation.Satisfies.of_grows {V : Type*} {σ : Valuation V} {p q : Partition} (hσ : σ.Satisfies q)
    (hp : p.WellFormed) (hgrows : p.Grows q) : σ.Satisfies p where
  equal hv hw := hσ.same (hgrows.same ⟨_, hv, hw⟩)
  differ {d v w} hd hv hw := by
    have hapart : p.Apart v w := ⟨d.low, d.high, hv, hw, decide_eq_true (by rwa [SlotPair.of_low_high (hp.ordered hd)])⟩
    obtain ⟨a, b, hv', hw', hdistinct⟩ := hgrows.apart hapart
    exact hσ.areDistinct hdistinct hv' hw'

/-! ## Conditions -/

namespace Frame

variable {f : Frame} {s : Scope}

/-- An equation adds to what is known, or leaves it. -/
theorem grows_applyEquality (f : Frame) (left right : Value) (negated : Bool) :
    f.partition.Grows (f.applyEquality left right negated).frame.partition := by
  by_cases h : left.isAtom ∧ right.isAtom
  · have hslots : f.partition.Grows (f.ensureSlots left right).2.2.partition :=
      (Partition.grows_ensure f.partition left).trans (Partition.grows_ensure _ right)
    have hslotted := slotted_ensureSlots f h.1 h.2
    exact hslots.trans ((applyEquality_outcome f h.1 h.2 negated).grows hslotted.left_mem hslotted.right_mem)
  · rw [applyEquality_of_not_isAtom h]
    exact .refl _

/-- A test of a type adds an equation with `null`, if anything. -/
theorem grows_applyInstanceOf (f : Frame) (s : Scope) (negated : Bool) (left right : Value) :
    f.partition.Grows (f.applyInstanceOf s negated left right).frame.partition := by
  unfold applyInstanceOf
  split
  · simp only
    split
    · split
      · rw [partition_addNotInstanceOf]
        exact .refl _
      · exact partition_addNotInstanceOf f s left _ ▸ grows_applyEquality (f.addNotInstanceOf s left _).frame left .null false
    · split
      · rw [partition_addInstanceOf]
        exact grows_applyEquality f left .null true
      · exact grows_applyEquality f left .null true
  · exact .refl _

/-- An order changes nothing, the other conditions add to what is known. -/
theorem grows_applyRelation (f : Frame) (s : Scope) (kind : RelationKind) (negated : Bool) (left right : Value) :
    f.partition.Grows (f.applyRelation s kind negated left right).frame.partition := by
  cases kind with
  | eq => exact grows_applyEquality f left right negated
  | lt =>
    show f.partition.Grows (f.applyOrdering .lt negated left right).frame.partition
    rw [frame_applyOrdering]
    exact .refl _
  | gt =>
    show f.partition.Grows (f.applyOrdering .gt negated left right).frame.partition
    rw [frame_applyOrdering]
    exact .refl _
  | instanceOf => exact grows_applyInstanceOf f s negated left right

theorem grows_applyNotNull (f : Frame) (v : Value) : f.partition.Grows (f.applyNotNull v).frame.partition := by
  unfold applyNotNull
  split
  · exact grows_applyEquality f v .null true
  · exact .refl _

/-- To adopt a value is an equation, or facts that a partition does not hold. -/
theorem grows_adopt (f : Frame) (s : Scope) (target value : Value) :
    f.partition.Grows (f.adopt s target value).partition := by
  unfold adopt
  split
  · rw [partition_recordType]
    exact grows_applyEquality f target .null true
  · rw [partition_recordType]
    split
    · exact grows_applyEquality f target .null true
    · exact .refl _
    · exact .refl _
  · exact .refl _
  · exact .refl _
  · exact grows_applyEquality f target _ false

/-! ## Atoms that are not null -/

/-- What is known not to be null stays so as the partition grows. -/
theorem isNotNull_of_grows {g : Frame} (hf : f.partition.WellFormed) (hg : g.partition.WellFormed)
    (hgrows : f.partition.Grows g.partition) {v : Value} (hv : v.isAtom) (h : f.isNotNull v = true) :
    g.isNotNull v = true :=
  (isNotNull_iff (V := ℕ) hg hv).mpr fun _ hσ => isNotNull_sound (hσ.of_grows hf hgrows) hv h

/-- **A variable is known not to be null just if something shows it.** -/
theorem isNotNull_iff_shows (hf : f.partition.WellFormed) {id : VariableId} {viaMethods : Bool} :
    f.isNotNull (.var id viaMethods) = true ↔ f.partition.ShowsNotNull (fun _ => False) (.var id viaMethods) := by
  constructor
  · intro h
    obtain ⟨a, ha, hnotNull⟩ := (Option.any_eq_true _ _).mp h
    have hmem := Partition.mem_members_of_slot? ha
    unfold Partition.isNotNull at hnotNull
    rcases Bool.or_eq_true_iff.mp hnotNull with hany | hnull
    · obtain ⟨w, hw, hkind⟩ := List.any_eq_true.mp hany
      rcases Bool.or_eq_true_iff.mp hkind with hb | hc
      · exact Or.inr (Or.inr ⟨w, ⟨a, hmem, hw⟩, hb, fun _ _ h => h⟩)
      · exact Or.inr (Or.inl ⟨w, ⟨a, hmem, hw⟩, hc⟩)
    · cases hn : f.partition.slot? .null with
      | none => simp [hn] at hnull
      | some n =>
        simp only [hn, Bool.and_eq_true] at hnull
        exact Or.inl ⟨a, n, hmem, Partition.mem_members_of_slot? hn, hnull.2⟩
  · intro h
    -- the valuations know: whatever shows it rules out that the variable is null
    refine (isNotNull_iff (V := ℕ) hf rfl).mpr fun σ hσ => ?_
    rcases h with ⟨a, b, ha, hb, hd⟩ | ⟨w, hw, hc⟩ | ⟨w, hw, hb, -⟩
    · exact hσ.areDistinct hd ha hb
    · rw [hσ.same hw]
      exact Valuation.ne_null_of_isNonNullConstant hc
    · rw [hσ.same hw]
      exact Valuation.ne_null_of_isBoxed hb

/-- Changes of variables in `lost` leave what shows another variable not to be null. -/
theorem shows_flushVariable {lost : VariableId → Prop} {y : VariableId} {viaMethods : Bool}
    (h : f.partition.ShowsNotNull lost (.var y viaMethods)) (hy : ¬lost y) {id : VariableId} (hid : lost id) :
    (f.flushVariable id).partition.ShowsNotNull lost (.var y viaMethods) := by
  have hne : id ≠ y := fun heq => hy (heq ▸ hid)
  exact h.forget hid (Value.base?_var_ne hne viaMethods)

/-- An assignment to a variable that is lost anyway keeps what shows without it. -/
theorem shows_assign {lost : VariableId → Prop} {y : VariableId} {viaMethods : Bool}
    (h : f.partition.ShowsNotNull lost (.var y viaMethods)) (hy : ¬lost y) (s : Scope) {target : Value}
    (htarget : ∀ id, target.varId? = some id → lost id) (value : Value) :
    (f.assign s target value).partition.ShowsNotNull lost (.var y viaMethods) := by
  unfold assign
  split
  · exact h
  · rename_i id hid
    split
    · exact h
    · -- an assignment flushes, and then lets the partition grow
      let g : Frame := { f.flushVariable id with bindings := Sorted.put id value (f.flushVariable id).bindings }
      have hflushed : g.partition.ShowsNotNull lost (.var y viaMethods) := shows_flushVariable h hy (htarget id hid)
      exact hflushed.mono (grows_adopt g s target value)

end Frame

end NullCheck
