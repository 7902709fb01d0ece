import NullCheck.State.Partition

/-!
# Well-formed partitions

A partition is built by four changes: a class is made for an atom, two slots are told apart, two classes are
merged, and atoms are forgotten. This module says what each change does to the atoms in every slot and to the
pairs of slots that differ, and that none of them breaks the invariant on which every answer rests.

## The architecture

* **`Partition.WellFormed`** is the invariant: an atom is in one slot at most, no slot holds two constants or null
  beside a boxed value, and pairs that differ are ordered pairs of slots that hold something.
* **`slot?_eq_some_iff`** turns the search for a slot into membership; nothing later looks at the list of classes.
* **`mem_members_…`** and **`mem_distinct_…`** say what is in a slot, and which pairs differ, after each change.
* **`WellFormed.…`** keeps the invariant through each change.
-/

namespace NullCheck

/-- A pair of slots is the one or the other way round. -/
theorem SlotPair.of_cases (a b : Nat) : SlotPair.of a b = ⟨a, b⟩ ∨ SlotPair.of a b = ⟨b, a⟩ := by
  unfold SlotPair.of
  rcases Nat.le_total a b with hle | hle
  · left
    rw [Nat.min_eq_left hle, Nat.max_eq_right hle]
  · right
    rw [Nat.min_eq_right hle, Nat.max_eq_left hle]

theorem SlotPair.of_low_high {d : SlotPair} (h : d.low < d.high) : SlotPair.of d.low d.high = d := by
  unfold SlotPair.of
  rw [Nat.min_eq_left (Nat.le_of_lt h), Nat.max_eq_right (Nat.le_of_lt h)]

namespace Partition

variable {p : Partition}

/-- Two atoms are in one class. -/
def Same (p : Partition) (v w : Value) : Prop := ∃ a, v ∈ p.members a ∧ w ∈ p.members a

/-- Two values are one, or in one class. -/
def Alike (p : Partition) (u v : Value) : Prop := u = v ∨ p.Same u v

/-- The invariant of partitions. -/
structure WellFormed (p : Partition) : Prop where
  atom : ∀ {a v}, v ∈ p.members a → v.isAtom
  disjoint : ∀ {a b v}, v ∈ p.members a → v ∈ p.members b → a = b
  constant : ∀ {a v w}, v ∈ p.members a → w ∈ p.members a → v.isConstant → w.isConstant → v = w
  boxed : ∀ {a v}, .null ∈ p.members a → v ∈ p.members a → v.isBoxed = false
  ordered : ∀ {d}, d ∈ p.distinct → d.low < d.high
  inhabited : ∀ {d}, d ∈ p.distinct → (∃ v, v ∈ p.members d.low) ∧ ∃ v, v ∈ p.members d.high

/-! ## Looking up slots -/

theorem members_of_getElem? {a : Nat} {c : List Value} (h : p.classes[a]? = some c) : p.members a = c := by
  unfold members
  rw [h]
  rfl

/-- A slot that holds something is one of the slots there are. -/
theorem lt_length_of_mem_members {a : Nat} {v : Value} (h : v ∈ p.members a) : a < p.classes.length := by
  refine Nat.lt_of_not_le fun hle => ?_
  unfold members at h
  rw [List.getElem?_eq_none hle] at h
  simp at h

theorem mem_members_of_slot? {a : Nat} {v : Value} (h : p.slot? v = some a) : v ∈ p.members a := by
  obtain ⟨hlt, hmem, _⟩ := List.findIdx?_eq_some_iff_getElem.1 h
  rw [members_of_getElem? (List.getElem?_eq_getElem hlt)]
  simpa using hmem

/-- An atom without a slot is in no class. -/
theorem slot?_eq_none_iff {v : Value} : p.slot? v = none ↔ ∀ a, v ∉ p.members a := by
  unfold slot?
  rw [List.findIdx?_eq_none_iff]
  constructor
  · intro h a hmem
    have hlt := lt_length_of_mem_members hmem
    rw [members_of_getElem? (List.getElem?_eq_getElem hlt)] at hmem
    simpa [hmem] using h _ (List.getElem_mem hlt)
  · intro h c hc
    obtain ⟨a, ha⟩ := List.getElem?_of_mem hc
    have hmem := h a
    rw [members_of_getElem? ha] at hmem
    simpa using hmem

/-- The slot of an atom is the one slot that holds it. -/
theorem WellFormed.slot?_eq_some_iff (h : p.WellFormed) {a : Nat} {v : Value} :
    p.slot? v = some a ↔ v ∈ p.members a := by
  constructor
  · exact mem_members_of_slot?
  · intro hmem
    cases hs : p.slot? v with
    | none => exact absurd hmem (slot?_eq_none_iff.1 hs a)
    | some b => rw [h.disjoint (mem_members_of_slot? hs) hmem]

/-- Atoms with slots are in one class exactly when the slots are the same. -/
theorem WellFormed.same_iff (h : p.WellFormed) {a b : Nat} {v w : Value} (hv : v ∈ p.members a)
    (hw : w ∈ p.members b) : p.Same v w ↔ a = b := by
  constructor
  · rintro ⟨c, hvc, hwc⟩
    rw [h.disjoint hv hvc, h.disjoint hw hwc]
  · rintro rfl
    exact ⟨a, hv, hw⟩

theorem Alike.symm {v w : Value} (h : p.Alike v w) : p.Alike w v := by
  rcases h with rfl | ⟨a, hv, hw⟩
  · exact Or.inl rfl
  · exact Or.inr ⟨a, hw, hv⟩

/-- A class holds all that is alike to one of its members. -/
theorem WellFormed.mem_members_of_alike (h : p.WellFormed) {a : Nat} {u v : Value} (hu : u ∈ p.members a)
    (halike : p.Alike u v) : v ∈ p.members a := by
  rcases halike with rfl | ⟨b, hub, hvb⟩
  · exact hu
  · rwa [h.disjoint hu hub]

/-! ## The constant in a slot -/

theorem constant?_spec {a : Nat} {k : Value} (h : p.constant? a = some k) :
    k ∈ p.members a ∧ k.isConstant :=
  ⟨List.mem_of_find?_eq_some h, List.find?_some h⟩

theorem constant?_isSome_iff {a : Nat} :
    (p.constant? a).isSome ↔ ∃ k ∈ p.members a, k.isConstant := by
  unfold constant?
  rw [List.find?_isSome]

/-- The constant in a slot is the only one there. -/
theorem WellFormed.constant?_eq_some_iff (h : p.WellFormed) {a : Nat} {k : Value} :
    p.constant? a = some k ↔ k ∈ p.members a ∧ k.isConstant := by
  constructor
  · exact constant?_spec
  · rintro ⟨hmem, hk⟩
    obtain ⟨j, hj⟩ := Option.isSome_iff_exists.1 (constant?_isSome_iff.2 ⟨k, hmem, hk⟩)
    obtain ⟨hjm, hjk⟩ := constant?_spec hj
    rw [hj, h.constant hjm hmem hjk hk]

/-! ## Making a class -/

/-- The slot that an atom is given was empty. -/
theorem members_ensure_fst {v : Value} (h : p.slot? v = none) : p.members (p.ensure v).1 = [] := by
  unfold ensure
  rw [h]
  cases hs : p.classes.findIdx? List.isEmpty with
  | some a =>
    obtain ⟨hlt, hempty, _⟩ := List.findIdx?_eq_some_iff_getElem.1 hs
    rw [members_of_getElem? (List.getElem?_eq_getElem hlt)]
    simpa using hempty
  | none => simp [members]

/-- Only the slot that is given changes, whether it was there or is appended. -/
theorem members_ensure_of_none {v : Value} (h : p.slot? v = none) (b : Nat) :
    (p.ensure v).2.members b = if b = (p.ensure v).1 then [v] else p.members b := by
  unfold ensure
  rw [h]
  cases hs : p.classes.findIdx? List.isEmpty with
  -- an empty class is used again
  | some a =>
    have hlt : a < p.classes.length := (List.findIdx?_eq_some_iff_getElem.1 hs).1
    by_cases hb : b = a
    · simp [members, hb, hlt]
    · simp [members, hb, List.getElem?_set_ne (Ne.symm hb)]
  | none =>
    rcases Nat.lt_trichotomy b p.classes.length with hb | hb | hb
    · simp [members, List.getElem?_append_left hb, Nat.ne_of_lt hb]
    · simp [members, hb]
    · rw [members, members, List.getElem?_eq_none (by simp; omega), List.getElem?_eq_none (by omega)]
      simp [Nat.ne_of_gt hb]

/-- A class that is made for an atom goes to a slot that held nothing. -/
theorem mem_members_ensure_of_none {v w : Value} {b : Nat} (h : p.slot? v = none) :
    (∀ u, u ∉ p.members (p.ensure v).1) ∧
      (w ∈ (p.ensure v).2.members b ↔ w ∈ p.members b ∨ w = v ∧ b = (p.ensure v).1) := by
  have hfree : p.members (p.ensure v).1 = [] := members_ensure_fst h
  refine ⟨by simp [hfree], ?_⟩
  rw [members_ensure_of_none h]
  by_cases hb : b = (p.ensure v).1
  · rw [if_pos hb, hb, hfree]
    simp
  · rw [if_neg hb]
    simp [hb]

/-- Only the atom that is asked for can be new, and only in the slot that is given. -/
theorem mem_members_ensure {v w : Value} {b : Nat} :
    w ∈ (p.ensure v).2.members b ↔ w ∈ p.members b ∨ w = v ∧ b = (p.ensure v).1 := by
  cases h : p.slot? v with
  | none => exact (mem_members_ensure_of_none h).2
  | some a =>
    have hens : p.ensure v = (a, p) := by simp [ensure, h]
    rw [hens]
    constructor
    · exact Or.inl
    · rintro (hmem | ⟨rfl, rfl⟩)
      · exact hmem
      · exact mem_members_of_slot? h

/-- After a class was made for an atom, the atom is in its slot. -/
theorem mem_members_ensure_self (p : Partition) (v : Value) : v ∈ (p.ensure v).2.members (p.ensure v).1 :=
  mem_members_ensure.2 (.inr ⟨rfl, rfl⟩)

@[simp] theorem distinct_ensure (p : Partition) (v : Value) : (p.ensure v).2.distinct = p.distinct := by
  unfold ensure
  split
  · rfl
  · split <;> rfl

/-- Two atoms of one slot were there before, or are the atom that the class was made for. -/
theorem mem_members_ensure_pair {v u w : Value} {a : Nat} (h : p.slot? v = none) (hu : u ∈ (p.ensure v).2.members a)
    (hw : w ∈ (p.ensure v).2.members a) : u ∈ p.members a ∧ w ∈ p.members a ∨ u = v ∧ w = v := by
  have hfree : ∀ u, u ∉ p.members (p.ensure v).1 := (mem_members_ensure_of_none (w := v) (b := 0) h).1
  rcases mem_members_ensure.1 hu with hu' | ⟨huv, ha⟩ <;> rcases mem_members_ensure.1 hw with hw' | ⟨hwv, ha'⟩
  · exact Or.inl ⟨hu', hw'⟩
  · exact absurd (ha' ▸ hu') (hfree u)
  · exact absurd (ha ▸ hw') (hfree w)
  · exact Or.inr ⟨huv, hwv⟩

/-- A class of one atom is well formed, and the atom was in no other one. -/
theorem WellFormed.ensure (h : p.WellFormed) {v : Value} (hv : v.isAtom) : (p.ensure v).2.WellFormed := by
  cases hs : p.slot? v with
  | some a =>
    rw [show p.ensure v = (a, p) by simp [Partition.ensure, hs]]
    exact h
  | none =>
    have hnew : ∀ a, v ∉ p.members a := slot?_eq_none_iff.1 hs
    constructor
    · intro a w hw
      rcases mem_members_ensure.1 hw with hw | ⟨rfl, _⟩
      · exact h.atom hw
      · exact hv
    · -- the new atom is nowhere else
      intro a b w ha hb
      rcases mem_members_ensure.1 ha with ha' | ⟨hwv, ha'⟩ <;> rcases mem_members_ensure.1 hb with hb' | ⟨hwv', hb'⟩
      · exact h.disjoint ha' hb'
      · exact absurd (hwv' ▸ ha') (hnew a)
      · exact absurd (hwv ▸ hb') (hnew b)
      · rw [ha', hb']
    · intro a w u hw hu hwc huc
      rcases mem_members_ensure_pair hs hw hu with ⟨hw', hu'⟩ | ⟨rfl, rfl⟩
      · exact h.constant hw' hu' hwc huc
      · rfl
    · intro a w hn hw
      rcases mem_members_ensure_pair hs hn hw with ⟨hn', hw'⟩ | ⟨hnv, rfl⟩
      · exact h.boxed hn' hw'
      · rw [← hnv]
        rfl
    · intro d hd
      rw [distinct_ensure] at hd
      exact h.ordered hd
    · intro d hd
      rw [distinct_ensure] at hd
      obtain ⟨⟨v₁, h₁⟩, ⟨v₂, h₂⟩⟩ := h.inhabited hd
      exact ⟨⟨v₁, mem_members_ensure.2 (.inl h₁)⟩, ⟨v₂, mem_members_ensure.2 (.inl h₂)⟩⟩

/-! ## Telling slots apart -/

@[simp] theorem members_separate (p : Partition) (a b c : Nat) : (p.separate a b).members c = p.members c := rfl

theorem mem_distinct_separate {a b : Nat} {d : SlotPair} :
    d ∈ (p.separate a b).distinct ↔ d = .of a b ∨ d ∈ p.distinct := by
  unfold separate
  exact Sorted.mem_insert

/-- A pair that is noted is one of different slots that hold something. -/
theorem WellFormed.separate (h : p.WellFormed) {a b : Nat} {v w : Value} (hv : v ∈ p.members a)
    (hw : w ∈ p.members b) (hab : a ≠ b) : (p.separate a b).WellFormed where
  atom := h.atom
  disjoint := h.disjoint
  constant := h.constant
  boxed := h.boxed
  ordered := by
    intro d hd
    rcases mem_distinct_separate.1 hd with rfl | hd
    · simp only [SlotPair.of]
      omega
    · exact h.ordered hd
  inhabited := by
    intro d hd
    rcases mem_distinct_separate.1 hd with rfl | hd
    · -- the pair is kept in order, whichever slot is the lower one
      rcases Nat.le_total a b with hle | hle
      · simp only [SlotPair.of, members_separate, Nat.min_eq_left hle, Nat.max_eq_right hle]
        exact ⟨⟨v, hv⟩, ⟨w, hw⟩⟩
      · simp only [SlotPair.of, members_separate, Nat.min_eq_right hle, Nat.max_eq_left hle]
        exact ⟨⟨w, hw⟩, ⟨v, hv⟩⟩
    · exact h.inhabited hd

/-! ## Merging classes

Merging renames the emptied slot to the one that is kept, in the classes and in the pairs alike. -/

/-- Renaming brings two slots together only if they are the ones that are merged. -/
theorem renamed_eq_renamed_iff {a b c d : Nat} :
    renamed (max a b) (min a b) c = renamed (max a b) (min a b) d ↔ c = d ∨ c = a ∧ d = b ∨ c = b ∧ d = a := by
  unfold renamed
  split <;> split <;> omega

/-- A pair of slots that is brought together is the pair of those that are merged. -/
theorem eq_of_renamed_eq {a b : Nat} {e : SlotPair} (hlt : e.low < e.high)
    (heq : renamed (max a b) (min a b) e.low = renamed (max a b) (min a b) e.high) : e = .of a b := by
  obtain ⟨low, high⟩ := e
  unfold SlotPair.of
  rcases renamed_eq_renamed_iff.1 heq with heq | ⟨rfl, rfl⟩ | ⟨rfl, rfl⟩
  · exact absurd heq (Nat.ne_of_lt hlt)
  · simp only [SlotPair.mk.injEq] at hlt ⊢
    omega
  · simp only [SlotPair.mk.injEq] at hlt ⊢
    omega

/-- The slot that is emptied holds nothing. -/
theorem members_merge_max {a b : Nat} (ha : a < p.classes.length) (hb : b < p.classes.length) :
    (p.merge a b).2.members (max a b) = [] := by
  have hmax : max a b < p.classes.length := by omega
  simp [merge, members, hmax]

/-- The slot that is kept holds what was in it and in the emptied one. -/
theorem members_merge_min {a b : Nat} (ha : a < p.classes.length) (hb : b < p.classes.length) (hab : a ≠ b) :
    (p.merge a b).2.members (min a b) = Sorted.insertAll (p.members (max a b)) (p.members (min a b)) := by
  have hmin : min a b < p.classes.length := by omega
  have hne : max a b ≠ min a b := by omega
  simp only [merge, members]
  rw [List.getElem?_set_ne hne, List.getElem?_set_self hmin]
  rfl

theorem members_merge_of_ne {a b c : Nat} (hmax : c ≠ max a b) (hmin : c ≠ min a b) :
    (p.merge a b).2.members c = p.members c := by
  simp only [merge, members]
  rw [List.getElem?_set_ne (Ne.symm hmax), List.getElem?_set_ne (Ne.symm hmin)]

/-- What a slot holds after a merge are the members of the slots that were given its name. -/
theorem mem_members_merge {a b c : Nat} {v : Value} (ha : a < p.classes.length) (hb : b < p.classes.length)
    (hab : a ≠ b) :
    v ∈ (p.merge a b).2.members c ↔ ∃ d, renamed (max a b) (min a b) d = c ∧ v ∈ p.members d := by
  by_cases hc : c = max a b
  · -- nothing is renamed to the emptied slot
    rw [hc, members_merge_max ha hb]
    constructor
    · simp
    · rintro ⟨d, hd, _⟩
      unfold renamed at hd
      split at hd <;> omega
  · by_cases hk : c = min a b
    · rw [hk, members_merge_min ha hb hab, Sorted.mem_insertAll]
      constructor
      · rintro (hv | hv)
        · exact ⟨max a b, by simp [renamed], hv⟩
        · exact ⟨min a b, by simp [renamed], hv⟩
      · rintro ⟨d, hd, hv⟩
        unfold renamed at hd
        split at hd
        · rename_i hdm
          exact .inl (hdm ▸ hv)
        · exact .inr (hd ▸ hv)
    · rw [members_merge_of_ne hc hk]
      constructor
      · exact fun hv => ⟨c, by simp [renamed, hc], hv⟩
      · rintro ⟨d, hd, hv⟩
        unfold renamed at hd
        split at hd
        · exact absurd hd.symm hk
        · exact hd ▸ hv

/-- Slots that hold something exist. -/
theorem mem_members_merge_of_mem {a b c : Nat} {u v w : Value} (hv : v ∈ p.members a) (hw : w ∈ p.members b)
    (hab : a ≠ b) : u ∈ (p.merge a b).2.members c ↔ ∃ d, renamed (max a b) (min a b) d = c ∧ u ∈ p.members d :=
  mem_members_merge (lt_length_of_mem_members hv) (lt_length_of_mem_members hw) hab

theorem mem_distinct_merge {a b : Nat} {d : SlotPair} :
    d ∈ (p.merge a b).2.distinct ↔ ∃ e ∈ p.distinct, e.map (renamed (max a b) (min a b)) = d := by
  simp [merge]

/-- Classes are in conflict if both hold a constant, or if `null` would meet a boxed value. -/
theorem inConflict_iff {a b : Nat} :
    p.inConflict a b ↔
      (∃ v ∈ p.members a, v.isConstant) ∧ (∃ v ∈ p.members b, v.isConstant) ∨
        .null ∈ p.members a ∧ (∃ v ∈ p.members b, v.isBoxed) ∨ .null ∈ p.members b ∧ ∃ v ∈ p.members a, v.isBoxed := by
  unfold inConflict nullMeetsBoxed
  simp only [Bool.or_eq_true, Bool.and_eq_true, constant?_isSome_iff, decide_eq_true_eq, List.any_eq_true, or_assoc]

/-- A merge that is not refused keeps classes well formed: the guards are what the joined class needs. -/
theorem WellFormed.merge (h : p.WellFormed) {a b : Nat} {v w : Value} (hv : v ∈ p.members a) (hw : w ∈ p.members b)
    (hab : a ≠ b) (hd : p.areDistinct a b = false) (hc : p.inConflict a b = false) :
    (p.merge a b).2.WellFormed := by
  have hmem := fun {c u} => mem_members_merge_of_mem (c := c) (u := u) hv hw hab
  have hconf : ¬p.inConflict a b := by simp [hc]
  rw [inConflict_iff, not_or, not_or] at hconf
  obtain ⟨hcc, hnb, hbn⟩ := hconf
  constructor
  · intro c u hu
    obtain ⟨d, _, hud⟩ := hmem.1 hu
    exact h.atom hud
  · intro c₁ c₂ u h₁ h₂
    obtain ⟨d₁, rfl, hu₁⟩ := hmem.1 h₁
    obtain ⟨d₂, rfl, hu₂⟩ := hmem.1 h₂
    rw [h.disjoint hu₁ hu₂]
  · -- two constants would be in conflict
    intro c u x hu hx huc hxc
    obtain ⟨d₁, rfl, hud⟩ := hmem.1 hu
    obtain ⟨d₂, hd₂, hxd⟩ := hmem.1 hx
    rcases renamed_eq_renamed_iff.1 hd₂ with rfl | ⟨rfl, rfl⟩ | ⟨rfl, rfl⟩
    · exact h.constant hud hxd huc hxc
    · exact absurd ⟨⟨x, hxd, hxc⟩, ⟨u, hud, huc⟩⟩ hcc
    · exact absurd ⟨⟨u, hud, huc⟩, ⟨x, hxd, hxc⟩⟩ hcc
  · -- and so would null and a boxed value
    intro c u hn hu
    obtain ⟨d₁, rfl, hnd⟩ := hmem.1 hn
    obtain ⟨d₂, hd₂, hud⟩ := hmem.1 hu
    rcases renamed_eq_renamed_iff.1 hd₂ with rfl | ⟨rfl, rfl⟩ | ⟨rfl, rfl⟩
    · exact h.boxed hnd hud
    · exact Bool.eq_false_iff.2 fun hub => hbn ⟨hnd, u, hud, hub⟩
    · exact Bool.eq_false_iff.2 fun hub => hnb ⟨hnd, u, hud, hub⟩
  · intro d hdm
    obtain ⟨e, he, rfl⟩ := mem_distinct_merge.1 hdm
    have hlt := h.ordered he
    have hne : renamed (max a b) (min a b) e.low ≠ renamed (max a b) (min a b) e.high := by
      intro heq
      have hpair : e = .of a b := eq_of_renamed_eq hlt heq
      exact absurd (hpair ▸ he) (by simpa [areDistinct] using hd)
    unfold SlotPair.map SlotPair.of
    simp only
    omega
  · intro d hdm
    obtain ⟨e, he, rfl⟩ := mem_distinct_merge.1 hdm
    obtain ⟨⟨v₁, h₁⟩, ⟨v₂, h₂⟩⟩ := h.inhabited he
    have h₁' := hmem.2 ⟨_, rfl, h₁⟩
    have h₂' := hmem.2 ⟨_, rfl, h₂⟩
    unfold SlotPair.map
    rcases SlotPair.of_cases (renamed (max a b) (min a b) e.low) (renamed (max a b) (min a b) e.high) with hof | hof
    · rw [hof]
      exact ⟨⟨v₁, h₁'⟩, ⟨v₂, h₂'⟩⟩
    · rw [hof]
      exact ⟨⟨v₂, h₂'⟩, ⟨v₁, h₁'⟩⟩

/-! ## Forgetting -/

/-- Forgetting takes atoms out of their slots. -/
theorem mem_members_forget {forgotten : Value → Bool} {a : Nat} {v : Value} :
    v ∈ (p.forget forgotten).members a ↔ v ∈ p.members a ∧ forgotten v = false := by
  unfold forget members
  rw [List.getElem?_map]
  cases p.classes[a]? with
  | none => simp
  | some c => simp

/-- A pair stays noted while both of its slots hold something. -/
theorem mem_distinct_forget {forgotten : Value → Bool} {d : SlotPair} :
    d ∈ (p.forget forgotten).distinct ↔
      d ∈ p.distinct ∧ (∃ v, v ∈ (p.forget forgotten).members d.low) ∧
        ∃ v, v ∈ (p.forget forgotten).members d.high := by
  simp only [← List.isEmpty_eq_false_iff_exists_mem]
  unfold forget members
  simp

/-- Forgetting takes away, and what is well formed stays so with less in it. -/
theorem WellFormed.forget (h : p.WellFormed) (forgotten : Value → Bool) : (p.forget forgotten).WellFormed where
  atom hv := h.atom (mem_members_forget.1 hv).1
  disjoint ha hb := h.disjoint (mem_members_forget.1 ha).1 (mem_members_forget.1 hb).1
  constant hv hw := h.constant (mem_members_forget.1 hv).1 (mem_members_forget.1 hw).1
  boxed hn hv := h.boxed (mem_members_forget.1 hn).1 (mem_members_forget.1 hv).1
  ordered hd := h.ordered (mem_distinct_forget.1 hd).1
  inhabited hd := (mem_distinct_forget.1 hd).2

theorem WellFormed.empty : Partition.empty.WellFormed := by
  constructor <;> simp [Partition.empty, members]

end Partition

end NullCheck
