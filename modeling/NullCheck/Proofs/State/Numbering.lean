import NullCheck.Proofs.State.Forgetting
import NullCheck.Proofs.State.NotANumber

/-!
# Slots are only names

Two partitions resemble each other when they hold the same atoms in the same classes and tell the same classes apart,
whatever slots the classes sit in, and however many slots are empty. Two frames do when their partitions do and all else
of them is equal. What is asked of a frame is then answered by both alike, and what is done to both leaves them alike,
though new classes go to other slots, and classes that are merged are moved the other way around.

Each change of a partition is told by what it does to the atoms: `same_…` and `apart_…` say which atoms share a class
afterwards, and which lie in classes that differ, in terms of what was so before. A class that is asked for by its slot
is followed by an atom in it, which finds the slot in either partition.

## The architecture

* **`Partition.Resembles`**, **`Frame.Resembles`**, **`Applied.Resembles`**: the same, up to the numbers of slots.
* **`Partition.Meet`**: two slots hold the same class; `Resembles.…` with a pair of slots that meet is about that class.
* **`Partition.same_merge`**, **`Partition.apart_merge`** and their like: changes, in terms of atoms.
* **`Frame.Resembles.isNull`** and its like: answers are equal.
* **`Frame.Resembles.applyCondition`**, **`Frame.Resembles.assign`**: changes keep the resemblance.
-/

namespace NullCheck

/-- A pair of slots keeps which two they are, not which one was given first. -/
theorem SlotPair.of_eq_of_iff {a b c d : Nat} : SlotPair.of a b = .of c d ↔ a = c ∧ b = d ∨ a = d ∧ b = c := by
  unfold SlotPair.of
  rw [SlotPair.mk.injEq]
  omega

namespace Partition

variable {p q : Partition} {a a' b b' : Nat} {t u v w : Value}

/-! ## Changes in terms of atoms -/

/-- Of two atoms one lies in the class of `v` and the other one in the class of `w`. -/
def Spans (p : Partition) (v w u t : Value) : Prop := p.Same v u ∧ p.Same w t ∨ p.Same v t ∧ p.Same w u

/-- Classes are disjoint, so what lies in the slot of `v` is what shares a class with `v`, whichever slot that is. -/
theorem WellFormed.mem_members_iff_same (hp : p.WellFormed) (hv : v ∈ p.members a) : u ∈ p.members a ↔ p.Same v u := by
  constructor
  · exact fun hu => ⟨a, hv, hu⟩
  · rintro ⟨b, hvb, hub⟩
    rwa [hp.disjoint hv hvb]

/-- A pair of slots is noted iff an atom of the one slot and an atom of the other one lie in classes that differ. -/
theorem WellFormed.areDistinct_iff_apart (hp : p.WellFormed) (hv : v ∈ p.members a) (hw : w ∈ p.members b) :
    p.areDistinct a b = true ↔ p.Apart v w := by
  constructor
  · exact fun hd => ⟨a, b, hv, hw, hd⟩
  · rintro ⟨a', b', hva', hwb', hd⟩
    rwa [hp.disjoint hv hva', hp.disjoint hw hwb']

/-- Only classes that hold something differ. -/
theorem WellFormed.inhabited_of_areDistinct (hp : p.WellFormed) (hd : p.areDistinct a b = true) :
    (∃ v, v ∈ p.members a) ∧ ∃ w, w ∈ p.members b := by
  have hmem : SlotPair.of a b ∈ p.distinct := of_decide_eq_true hd
  have hinhabited := hp.inhabited hmem
  rcases SlotPair.of_cases a b with hof | hof
  · rwa [hof] at hinhabited
  · rw [hof] at hinhabited
    exact hinhabited.symm

/-- An atom that had no slot gets a class of its own; no other atom moves. -/
theorem same_ensure (p : Partition) (v : Value) : (p.ensure v).2.Same u w ↔ p.Same u w ∨ u = v ∧ w = v := by
  constructor
  · rintro ⟨a, hu, hw⟩
    cases hs : p.slot? v with
    | none =>
      rcases mem_members_ensure_pair hs hu hw with ⟨hu', hw'⟩ | hnew
      · exact Or.inl ⟨a, hu', hw'⟩
      · exact Or.inr hnew
    | some b =>
      rw [show p.ensure v = (b, p) by simp [Partition.ensure, hs]] at hu hw
      exact Or.inl ⟨a, hu, hw⟩
  · rintro (hsame | ⟨rfl, rfl⟩)
    · exact (grows_ensure p v).same hsame
    · exact ⟨_, mem_members_ensure_self p _, mem_members_ensure_self p _⟩

/-- A class that is new differs from none. -/
theorem WellFormed.apart_ensure (hp : p.WellFormed) (v : Value) : (p.ensure v).2.Apart u w ↔ p.Apart u w := by
  constructor
  · rintro ⟨a, b, hu, hw, hd⟩
    have hd' : p.areDistinct a b = true := by
      unfold areDistinct at hd ⊢
      rwa [distinct_ensure] at hd
    -- the slots held something before, so what is in them now was in them
    have hold : ∀ {c x}, (∃ y, y ∈ p.members c) → x ∈ (p.ensure v).2.members c → x ∈ p.members c := by
      rintro c x ⟨y, hy⟩ hx
      rcases mem_members_ensure.mp hx with hx' | ⟨rfl, rfl⟩
      · exact hx'
      · cases hs : p.slot? x with
        | none => exact absurd hy ((mem_members_ensure_of_none (w := y) (b := 0) hs).1 y)
        | some c =>
          rw [show p.ensure x = (c, p) by simp [Partition.ensure, hs]]
          exact mem_members_of_slot? hs
    obtain ⟨ha, hb⟩ := hp.inhabited_of_areDistinct hd'
    exact ⟨a, b, hold ha hu, hold hb hw, hd'⟩
  · exact (grows_ensure p v).apart

/-- Separating two slots tells apart exactly the atoms that span them, beside those that were told apart before. -/
theorem WellFormed.apart_separate (hp : p.WellFormed) (hv : v ∈ p.members a) (hw : w ∈ p.members b) :
    (p.separate a b).Apart u t ↔ p.Apart u t ∨ p.Spans v w u t := by
  constructor
  · rintro ⟨c, d, hu, ht, hd⟩
    rcases mem_distinct_separate.mp (of_decide_eq_true hd) with hpair | hold
    · -- the pair that was noted is that of the two slots, in either order
      rcases SlotPair.of_eq_of_iff.mp hpair with ⟨rfl, rfl⟩ | ⟨rfl, rfl⟩
      · exact Or.inr (Or.inl ⟨⟨_, hv, hu⟩, ⟨_, hw, ht⟩⟩)
      · exact Or.inr (Or.inr ⟨⟨_, hv, ht⟩, ⟨_, hw, hu⟩⟩)
    · exact Or.inl ⟨c, d, hu, ht, decide_eq_true hold⟩
  · have hnoted : (p.separate a b).areDistinct a b = true := decide_eq_true (mem_distinct_separate.mpr (Or.inl rfl))
    rintro (hapart | ⟨hu, ht⟩ | ⟨ht, hu⟩)
    · exact (grows_separate p a b).apart hapart
    · exact ⟨a, b, (hp.mem_members_iff_same hv).mpr hu, (hp.mem_members_iff_same hw).mpr ht, hnoted⟩
    · exact Apart.symm ⟨a, b, (hp.mem_members_iff_same hv).mpr ht, (hp.mem_members_iff_same hw).mpr hu, hnoted⟩

/-- The lower slot of a merge keeps what was in the left one. -/
theorem mem_members_merge_left (hv : v ∈ p.members a) (hw : w ∈ p.members b) (hab : a ≠ b) :
    v ∈ (p.merge a b).2.members (min a b) := by
  refine (mem_members_merge_of_mem hv hw hab).mpr ⟨a, ?_, hv⟩
  unfold renamed
  split <;> omega

section Merge

variable (hp : p.WellFormed) (hv : v ∈ p.members a) (hw : w ∈ p.members b) (hab : a ≠ b)
include hp hv hw hab

/-- A merge joins the atoms that span its two slots, and no others. -/
theorem WellFormed.same_merge : (p.merge a b).2.Same u t ↔ p.Same u t ∨ p.Spans v w u t := by
  have hmem := fun {x c} => mem_members_merge_of_mem (u := x) (c := c) hv hw hab
  constructor
  · rintro ⟨c, hu, ht⟩
    -- what ends up in one slot was in slots that the merge gives one name
    obtain ⟨d, rfl, hud⟩ := hmem.mp hu
    obtain ⟨e, he, hte⟩ := hmem.mp ht
    rcases renamed_eq_renamed_iff.mp he with rfl | ⟨rfl, rfl⟩ | ⟨rfl, rfl⟩
    · exact Or.inl ⟨_, hud, hte⟩
    · exact Or.inr (Or.inr ⟨⟨_, hv, hte⟩, ⟨_, hw, hud⟩⟩)
    · exact Or.inr (Or.inl ⟨⟨_, hv, hud⟩, ⟨_, hw, hte⟩⟩)
  · have hjoined : renamed (max a b) (min a b) a = renamed (max a b) (min a b) b :=
      renamed_eq_renamed_iff.mpr (Or.inr (Or.inl ⟨rfl, rfl⟩))
    rintro (hsame | ⟨hu, ht⟩ | ⟨ht, hu⟩)
    · exact (grows_merge hv hw hab).same hsame
    · exact ⟨_, hmem.mpr ⟨a, hjoined, (hp.mem_members_iff_same hv).mpr hu⟩,
        hmem.mpr ⟨b, rfl, (hp.mem_members_iff_same hw).mpr ht⟩⟩
    · exact ⟨_, hmem.mpr ⟨b, rfl, (hp.mem_members_iff_same hw).mpr hu⟩,
        hmem.mpr ⟨a, hjoined, (hp.mem_members_iff_same hv).mpr ht⟩⟩

/-- A class that was merged differs from what either part differed from. -/
theorem WellFormed.apart_merge :
    (p.merge a b).2.Apart u t ↔
      ∃ x y, (p.merge a b).2.Same u x ∧ (p.merge a b).2.Same t y ∧ p.Apart x y := by
  have hmem := fun {x c} => mem_members_merge_of_mem (u := x) (c := c) hv hw hab
  constructor
  · rintro ⟨c, d, hu, ht, hd⟩
    -- a pair that is noted afterwards is the renaming of one that was noted before, which held atoms
    obtain ⟨e, he, hpair⟩ := mem_distinct_merge.mp (of_decide_eq_true hd)
    obtain ⟨⟨x, hx⟩, ⟨y, hy⟩⟩ := hp.inhabited he
    have hxy : p.Apart x y := ⟨_, _, hx, hy, decide_eq_true (by rwa [SlotPair.of_low_high (hp.ordered he)])⟩
    rcases SlotPair.of_eq_of_iff.mp hpair with ⟨hlow, hhigh⟩ | ⟨hlow, hhigh⟩
    · exact ⟨x, y, ⟨c, hu, hmem.mpr ⟨_, hlow, hx⟩⟩, ⟨d, ht, hmem.mpr ⟨_, hhigh, hy⟩⟩, hxy⟩
    · exact ⟨y, x, ⟨c, hu, hmem.mpr ⟨_, hhigh, hy⟩⟩, ⟨d, ht, hmem.mpr ⟨_, hlow, hx⟩⟩, hxy.symm⟩
  · rintro ⟨x, y, ⟨c, hu, hx⟩, ⟨d, ht, hy⟩, hxy⟩
    obtain ⟨e, e', hx', hy', hd⟩ := (grows_merge hv hw hab).apart hxy
    -- the slots in which the two are told apart must be those that hold `u` and `t`
    have hdisjoint : ∀ {c c' z}, z ∈ (p.merge a b).2.members c → z ∈ (p.merge a b).2.members c' → c = c' := by
      intro c c' z hz hz'
      obtain ⟨d, rfl, hzd⟩ := hmem.mp hz
      obtain ⟨d', rfl, hzd'⟩ := hmem.mp hz'
      rw [hp.disjoint hzd hzd']
    rw [hdisjoint hx' hx, hdisjoint hy' hy] at hd
    exact ⟨c, d, hu, ht, hd⟩

end Merge

/-! ## Partitions that resemble each other -/

/-- The same classes, of which the same are told apart, in whatever slots. -/
structure Resembles (p q : Partition) : Prop where
  wellFormed : p.WellFormed
  wellFormed' : q.WellFormed
  same : ∀ v w, p.Same v w ↔ q.Same v w
  apart : ∀ v w, p.Apart v w ↔ q.Apart v w

theorem Resembles.symm (h : p.Resembles q) : q.Resembles p :=
  ⟨h.wellFormed', h.wellFormed, fun v w => (h.same v w).symm, fun v w => (h.apart v w).symm⟩

/-- Partitions that each keep all that the other one says are alike. -/
theorem Resembles.of_grows (hp : p.WellFormed) (hq : q.WellFormed) (hpq : p.Grows q) (hqp : q.Grows p) :
    p.Resembles q := ⟨hp, hq, fun _ _ => ⟨hpq.same, hqp.same⟩, fun _ _ => ⟨hpq.apart, hqp.apart⟩⟩

/-- A slot of one partition and a slot of another one have an atom in common. -/
def Meet (p q : Partition) (a b : Nat) : Prop := ∃ v, v ∈ p.members a ∧ v ∈ q.members b

namespace Resembles

variable (h : p.Resembles q)
include h

theorem alike (v w : Value) : p.Alike v w ↔ q.Alike v w := or_congr_right (h.same v w)

theorem spans (v w u t : Value) : p.Spans v w u t ↔ q.Spans v w u t := by
  simp only [Spans, h.same]

/-- An atom has a slot in both or in none, and those that it has meet. -/
theorem slot?_cases (v : Value) :
    p.slot? v = none ∧ q.slot? v = none ∨ ∃ a b, p.slot? v = some a ∧ q.slot? v = some b ∧ p.Meet q a b := by
  -- an atom that shares a class with itself has a slot
  have hcontains : ∀ {p q : Partition} {a}, p.Resembles q → v ∈ p.members a → ∃ b, v ∈ q.members b := by
    intro p q a h hv
    obtain ⟨b, hb, -⟩ := (h.same v v).mp ⟨a, hv, hv⟩
    exact ⟨b, hb⟩
  cases hs : p.slot? v with
  | none =>
    refine Or.inl ⟨rfl, slot?_eq_none_iff.mpr fun b hb => ?_⟩
    obtain ⟨a, ha⟩ := hcontains h.symm hb
    exact slot?_eq_none_iff.mp hs a ha
  | some a =>
    have ha := mem_members_of_slot? hs
    obtain ⟨b, hb⟩ := hcontains h ha
    exact Or.inr ⟨a, b, rfl, h.wellFormed'.slot?_eq_some_iff.mpr hb, v, ha, hb⟩

/-! ### Slots that meet -/

theorem mem_members_iff (hab : p.Meet q a b) : u ∈ p.members a ↔ u ∈ q.members b := by
  obtain ⟨v, hva, hvb⟩ := hab
  rw [h.wellFormed.mem_members_iff_same hva, h.wellFormed'.mem_members_iff_same hvb, h.same]

theorem slot_eq_iff (ha : p.Meet q a a') (hb : p.Meet q b b') : a = b ↔ a' = b' := by
  obtain ⟨v, hva, hva'⟩ := ha
  obtain ⟨w, hwb, hwb'⟩ := hb
  rw [← h.wellFormed.same_iff hva hwb, ← h.wellFormed'.same_iff hva' hwb', h.same]

/-- Slots that meet are noted as distinct from the same classes. -/
theorem areDistinct (ha : p.Meet q a a') (hb : p.Meet q b b') : p.areDistinct a b = q.areDistinct a' b' := by
  obtain ⟨v, hva, hva'⟩ := ha
  obtain ⟨w, hwb, hwb'⟩ := hb
  rw [Bool.eq_iff_iff, h.wellFormed.areDistinct_iff_apart hva hwb, h.wellFormed'.areDistinct_iff_apart hva' hwb',
    h.apart]

theorem any_members (hab : p.Meet q a b) (P : Value → Bool) : (p.members a).any P = (q.members b).any P := by
  rw [Bool.eq_iff_iff, List.any_eq_true, List.any_eq_true]
  exact exists_congr fun v => and_congr_left fun _ => h.mem_members_iff hab

theorem constant? (hab : p.Meet q a b) : p.constant? a = q.constant? b := by
  refine Option.ext fun k => ?_
  rw [h.wellFormed.constant?_eq_some_iff, h.wellFormed'.constant?_eq_some_iff, h.mem_members_iff hab]

/-- That a class is not null rests on the slot of `null`, which meets its partner too. -/
theorem isNotNull (hab : p.Meet q a b) : p.isNotNull a = q.isNotNull b := by
  unfold Partition.isNotNull
  rw [h.any_members hab]
  rcases h.slot?_cases .null with ⟨hp, hq⟩ | ⟨n, n', hp, hq, hn⟩
  · rw [hp, hq]
  · rw [hp, hq]
    simp only [ne_eq, h.slot_eq_iff hn hab, h.areDistinct hab hn]

/-- A merge is refused in both or in neither. -/
theorem inConflict (ha : p.Meet q a a') (hb : p.Meet q b b') : p.inConflict a b = q.inConflict a' b' := by
  have hnull : ∀ {c c' d d'}, p.Meet q c c' → p.Meet q d d' → p.nullMeetsBoxed c d = q.nullMeetsBoxed c' d' := by
    intro c c' d d' hc hd
    unfold nullMeetsBoxed
    rw [h.any_members hd, decide_eq_decide.mpr (h.mem_members_iff hc)]
  unfold Partition.inConflict
  rw [h.constant? ha, h.constant? hb, hnull ha hb, hnull hb ha]

/-! ### Changes -/

/-- An atom that gets a slot gets one in both, though not the same one. -/
theorem ensure (hv : v.isAtom = true) : (p.ensure v).2.Resembles (q.ensure v).2 where
  wellFormed := h.wellFormed.ensure hv
  wellFormed' := h.wellFormed'.ensure hv
  same u w := by rw [same_ensure, same_ensure, h.same]
  apart u w := by rw [h.wellFormed.apart_ensure, h.wellFormed'.apart_ensure, h.apart]

/-- Noting that classes differ, for slots that meet, keeps the resemblance. -/
theorem separate (ha : p.Meet q a a') (hb : p.Meet q b b') (hab : a ≠ b) :
    (p.separate a b).Resembles (q.separate a' b') := by
  have hab' : a' ≠ b' := fun heq => hab ((h.slot_eq_iff ha hb).mpr heq)
  obtain ⟨v, hva, hva'⟩ := ha
  obtain ⟨w, hwb, hwb'⟩ := hb
  refine ⟨h.wellFormed.separate hva hwb hab, h.wellFormed'.separate hva' hwb' hab', h.same, fun u t => ?_⟩
  rw [h.wellFormed.apart_separate hva hwb, h.wellFormed'.apart_separate hva' hwb', h.apart, h.spans]

/-- Merging keeps the resemblance, though the lower slot may be the left one in one partition and the right one in the
other. -/
theorem merge (ha : p.Meet q a a') (hb : p.Meet q b b') (hab : a ≠ b) (hd : p.areDistinct a b = false)
    (hc : p.inConflict a b = false) : (p.merge a b).2.Resembles (q.merge a' b').2 := by
  -- the guards of the merge hold on the other side too, since the slots meet
  have hab' : a' ≠ b' := fun heq => hab ((h.slot_eq_iff ha hb).mpr heq)
  have hd' : q.areDistinct a' b' = false := (h.areDistinct ha hb).symm.trans hd
  have hc' : q.inConflict a' b' = false := (h.inConflict ha hb).symm.trans hc
  obtain ⟨v, hva, hva'⟩ := ha
  obtain ⟨w, hwb, hwb'⟩ := hb
  have hsame : ∀ u t, (p.merge a b).2.Same u t ↔ (q.merge a' b').2.Same u t := by
    intro u t
    rw [h.wellFormed.same_merge hva hwb hab, h.wellFormed'.same_merge hva' hwb' hab', h.same, h.spans]
  refine ⟨h.wellFormed.merge hva hwb hab hd hc, h.wellFormed'.merge hva' hwb' hab' hd' hc', hsame, fun u t => ?_⟩
  rw [h.wellFormed.apart_merge hva hwb hab, h.wellFormed'.apart_merge hva' hwb' hab']
  simp only [hsame, h.apart]

/-- Forgetting goes by atoms, so slots play no part in it. -/
theorem forget (forgotten : Value → Bool) : (p.forget forgotten).Resembles (q.forget forgotten) where
  wellFormed := h.wellFormed.forget forgotten
  wellFormed' := h.wellFormed'.forget forgotten
  same v w := by rw [same_forget, same_forget, h.same]
  apart v w := by rw [apart_forget, apart_forget, h.apart]

end Resembles

end Partition

/-! ## Frames that resemble each other -/

/-- Equal frames, but for the slots in which classes sit. -/
structure Frame.Resembles (f g : Frame) : Prop where
  partition : f.partition.Resembles g.partition
  stack : f.stack = g.stack
  facts : f.facts = g.facts
  bindings : f.bindings = g.bindings
  fieldReferenced : f.fieldReferenced = g.fieldReferenced

/-- The same outcome, and frames that resemble each other. -/
structure Applied.Resembles (r r' : Applied) : Prop where
  holds : r.holds = r'.holds
  frame : r.frame.Resembles r'.frame

namespace Frame

variable {f g : Frame} {a a' b b' : Nat} {s : Scope} {left right v : Value}

namespace Resembles

variable (h : f.Resembles g)
include h

theorem symm : g.Resembles f :=
  ⟨h.partition.symm, h.stack.symm, h.facts.symm, h.bindings.symm, h.fieldReferenced.symm⟩

/-! ### Answers -/

/-- All that is asked of a value by its class is answered alike in frames that resemble each other. -/
theorem answersAs (v : Value) : f.AnswersAs v g v :=
  answersAs_of_alike h.partition.wellFormed h.partition.wellFormed' fun k _ => h.partition.alike v k

theorem isNull (v : Value) : f.isNull v = g.isNull v := (h.answersAs v).isNull

theorem constant? (v : Value) : f.constant? v = g.constant? v := (h.answersAs v).constant?

/-- What is asked of the class of an atom is answered alike if it is of classes that meet. -/
theorem any_slot? {P Q : Nat → Bool} (v : Value)
    (hclass : ∀ {a b}, f.partition.Meet g.partition a b → P a = Q b) :
    (f.partition.slot? v).any P = (g.partition.slot? v).any Q := by
  rcases h.partition.slot?_cases v with ⟨hf, hg⟩ | ⟨a, b, hf, hg, hab⟩
  · rw [hf, hg]
    rfl
  · rw [hf, hg]
    exact hclass hab

/-- The only question about a class that also asks for the slot of `null`. -/
theorem isNotNull (v : Value) : f.isNotNull v = g.isNotNull v := by
  cases v with
  | var id m => exact h.any_slot? _ h.partition.isNotNull
  | unboxed w => exact h.any_slot? _ h.partition.isNotNull
  | typed t nullness => cases nullness <;> rfl
  | _ => rfl

/-- A boxed value is asked about by what it holds, so the induction is on the value. -/
theorem canBeNaN (v : Value) : f.canBeNaN v = g.canBeNaN v := by
  -- a variable is asked about by its class, in slots that meet
  have hclass : ∀ v, canBeNaN.inClass f v = canBeNaN.inClass g v := fun v =>
    h.any_slot? v fun hab => h.partition.any_members hab Value.isNaN
  induction v with
  | boxed v ih => exact ih
  | var id m => exact hclass _
  | unboxed w => exact hclass _
  | _ => rfl

theorem hasNullableMark (v : Value) : f.hasNullableMark v = g.hasNullableMark v := by
  unfold Frame.hasNullableMark
  rw [h.facts]

/-- A mark may sit at any atom of the class, so it is looked for in slots that meet. -/
theorem isMarkedNullable (v : Value) : f.isMarkedNullable v = g.isMarkedNullable v := by
  have hmark : f.hasNullableMark = g.hasNullableMark := funext h.hasNullableMark
  unfold Frame.isMarkedNullable
  rcases h.partition.slot?_cases v with ⟨hf, hg⟩ | ⟨a, b, hf, hg, hab⟩
  · rw [hf, hg]
    exact h.hasNullableMark v
  · rw [hf, hg]
    simp only [hmark, h.partition.any_members hab]

theorem checkNotNullable (v : Value) : f.checkNotNullable v = g.checkNotNullable v := by
  unfold Frame.checkNotNullable
  simp only [h.isNull, h.isNotNull, h.isMarkedNullable]

theorem nullnessContradicts (left right : Value) :
    f.nullnessContradicts left right = g.nullnessContradicts left right := by
  unfold Frame.nullnessContradicts
  simp only [h.isNull, h.isNotNull]

theorem factsOf (s : Scope) (v : Value) : f.factsOf s v = g.factsOf s v := by
  unfold Frame.factsOf
  rw [h.facts]

/-! ### The stack -/

theorem push (v : Value) : (f.push v).Resembles (g.push v) :=
  ⟨h.partition, congrArg (v :: ·) h.stack, h.facts, h.bindings, h.fieldReferenced⟩

theorem pop_fst : f.pop.1 = g.pop.1 := congrArg (·.headD .unknown) h.stack

theorem pop_snd : f.pop.2.Resembles g.pop.2 :=
  ⟨h.partition, congrArg List.tail h.stack, h.facts, h.bindings, h.fieldReferenced⟩

theorem pop : ∃ v f' g', f.pop = (v, f') ∧ g.pop = (v, g') ∧ f'.Resembles g' :=
  ⟨f.pop.1, f.pop.2, g.pop.2, rfl, by rw [h.pop_fst], h.pop_snd⟩

/-! ### Facts -/

theorem withFacts (v : Value) (facts : Facts) : (f.withFacts v facts).Resembles (g.withFacts v facts) :=
  ⟨h.partition, h.stack, congrArg (Sorted.put v facts) h.facts, h.bindings, h.fieldReferenced⟩

theorem recordType (s : Scope) (v : Value) (t : JvmType) : (f.recordType s v t).Resembles (g.recordType s v t) := by
  unfold Frame.recordType
  split
  · simp only [h.factsOf]
    exact h.withFacts v _
  · exact h

theorem markNullable (s : Scope) (v : Value) : (f.markNullable s v).Resembles (g.markNullable s v) := by
  unfold Frame.markNullable
  rw [h.factsOf]
  exact h.withFacts v _

/-- The marks that a class loses are those of the same atoms. -/
theorem refreshNullableMarks (hab : f.partition.Meet g.partition a b) :
    (f.refreshNullableMarks a).Resembles (g.refreshNullableMarks b) := by
  unfold Frame.refreshNullableMarks
  rw [h.partition.isNotNull hab]
  split
  · refine ⟨h.partition, h.stack, ?_, h.bindings, h.fieldReferenced⟩
    simp only [h.facts, h.partition.mem_members_iff hab]
  · exact h

/-- Both frames know the same types of the value, so both take the same way and have the same outcome. -/
theorem addInstanceOf (s : Scope) (v : Value) (t : JvmType) :
    (f.addInstanceOf s v t).Resembles (g.addInstanceOf s v t) := by
  have hnoted := h.withFacts v (g.factsOf s v)
  unfold Frame.addInstanceOf
  simp only [h.factsOf]
  split
  · exact ⟨rfl, hnoted⟩
  · split
    · exact ⟨rfl, hnoted⟩
    · split
      · exact ⟨rfl, hnoted⟩
      · exact ⟨rfl, hnoted.withFacts v _⟩

/-- Likewise for a type that the value is known not to have. -/
theorem addNotInstanceOf (s : Scope) (v : Value) (t : JvmType) :
    (f.addNotInstanceOf s v t).Resembles (g.addNotInstanceOf s v t) := by
  have hnoted := h.withFacts v (g.factsOf s v)
  unfold Frame.addNotInstanceOf
  simp only [h.factsOf]
  split
  · exact ⟨rfl, hnoted⟩
  · split
    · exact ⟨rfl, hnoted⟩
    · exact ⟨rfl, hnoted.withFacts v _⟩

/-! ### Equality -/

theorem withPartition {p q : Partition} (hpq : p.Resembles q) :
    { f with partition := p }.Resembles { g with partition := q } :=
  ⟨hpq, h.stack, h.facts, h.bindings, h.fieldReferenced⟩

theorem ensureSlots (hl : left.isAtom = true) (hr : right.isAtom = true) :
    (f.ensureSlots left right).2.2.Resembles (g.ensureSlots left right).2.2 :=
  h.withPartition ((h.partition.ensure hl).ensure hr)

/-- A refused note changes marks only, one that is taken changes partitions and then marks. -/
theorem separate (ha : f.partition.Meet g.partition a a') (hb : f.partition.Meet g.partition b b') (hab : a ≠ b) :
    (f.separate a b).Resembles (g.separate a' b') := by
  have hrefreshed : ∀ {f g : Frame}, f.Resembles g → f.partition.Meet g.partition a a' →
      f.partition.Meet g.partition b b' →
      ((f.refreshNullableMarks a).refreshNullableMarks b).Resembles
        ((g.refreshNullableMarks a').refreshNullableMarks b') := by
    intro f g h ha hb
    refine (h.refreshNullableMarks ha).refreshNullableMarks ?_
    rwa [partition_refreshNullableMarks, partition_refreshNullableMarks]
  unfold Frame.separate
  rw [h.partition.inConflict ha hb]
  split
  · exact hrefreshed h ha hb
  · -- a note moves no atom, so the slots still meet
    exact hrefreshed (h.withPartition (h.partition.separate ha hb hab)) ha hb

/-- The class that is left meets its partner by an atom of the left side, whichever slot is kept. -/
theorem unite (ha : f.partition.Meet g.partition a a') (hb : f.partition.Meet g.partition b b') (hab : a ≠ b)
    (hd : f.partition.areDistinct a b = false) (hc : f.partition.inConflict a b = false) :
    (f.unite a b).Resembles (g.unite a' b') := by
  have hab' : a' ≠ b' := fun heq => hab ((h.partition.slot_eq_iff ha hb).mpr heq)
  -- all that was in either slot is in the one that is kept
  have hkept : (f.partition.merge a b).2.Meet (g.partition.merge a' b').2 (min a b) (min a' b') := by
    obtain ⟨v, hva, hva'⟩ := ha
    obtain ⟨w, hwb, hwb'⟩ := hb
    exact ⟨v, Partition.mem_members_merge_left hva hwb hab, Partition.mem_members_merge_left hva' hwb' hab'⟩
  exact (h.withPartition (h.partition.merge ha hb hab hd hc)).refreshNullableMarks hkept

/-- An equation has the same outcome in both, by the slots of its sides, which meet by those sides themselves. -/
theorem applyEquality (left right : Value) (negated : Bool) :
    (f.applyEquality left right negated).Resembles (g.applyEquality left right negated) := by
  by_cases hatoms : left.isAtom = true ∧ right.isAtom = true
  · obtain ⟨hl, hr⟩ := hatoms
    have hslots := h.ensureSlots hl hr
    -- the slots of the two sides meet, by the left and by the right side
    have ha : (f.ensureSlots left right).2.2.partition.Meet (g.ensureSlots left right).2.2.partition
        (f.ensureSlots left right).1 (g.ensureSlots left right).1 :=
      ⟨left, (slotted_ensureSlots f hl hr).left_mem, (slotted_ensureSlots g hl hr).left_mem⟩
    have hb : (f.ensureSlots left right).2.2.partition.Meet (g.ensureSlots left right).2.2.partition
        (f.ensureSlots left right).2.1 (g.ensureSlots left right).2.1 :=
      ⟨right, (slotted_ensureSlots f hl hr).right_mem, (slotted_ensureSlots g hl hr).right_mem⟩
    unfold Frame.applyEquality
    simp only [hl, hr, Bool.not_true, Bool.or_self, Bool.false_eq_true, if_false]
    generalize f.ensureSlots left right = slots at hslots ha hb
    generalize g.ensureSlots left right = slots' at hslots ha hb
    obtain ⟨a, b, f'⟩ := slots
    obtain ⟨a', b', g'⟩ := slots'
    simp only [← hslots.partition.slot_eq_iff ha hb, ← hslots.partition.areDistinct ha hb,
      ← hslots.partition.inConflict ha hb]
    split
    · split
      · exact ⟨rfl, hslots⟩
      · rename_i hab
        exact ⟨rfl, hslots.separate ha hb hab⟩
    · split
      · exact ⟨rfl, hslots⟩
      · rename_i hab
        split
        · exact ⟨rfl, hslots⟩
        · rename_i hneither
          rw [Bool.not_eq_true, Bool.or_eq_false_iff] at hneither
          exact ⟨rfl, hslots.unite ha hb hab hneither.1 hneither.2⟩
  · rw [applyEquality_of_not_isAtom hatoms, applyEquality_of_not_isAtom hatoms, h.nullnessContradicts]
    exact ⟨rfl, h⟩

/-! ### Other conditions -/

/-- An order is settled by what shares a class and by constants, and changes nothing. -/
theorem applyOrdering (kind : RelationKind) (negated : Bool) (left right : Value) :
    (f.applyOrdering kind negated left right).Resembles (g.applyOrdering kind negated left right) := by
  refine ⟨?_, ?_⟩
  · rw [Bool.eq_iff_iff, holds_applyOrdering_iff h.partition.wellFormed,
      holds_applyOrdering_iff h.partition.wellFormed', h.partition.same, h.constant?, h.constant?]
  · rwa [frame_applyOrdering, frame_applyOrdering]

/-- A test of a class is an equation with `null` and a note about types, each of which keeps the resemblance. -/
theorem applyInstanceOf (s : Scope) (negated : Bool) (left right : Value) :
    (f.applyInstanceOf s negated left right).Resembles (g.applyInstanceOf s negated left right) := by
  unfold Frame.applyInstanceOf
  split
  · rename_i t _ _
    split
    · -- not an instance: the note fails, or the value must be null
      have hr := h.addNotInstanceOf s left t
      simp only [hr.holds]
      split
      · exact hr
      · exact hr.frame.applyEquality left .null false
    · -- an instance: the value is not null, and then the type is noted
      have hr := h.applyEquality left .null true
      simp only [hr.holds]
      split
      · exact hr.frame.addInstanceOf s left t
      · exact hr
  · exact ⟨rfl, h⟩

/-- One case for each kind of condition. -/
theorem applyRelation (s : Scope) (kind : RelationKind) (negated : Bool) (left right : Value) :
    (f.applyRelation s kind negated left right).Resembles (g.applyRelation s kind negated left right) := by
  cases kind with
  | eq => exact h.applyEquality left right negated
  | lt => exact h.applyOrdering .lt negated left right
  | gt => exact h.applyOrdering .gt negated left right
  | instanceOf => exact h.applyInstanceOf s negated left right

/-- A condition that is no relation changes nothing. -/
theorem applyCondition (s : Scope) (condition : Value) :
    (f.applyCondition s condition).Resembles (g.applyCondition s condition) := by
  unfold Frame.applyCondition
  split
  · exact ⟨rfl, h⟩
  · exact h.applyRelation s _ _ _ _
  · exact ⟨rfl, h⟩

/-- A cast asks for nullness and notes a type. -/
theorem applyCast (s : Scope) (condition : Value) : (f.applyCast s condition).Resembles (g.applyCast s condition) := by
  unfold Frame.applyCast
  simp only [h.isNull]
  split
  · split
    · split
      · exact ⟨rfl, h⟩
      · split
        · exact ⟨rfl, h⟩
        · exact h.addInstanceOf s _ _
    · exact ⟨rfl, h⟩
  · exact ⟨rfl, h⟩

theorem applyNotNull (v : Value) : (f.applyNotNull v).Resembles (g.applyNotNull v) := by
  unfold Frame.applyNotNull
  rw [h.checkNotNullable]
  split
  · exact h.applyEquality v .null true
  · exact ⟨rfl, h⟩

/-! ### Assignments -/

theorem flushVariable (id : VariableId) : (f.flushVariable id).Resembles (g.flushVariable id) := by
  unfold Frame.flushVariable
  exact ⟨h.partition.forget _, h.stack, congrArg (List.filter _) h.facts, congrArg (List.filter _) h.bindings,
    h.fieldReferenced⟩

theorem flushFields (s : Scope) : (f.flushFields s).Resembles (g.flushFields s) := by
  unfold Frame.flushFields
  generalize s.fieldVariables = fields
  induction fields generalizing f g with
  | nil => exact h
  | cons id fields ih => exact ih (h.flushVariable id)

/-- A new value is adopted by its kind, which is the same in both. -/
theorem adopt (s : Scope) (target value : Value) : (f.adopt s target value).Resembles (g.adopt s target value) := by
  have hnotNull := (h.applyEquality target .null true).frame
  unfold Frame.adopt
  split
  · exact hnotNull.recordType s target _
  · refine Resembles.recordType ?_ s target _
    split
    · exact hnotNull
    · exact h.markNullable s target
    · exact h
  · exact h
  · exact h
  · exact (h.applyEquality target _ false).frame

/-- An assignment flushes the target, binds it and adopts the value. -/
theorem assign (s : Scope) (target value : Value) : (f.assign s target value).Resembles (g.assign s target value) := by
  unfold Frame.assign
  split
  · exact h
  · rename_i id _
    split
    · exact h
    · -- a variable that is tracked
      have hflushed := h.flushVariable id
      refine Resembles.adopt ?_ s target value
      exact ⟨hflushed.partition, hflushed.stack, hflushed.facts,
        congrArg (Sorted.put id value) hflushed.bindings, hflushed.fieldReferenced⟩

end Resembles

end Frame

end NullCheck
