import NullCheck.Proofs.State.Types

/-!
# A test that was passed is decided

What an equality or a test for a type says is remembered. So once it was passed, to repeat it changes nothing, and its
opposite is refused. Each test is remembered in its own way: equal atoms share a slot, different ones are a noted pair or
show by what is in their classes, and a type is noted or excluded. A failed test for a type that is noted all the same is
remembered as null.

## The architecture

* **`Frame.applyEquality_of_mem`**: an equality of atoms that have their slots.
* **`Frame.Separated`**: the frame has taken on that two slots differ; **`Separated.separate_eq`**: it has no more to
  take on, and **`Separated.addInstanceOf`**: nor after a type was noted.
* **`Frame.applyEquality_decided`**: an equality ends in one slot or in two that are told apart (`Frame.TellsApart`),
  and either way it is decided.
* **`Frame.Remembers`**: what a test for a type leaves; **`remembers_applyInstanceOf`**, and what follows from it:
  **`Remembers.applyInstanceOf`**, **`Remembers.opposite`**.
* **`Frame.decided_when_repeated`**: the headline.
-/

namespace NullCheck

/-! ## Tables -/

namespace Sorted

variable {α β : Type} [Ord α] [DecidableEq α] {es : List (α × β)} {k : α} {b : β}

omit [Ord α] in
theorem mem_of_get? (h : get? k es = some b) : (k, b) ∈ es := by
  induction es with
  | nil => cases h
  | cons e es ih =>
    rw [get?] at h
    split at h
    · rename_i hk
      obtain rfl := Option.some.inj h
      exact hk ▸ List.mem_cons_self
    · exact List.mem_cons_of_mem _ (ih h)

/-- To give a key the value that it has changes nothing. -/
theorem put_of_get? (hnodup : (keys es).Nodup) (h : get? k es = some b) : put k b es = es := by
  have hmem := mem_of_get? h
  unfold put
  rw [if_pos (any_key_iff.mpr (List.mem_map_of_mem hmem))]
  conv_rhs => rw [← List.map_id es]
  refine List.map_congr_left fun e he => ?_
  split
  · rename_i hk
    exact List.inj_on_of_nodup_map hnodup hmem he hk.symm
  · rfl

theorem insert_of_mem {a : α} {as : List α} (h : a ∈ as) : insert a as = as := if_pos h

end Sorted

/-- A test that is remembered: an equality or inequality of two atoms, or a test of a variable for a type. -/
inductive Value.IsRemembered : Value → Prop
  | equality (negated : Bool) {left right : Value} (hl : left.isAtom = true) (hr : right.isAtom = true) :
      IsRemembered (.relation .eq negated left right)
  | typeTest (negated : Bool) {left right : Value} (hid : left.varId?.isSome = true)
      (ht : right.typeOperand?.isSome = true) : IsRemembered (.relation .instanceOf negated left right)

namespace Partition

variable {p : Partition} {a b : Nat} {v : Value}

theorem WellFormed.ensure_of_mem (h : p.WellFormed) (hv : v ∈ p.members a) : p.ensure v = (a, p) := by
  unfold Partition.ensure
  rw [h.slot?_eq_some_iff.mpr hv]

/-- Two slots that were told apart are told apart. -/
theorem separate_of_areDistinct (h : p.areDistinct a b = true) : p.separate a b = p := by
  unfold separate
  rw [Sorted.insert_of_mem (of_decide_eq_true h)]

/-- A value is in one of two slots that is known not to be null. -/
def ProvesNotNull (p : Partition) (a b : Nat) (v : Value) : Prop :=
  v ∈ p.members a ∧ p.isNotNull a = true ∨ v ∈ p.members b ∧ p.isNotNull b = true

end Partition

namespace Frame

variable {f g : Frame} {s : Scope} {left right v : Value} {a b : Nat} {t : JvmType} {negated : Bool}

/-! ## Equalities between slots -/

theorem ensureSlots_of_mem (hf : f.partition.WellFormed) (hl : left ∈ f.partition.members a)
    (hr : right ∈ f.partition.members b) : f.ensureSlots left right = (a, b, f) := by
  unfold ensureSlots
  rw [hf.ensure_of_mem hl]
  simp only
  rw [hf.ensure_of_mem hr]

/-- Between atoms that have their slots, an equality is one of the slots. -/
theorem applyEquality_of_mem (hf : f.partition.WellFormed) (hl : left ∈ f.partition.members a)
    (hr : right ∈ f.partition.members b) (negated : Bool) :
    f.applyEquality left right negated =
      if negated then if a = b then ⟨false, f⟩ else ⟨true, f.separate a b⟩
      else if a = b then ⟨true, f⟩
      else if f.partition.areDistinct a b || f.partition.inConflict a b then ⟨false, f⟩
      else ⟨true, f.unite a b⟩ := by
  unfold applyEquality
  rw [if_neg (by simp [hf.atom hl, hf.atom hr]), ensureSlots_of_mem hf hl hr]

/-- To make the slots first changes nothing. -/
theorem applyEquality_ensureSlots (hf : f.partition.WellFormed) (hl : left.isAtom) (hr : right.isAtom) (negated : Bool) :
    (f.ensureSlots left right).2.2.applyEquality left right negated = f.applyEquality left right negated := by
  have hslots := slotted_ensureSlots f hl hr
  refine (applyEquality_of_mem (hslots.wellFormed hf) hslots.left_mem hslots.right_mem negated).trans ?_
  symm
  unfold applyEquality
  rw [if_neg (by simp [hl, hr])]

/-! ## Slots that differ -/

/-- The frame has taken on that two slots differ: this is noted or shows without a note, and no mark is left on what is
known not to be null. -/
structure Separated (f : Frame) (a b : Nat) : Prop where
  differ : f.partition.inConflict a b = true ∨ f.partition.areDistinct a b = true
  unmarked : ∀ e ∈ f.facts, f.partition.ProvesNotNull a b e.1 → e.2.nullable = false

/-- Refreshing takes marks off the atoms of a class that is not null, and sets none. -/
theorem mem_facts_refreshNullableMarks {e : Value × Facts} {slot : Nat} (he : e ∈ (f.refreshNullableMarks slot).facts) :
    (e.1 ∈ f.partition.members slot ∧ f.partition.isNotNull slot = true → e.2.nullable = false) ∧
      ∃ e' ∈ f.facts, e'.1 = e.1 ∧ (e'.2.nullable = false → e.2.nullable = false) := by
  unfold refreshNullableMarks at he
  split at he
  · obtain ⟨e', he', rfl⟩ := List.mem_map.mp he
    split
    · exact ⟨fun _ => rfl, e', he', rfl, fun _ => rfl⟩
    · rename_i hmem
      exact ⟨fun h => absurd h.1 hmem, e', he', rfl, id⟩
  · rename_i hnull
    exact ⟨fun h => absurd h.2 hnull, e, he, rfl, id⟩

/-- A class without marks needs no refreshing. -/
theorem refreshNullableMarks_eq_self {slot : Nat}
    (h : ∀ e ∈ f.facts, e.1 ∈ f.partition.members slot → f.partition.isNotNull slot = true → e.2.nullable = false) :
    f.refreshNullableMarks slot = f := by
  unfold refreshNullableMarks
  split
  · rename_i hnotNull
    -- an entry of the class has no mark to lose
    have hfacts : (f.facts.map fun e => if e.1 ∈ f.partition.members slot then (e.1, { e.2 with nullable := false }) else e) =
        f.facts := by
      conv_rhs => rw [← List.map_id f.facts]
      refine List.map_congr_left fun e he => ?_
      split
      · rename_i hmem
        obtain ⟨key, nullable, noted, excluded⟩ := e
        obtain rfl : nullable = false := h _ he hmem hnotNull
        rfl
      · rfl
    exact congrArg (fun facts => { f with facts := facts }) hfacts
  · rfl

/-- That two slots differ is taken on. -/
theorem separated_separate (f : Frame) (a b : Nat) : (f.separate a b).Separated a b where
  differ := by
    rw [partition_separate]
    split
    · exact Or.inl ‹_›
    · exact Or.inr (decide_eq_true (Partition.mem_distinct_separate.mpr (Or.inl rfl)))
  unmarked e he hproves := by
    -- the marks go from the one slot and then from the other, in the partition that is left
    unfold separate at he hproves
    simp only [partition_refreshNullableMarks] at hproves
    obtain ⟨hb, e', he', hkey, hkept⟩ := mem_facts_refreshNullableMarks he
    obtain ⟨ha, -⟩ := mem_facts_refreshNullableMarks he'
    rw [partition_refreshNullableMarks] at hb
    rw [hkey] at ha
    exact hproves.elim (fun h => hkept (ha h)) hb

/-- What was taken on need not be taken on again. -/
theorem Separated.separate_eq (h : f.Separated a b) : f.separate a b = f := by
  have hnoted : (if f.partition.inConflict a b then f else { f with partition := f.partition.separate a b }) = f := by
    split
    · rfl
    · rename_i hconflict
      rw [Partition.separate_of_areDistinct (h.differ.resolve_left hconflict)]
  unfold separate
  simp only
  rw [hnoted, refreshNullableMarks_eq_self fun e he hmem hnotNull => h.unmarked e he (Or.inl ⟨hmem, hnotNull⟩),
    refreshNullableMarks_eq_self fun e he hmem hnotNull => h.unmarked e he (Or.inr ⟨hmem, hnotNull⟩)]

theorem factsOf_of_get? {noted : Facts} (h : Sorted.get? v f.facts = some noted) : f.factsOf s v = noted := by
  unfold factsOf
  rw [h]
  rfl

/-- What is noted of a value without a mark brings no mark. -/
theorem Separated.withFacts (h : f.Separated a b) {noted : Facts} (hnoted : noted.nullable = (f.factsOf s v).nullable) :
    (f.withFacts v noted).Separated a b where
  differ := h.differ
  unmarked e he hproves := by
    rcases Sorted.mem_of_mem_put he with rfl | he
    · show noted.nullable = false
      rw [hnoted, nullable_factsOf]
      unfold hasNullableMark
      cases hfacts : Sorted.get? v f.facts with
      | none => rfl
      | some known => exact h.unmarked _ (Sorted.mem_of_get? hfacts) hproves
    · exact h.unmarked e he hproves

/-- Noting a type moves no atom. -/
theorem Separated.addInstanceOf (h : f.Separated a b) (s : Scope) (v : Value) (t : JvmType) :
    (f.addInstanceOf s v t).frame.Separated a b := by
  have hnoted : (f.withFacts v (f.factsOf s v)).Separated a b := h.withFacts rfl
  obtain ⟨-, heq⟩ | heq | ⟨-, heq⟩ := addInstanceOf_cases f s v t
  · rwa [heq]
  · rwa [heq]
  · have hmark : (f.factsOf s v).nullable = ((f.withFacts v (f.factsOf s v)).factsOf s v).nullable :=
      congrArg Facts.nullable (factsOf_of_get? (Sorted.get?_put_self _ _ _)).symm
    rw [heq]
    exact hnoted.withFacts hmark

/-! ## Equalities are remembered -/

/-- The frame has taken on that two atoms differ. -/
def TellsApart (f : Frame) (v w : Value) : Prop :=
  ∃ a b, a ≠ b ∧ v ∈ f.partition.members a ∧ w ∈ f.partition.members b ∧ f.Separated a b

/-- Telling apart what is told apart already changes nothing. -/
theorem TellsApart.applyEquality (h : f.TellsApart left right) (hf : f.partition.WellFormed) :
    f.applyEquality left right true = ⟨true, f⟩ := by
  obtain ⟨a, b, hab, hl, hr, hseparated⟩ := h
  rw [applyEquality_of_mem hf hl hr, if_pos rfl, if_neg hab, hseparated.separate_eq]

theorem TellsApart.addInstanceOf (h : f.TellsApart left right) (s : Scope) (v : Value) (t : JvmType) :
    (f.addInstanceOf s v t).frame.TellsApart left right := by
  obtain ⟨a, b, hab, hl, hr, hseparated⟩ := h
  refine ⟨a, b, hab, ?_, ?_, hseparated.addInstanceOf s v t⟩
  · rwa [partition_addInstanceOf]
  · rwa [partition_addInstanceOf]

/-- An inequality that holds tells its sides apart. -/
theorem tellsApart_of_applyEquality (hf : f.partition.WellFormed) (hl : left.isAtom) (hr : right.isAtom)
    (hholds : (f.applyEquality left right true).holds = true) :
    (f.applyEquality left right true).frame.TellsApart left right := by
  have hslots := slotted_ensureSlots f hl hr
  have hq := hslots.wellFormed hf
  rw [← applyEquality_ensureSlots hf hl hr] at hholds ⊢
  generalize (f.ensureSlots left right).1 = a, (f.ensureSlots left right).2.1 = b, (f.ensureSlots left right).2.2 = q
    at hslots hq hholds ⊢
  rw [applyEquality_of_mem hq hslots.left_mem hslots.right_mem, if_pos rfl] at hholds ⊢
  -- sides in one slot cannot be told apart, so the inequality would fail
  by_cases hab : a = b
  · rw [if_pos hab] at hholds
    cases hholds
  · rw [if_neg hab]
    -- a note moves no atom, and neither does the removal of marks
    have hmembers : ∀ slot, (q.separate a b).partition.members slot = q.partition.members slot := by
      intro slot
      rw [partition_separate]
      split <;> rfl
    refine ⟨a, b, hab, ?_, ?_, separated_separate q a b⟩
    · rw [hmembers]
      exact hslots.left_mem
    · rw [hmembers]
      exact hslots.right_mem

theorem applyEquality_of_same (hf : f.partition.WellFormed) (hsame : f.partition.Same left right) :
    f.applyEquality left right false = ⟨true, f⟩ := by
  obtain ⟨slot, hl, hr⟩ := hsame
  rw [applyEquality_of_mem hf hl hr]
  simp

/-- An equation that holds puts its sides into one class. -/
theorem same_of_applyEquality (hf : f.partition.WellFormed) (hl : left.isAtom) (hr : right.isAtom)
    (hholds : (f.applyEquality left right false).holds = true) :
    (f.applyEquality left right false).frame.partition.Same left right := by
  rcases alike_of_applyEquality hf hl hr hholds with rfl | hsame
  · -- an atom is not equated with itself without a slot
    have hslots := slotted_ensureSlots f hl hl
    have hgrows := (applyEquality_outcome f hl hl false).grows hslots.left_mem hslots.right_mem
    exact hgrows.same ⟨_, hslots.left_mem, hslots.left_mem⟩
  · exact hsame

/-- What is told apart cannot be equated. -/
theorem TellsApart.opposite (h : f.TellsApart left right) (hf : f.partition.WellFormed) :
    (f.applyEquality left right false).holds = false := by
  obtain ⟨a, b, hab, hl, hr, hseparated⟩ := h
  have hdiffer : (f.partition.areDistinct a b || f.partition.inConflict a b) = true :=
    Bool.or_eq_true_iff.mpr hseparated.differ.symm
  rw [applyEquality_of_mem hf hl hr, if_neg Bool.false_ne_true, if_neg hab, if_pos hdiffer]

theorem opposite_of_same (hf : f.partition.WellFormed) (hsame : f.partition.Same left right) :
    (f.applyEquality left right true).holds = false := by
  obtain ⟨slot, hl, hr⟩ := hsame
  rw [applyEquality_of_mem hf hl hr, if_pos rfl, if_pos rfl]

/-- **An equality that was passed is decided:** to repeat it changes nothing, and its opposite is refused. -/
theorem applyEquality_decided (hf : f.partition.WellFormed) (hl : left.isAtom) (hr : right.isAtom)
    (hg : f.applyEquality left right negated = ⟨true, g⟩) :
    g.applyEquality left right negated = ⟨true, g⟩ ∧ (g.applyEquality left right !negated).holds = false := by
  have hwellFormed := applyEquality_wellFormed hf left right negated
  have hholds : (f.applyEquality left right negated).holds = true := congrArg Applied.holds hg
  obtain rfl : (f.applyEquality left right negated).frame = g := congrArg Applied.frame hg
  cases negated with
  | true =>
    have hapart := tellsApart_of_applyEquality hf hl hr hholds
    exact ⟨hapart.applyEquality hwellFormed, hapart.opposite hwellFormed⟩
  | false =>
    have hsame := same_of_applyEquality hf hl hr hholds
    exact ⟨applyEquality_of_same hwellFormed hsame, opposite_of_same hwellFormed hsame⟩

/-! ## What is noted of types -/

section Types

variable {noted : Facts}

/-- To note what is noted changes nothing. -/
theorem withFacts_factsOf (hf : f.Coherent s) (h : Sorted.get? v f.facts = some noted) :
    f.withFacts v (f.factsOf s v) = f := by
  unfold withFacts
  rw [factsOf_of_get? h, Sorted.put_of_get? hf.nodup h]

/-- A type test that is passed is noted. -/
theorem get?_addInstanceOf (hholds : (f.addInstanceOf s v t).holds = true) :
    ∃ noted, Sorted.get? v (f.addInstanceOf s v t).frame.facts = some noted ∧ t ∈ noted.instanceOf := by
  obtain ⟨ht, heq⟩ | heq | ⟨-, heq⟩ := addInstanceOf_cases f s v t
  · rw [heq]
    exact ⟨_, Sorted.get?_put_self _ _ _, ht⟩
  · rw [heq] at hholds
    cases hholds
  · rw [heq]
    exact ⟨_, Sorted.get?_put_self _ _ _, Sorted.mem_insert.mpr (Or.inl rfl)⟩

/-- A type test that is not passed is noted. -/
theorem get?_addNotInstanceOf (hholds : (f.addNotInstanceOf s v t).holds = true) :
    ∃ noted, Sorted.get? v (f.addNotInstanceOf s v t).frame.facts = some noted ∧ t ∈ noted.notInstanceOf := by
  obtain ⟨ht, heq⟩ | heq | ⟨-, heq⟩ := addNotInstanceOf_cases f s v t
  · rw [heq]
    exact ⟨_, Sorted.get?_put_self _ _ _, ht⟩
  · rw [heq] at hholds
    cases hholds
  · rw [heq]
    exact ⟨_, Sorted.get?_put_self _ _ _, Sorted.mem_insert.mpr (Or.inl rfl)⟩

/-- A type that is noted passes, and changes nothing. -/
theorem addInstanceOf_of_mem (hf : f.Coherent s) (h : Sorted.get? v f.facts = some noted) (ht : t ∈ noted.instanceOf) :
    f.addInstanceOf s v t = ⟨true, f⟩ := by
  unfold addInstanceOf
  simp only
  rw [withFacts_factsOf hf h, factsOf_of_get? h, if_pos ht]

theorem addNotInstanceOf_of_mem (hf : f.Coherent s) (h : Sorted.get? v f.facts = some noted)
    (ht : t ∈ noted.notInstanceOf) : f.addNotInstanceOf s v t = ⟨true, f⟩ := by
  unfold addNotInstanceOf
  simp only
  rw [withFacts_factsOf hf h, factsOf_of_get? h, if_pos ht]

/-- A type that is excluded is refused. -/
theorem holds_addInstanceOf_of_mem (hf : f.Coherent s) (ht : t ∈ (f.factsOf s v).notInstanceOf) :
    (f.addInstanceOf s v t).holds = false := by
  have hself := s.hierarchy.isAssignable_self t
  have hnot : t ∉ (f.factsOf s v).instanceOf := fun hmem => (hf.factsOf v).notMem ⟨t, hmem, hself⟩ ht
  have hexcluded : ((f.factsOf s v).notInstanceOf.any fun excluded => s.hierarchy.isAssignable excluded t) = true :=
    List.any_eq_true.mpr ⟨t, ht, hself⟩
  unfold addInstanceOf
  simp only
  rw [if_neg hnot, if_pos hexcluded]

/-- To exclude a type above one that is noted is refused. -/
theorem addNotInstanceOf_of_below (hf : f.Coherent s)
    (hbelow : ∃ known ∈ (f.factsOf s v).instanceOf, s.hierarchy.isAssignable t known = true) :
    f.addNotInstanceOf s v t = ⟨false, f.withFacts v (f.factsOf s v)⟩ := by
  unfold addNotInstanceOf
  simp only
  rw [if_neg ((hf.factsOf v).notMem hbelow), if_pos (List.any_eq_true.mpr hbelow)]

/-- An equality leaves what is noted of a value, but for a mark. -/
theorem get?_applyEquality (h : Sorted.get? v f.facts = some noted) (left right : Value) (negated : Bool) :
    ∃ noted', Sorted.get? v (f.applyEquality left right negated).frame.facts = some noted' ∧ noted'.SameTypes noted := by
  obtain ⟨taken, hfacts, -⟩ := takesMarks_applyEquality f left right negated
  rw [hfacts, get?_unmark, h]
  refine ⟨_, rfl, ?_⟩
  cases taken v <;> exact ⟨rfl, rfl⟩

end Types

/-! ## Tests for types are remembered -/

/-- A test that is passed says that the value is not null, and then that it has the type. -/
theorem applyInstanceOf_false {id : VariableId} (hid : left.varId? = some id) (ht : right.typeOperand? = some t) :
    f.applyInstanceOf s false left right =
      if (f.applyEquality left .null true).holds then (f.applyEquality left .null true).frame.addInstanceOf s left t
      else f.applyEquality left .null true := by
  unfold applyInstanceOf
  simp only [hid, ht]
  rfl

/-- A test that fails says that the value has not the type, or else that it is null. -/
theorem applyInstanceOf_true {id : VariableId} (hid : left.varId? = some id) (ht : right.typeOperand? = some t) :
    f.applyInstanceOf s true left right =
      if (f.addNotInstanceOf s left t).holds then f.addNotInstanceOf s left t
      else (f.addNotInstanceOf s left t).frame.applyEquality left .null false := by
  unfold applyInstanceOf
  simp only [hid, ht]
  rfl

/-- What a frame remembers of a test for a type: that the value is not null and has the type; that it has not the type;
or that it is null, because it would have the type otherwise. -/
inductive Remembers (f : Frame) (s : Scope) (v : Value) (t : JvmType) : (negated : Bool) → Prop
  | has {noted : Facts} (hapart : f.TellsApart v .null) (hnoted : Sorted.get? v f.facts = some noted)
      (ht : t ∈ noted.instanceOf) : Remembers f s v t false
  | hasNot {noted : Facts} (hnoted : Sorted.get? v f.facts = some noted) (ht : t ∈ noted.notInstanceOf) :
      Remembers f s v t true
  | isNull {noted : Facts} (hsame : f.partition.Same v .null) (hnoted : Sorted.get? v f.facts = some noted)
      (hbelow : ∃ known ∈ noted.instanceOf, s.hierarchy.isAssignable t known = true) : Remembers f s v t true

variable {id : VariableId}

/-- **A test for a type that was passed is remembered.** -/
theorem remembers_applyInstanceOf (hf : f.partition.WellFormed) (hcoherent : f.Coherent s) (hid : left.varId? = some id)
    (ht : right.typeOperand? = some t) (hholds : (f.applyInstanceOf s negated left right).holds = true) :
    (f.applyInstanceOf s negated left right).frame.Remembers s left t negated := by
  have hatom := Value.isAtom_of_varId? hid
  cases negated with
  | false =>
    rw [applyInstanceOf_false hid ht] at hholds ⊢
    split at hholds
    · rename_i hnotNull
      rw [if_pos hnotNull]
      obtain ⟨noted, hnoted, hmem⟩ := get?_addInstanceOf hholds
      exact .has ((tellsApart_of_applyEquality hf hatom rfl hnotNull).addInstanceOf s left t) hnoted hmem
    · rename_i hnull
      exact absurd hholds hnull
  | true =>
    rw [applyInstanceOf_true hid ht] at hholds ⊢
    split at hholds
    · rename_i hadd
      rw [if_pos hadd]
      obtain ⟨noted, hnoted, hmem⟩ := get?_addNotInstanceOf hholds
      exact .hasNot hnoted hmem
    · rename_i hadd
      rw [if_neg hadd]
      -- a type below is noted, so it was taken on that the value is null
      have hbelow := has_of_addNotInstanceOf (Bool.eq_false_iff.mpr hadd)
      rw [addNotInstanceOf_of_below hcoherent hbelow] at hholds ⊢
      obtain ⟨noted, hnoted, htypes⟩ := get?_applyEquality (f := f.withFacts left (f.factsOf s left))
        (Sorted.get?_put_self _ _ _) left .null false
      exact .isNull (same_of_applyEquality (f := f.withFacts left _) hf hatom rfl hholds) hnoted (htypes.1 ▸ hbelow)

/-- **A test for a type that is remembered changes nothing when it is repeated.** -/
theorem Remembers.applyInstanceOf (h : f.Remembers s left t negated) (hf : f.partition.WellFormed)
    (hcoherent : f.Coherent s) (hid : left.varId? = some id) (ht : right.typeOperand? = some t) :
    f.applyInstanceOf s negated left right = ⟨true, f⟩ := by
  cases h with
  | has hapart hnoted hmem =>
    rw [applyInstanceOf_false hid ht, hapart.applyEquality hf, if_pos rfl]
    exact addInstanceOf_of_mem hcoherent hnoted hmem
  | hasNot hnoted hmem =>
    rw [applyInstanceOf_true hid ht, addNotInstanceOf_of_mem hcoherent hnoted hmem, if_pos rfl]
  | isNull hsame hnoted hbelow =>
    have hrefused := addNotInstanceOf_of_below hcoherent ((factsOf_of_get? (s := s) hnoted).symm ▸ hbelow)
    rw [applyInstanceOf_true hid ht, hrefused, if_neg Bool.false_ne_true, withFacts_factsOf hcoherent hnoted]
    exact applyEquality_of_same hf hsame

/-- **The opposite of a test for a type that is remembered is refused.** -/
theorem Remembers.opposite (h : f.Remembers s left t negated) (hf : f.partition.WellFormed) (hcoherent : f.Coherent s)
    (hid : left.varId? = some id) (ht : right.typeOperand? = some t) :
    (f.applyInstanceOf s (!negated) left right).holds = false := by
  cases h with
  | has hapart hnoted hmem =>
    -- the type lies above itself, and the value is not null
    have hrefused := addNotInstanceOf_of_below (v := left) hcoherent
      ⟨t, (factsOf_of_get? (s := s) hnoted).symm ▸ hmem, s.hierarchy.isAssignable_self t⟩
    rw [Bool.not_false, applyInstanceOf_true hid ht, hrefused, if_neg Bool.false_ne_true,
      withFacts_factsOf hcoherent hnoted]
    exact hapart.opposite hf
  | hasNot hnoted hmem =>
    rw [Bool.not_true, applyInstanceOf_false hid ht]
    split
    · have htypes := sameTypes_applyEquality f s left .null left true
      refine holds_addInstanceOf_of_mem (hcoherent.applyEquality left .null true) ?_
      rw [htypes.2, factsOf_of_get? hnoted]
      exact hmem
    · rename_i hnull
      exact Bool.eq_false_iff.mpr hnull
  | isNull hsame hnoted hbelow =>
    have hopposite := opposite_of_same hf hsame
    rw [Bool.not_true, applyInstanceOf_false hid ht, if_neg (Bool.eq_false_iff.mp hopposite)]
    exact hopposite

/-! ## The headline -/

/-- **A test that was passed is decided when it is repeated.** In every reachable frame, if an equality or inequality of
two atoms is passed, or a test of a variable for a type, be it for having it or for not having it, then what is left
passes the test again and stays as it is, and refuses its opposite. -/
theorem decided_when_repeated (h : f.Reachable s) {condition : Value} (hcondition : condition.IsRemembered)
    (hholds : (f.applyCondition s condition).holds = true) :
    (f.applyCondition s condition).frame.applyCondition s condition =
        ⟨true, (f.applyCondition s condition).frame⟩ ∧
      ((f.applyCondition s condition).frame.applyCondition s condition.negate).holds = false := by
  have hleft := h.applyCondition condition
  cases hcondition with
  | equality negated hl hr => exact applyEquality_decided h.wellFormed hl hr (congrArg (Applied.mk · _) hholds)
  | typeTest negated hid ht =>
    obtain ⟨id, hid⟩ := Option.isSome_iff_exists.mp hid
    obtain ⟨t, ht⟩ := Option.isSome_iff_exists.mp ht
    have hremembers := remembers_applyInstanceOf h.wellFormed h.coherent hid ht hholds
    exact ⟨hremembers.applyInstanceOf hleft.wellFormed hleft.coherent hid ht,
      hremembers.opposite hleft.wellFormed hleft.coherent hid ht⟩

/-- A variable was assigned a value of a class. That it is no object can only be passed as null, and is then decided. -/
theorem decided_when_repeated_as_null :
    let s : Scope := ⟨[⟨"x", .object, .local, false, []⟩], .empty⟩
    let x := Value.var 0 false
    let f := Frame.empty.assign s x (.typed (.classType "p/A") .unknown)
    let condition := Value.relation .instanceOf true x (.typed .object .unknown)
    let r := f.applyCondition s condition
    f.Reachable s ∧ condition.IsRemembered ∧ r.holds = true ∧ r.frame.isNull x = true ∧
      r.frame.applyCondition s condition = ⟨true, r.frame⟩ ∧
      (r.frame.applyCondition s condition.negate).holds = false := by
  intro s x f condition r
  have hf : f.Reachable s := Reachable.empty.assign _ _
  have hcondition : condition.IsRemembered := .typeTest true rfl rfl
  have hholds : r.holds = true := by decide
  exact ⟨hf, hcondition, hholds, by decide, decided_when_repeated hf hcondition hholds⟩

end Frame

end NullCheck
