import Mathlib.Data.Set.Card
import Mathlib.Data.Set.Finite.List
import NullCheck.Proofs.State.Marks
import NullCheck.Proofs.State.Reachable
import NullCheck.Proofs.State.Stack

/-!
# Frames over a vocabulary

What a frame tells is told in values: those on the stack, those that are equal or differ, those of which facts are
noted, and those that were assigned. As long as the operations work on values of a *vocabulary*, a frame holds no
others, and it holds nothing twice: no atom is in two slots, no pair of slots is listed twice, no value has two
entries, and no type is noted of it twice. Slots are not used up either, because an emptied one is taken before a new
one is made. So over a finite vocabulary there are finitely many frames, but for the height of the stack.

## The architecture

* **`Sorted.Table`**, **`Partition.Over`**, **`Facts.Over`**, **`Frame.Over`**: what is told in values of a
  vocabulary, and nothing twice.
* **`Partition.Over.length_lt`**: if no slot is empty and an atom is in none, there is room for one more slot.
* **`Frame.Over.…`**, one lemma for each operation: it keeps frames over the vocabulary.
* **`Frame.finite_over`**: the headline.
-/

namespace NullCheck

/-! ## Lists over a finite set -/

section Lists

variable {α β : Type}

/-- Over a finite set there are finitely many lists up to a length. -/
theorem finite_lists {s : Set α} (hs : s.Finite) (n : Nat) : {l : List α | l.length ≤ n ∧ ∀ a ∈ l, a ∈ s}.Finite := by
  have hfinite : Finite s := hs
  refine ((List.finite_length_le s n).image (List.map Subtype.val)).subset ?_
  rintro l ⟨hlength, hmem⟩
  lift l to List s using hmem
  exact ⟨l, by simpa using hlength, rfl⟩

theorem length_le_ncard {s : Set α} (hs : s.Finite) {l : List α} (hl : l.Nodup) (hmem : ∀ a ∈ l, a ∈ s) :
    l.length ≤ s.ncard := by
  classical
  have hsubset : (l.toFinset : Set α) ⊆ s := fun a ha => hmem a (List.mem_toFinset.mp ha)
  have hcard := Set.ncard_le_ncard hsubset hs
  rwa [Set.ncard_coe_finset, List.toFinset_card_of_nodup hl] at hcard

/-- Over a finite set there are finitely many lists without repetitions. -/
theorem finite_nodup {s : Set α} (hs : s.Finite) : {l : List α | l.Nodup ∧ ∀ a ∈ l, a ∈ s}.Finite :=
  (finite_lists hs s.ncard).subset fun _ hl => ⟨length_le_ncard hs hl.1 hl.2, hl.2⟩

namespace Sorted

variable [Ord α] [DecidableEq α]

omit [DecidableEq α] in
/-- Where something is placed in a list is a matter of order only. -/
theorem place_perm (a : α) (as : List α) : (place a as).Perm (a :: as) := by
  induction as with
  | nil => exact .refl _
  | cons b bs ih =>
    rw [place]
    split
    · exact .refl _
    · exact (ih.cons b).trans (.swap a b bs)

omit [DecidableEq α] in
theorem placeEntry_perm (k : α) (b : β) (es : List (α × β)) : (placeEntry k b es).Perm ((k, b) :: es) := by
  induction es with
  | nil => exact .refl _
  | cons e es ih =>
    rw [placeEntry]
    split
    · exact .refl _
    · exact (ih.cons e).trans (.swap (k, b) e es)

theorem nodup_insert {a : α} {as : List α} (h : as.Nodup) : (insert a as).Nodup := by
  unfold insert
  split
  · exact h
  · rename_i ha
    exact (place_perm a as).nodup_iff.mpr (List.nodup_cons.mpr ⟨ha, h⟩)

theorem nodup_insertAll {new as : List α} (h : as.Nodup) : (insertAll new as).Nodup := by
  induction new generalizing as with
  | nil => exact h
  | cons a new ih =>
    show (insertAll new (insert a as)).Nodup
    exact ih (nodup_insert h)

/-- What is in a table after `put` was put or was there. -/
theorem mem_of_mem_put {k : α} {b : β} {es : List (α × β)} {e : α × β} (he : e ∈ put k b es) : e = (k, b) ∨ e ∈ es := by
  unfold put at he
  split at he
  · obtain ⟨e', he', rfl⟩ := List.mem_map.mp he
    split
    · exact Or.inl rfl
    · exact Or.inr he'
  · exact List.mem_cons.mp ((placeEntry_perm k b es).mem_iff.mp he)

omit [Ord α] [DecidableEq α] in
/-- A table whose keys are in `K` and whose values are in `B`, no key being there twice. -/
structure Table (K : Set α) (B : Set β) (es : List (α × β)) : Prop where
  nodup : (keys es).Nodup
  mem : ∀ e ∈ es, e.1 ∈ K ∧ e.2 ∈ B

namespace Table

variable {K : Set α} {B : Set β} {es : List (α × β)}

omit [Ord α] [DecidableEq α] in
theorem nil : Table K B [] := ⟨List.nodup_nil, by simp⟩

theorem put (h : Table K B es) {k : α} {b : β} (hk : k ∈ K) (hb : b ∈ B) : Table K B (put k b es) := by
  refine ⟨nodup_keys_put h.nodup k b, fun e he => ?_⟩
  rcases mem_of_mem_put he with rfl | hmem
  · exact ⟨hk, hb⟩
  · exact h.mem e hmem

omit [Ord α] [DecidableEq α] in
theorem filter (h : Table K B es) (kept : α × β → Bool) : Table K B (es.filter kept) where
  nodup := h.nodup.sublist (List.filter_sublist.map _)
  mem e he := h.mem e (List.mem_of_mem_filter he)

omit [Ord α] in
/-- What a table gives for a key is one of its values. -/
theorem get?_mem (h : Table K B es) {k : α} {b : β} (hb : get? k es = some b) : b ∈ B := by
  induction es with
  | nil => cases hb
  | cons e es ih =>
    rw [get?] at hb
    split at hb
    · exact Option.some.inj hb ▸ (h.mem e (List.mem_cons_self ..)).2
    · exact ih ⟨h.nodup.of_cons, fun e' he' => h.mem e' (List.mem_cons_of_mem _ he')⟩ hb

omit [Ord α] [DecidableEq α] in
theorem mono (h : Table K B es) {K' : Set α} {B' : Set β} (hK : K ⊆ K') (hB : B ⊆ B') : Table K' B' es where
  nodup := h.nodup
  mem e he := ⟨hK (h.mem e he).1, hB (h.mem e he).2⟩

omit [Ord α] [DecidableEq α] in
/-- Over finitely many keys and values there are finitely many tables, since no key has two entries. -/
theorem finite (hK : K.Finite) (hB : B.Finite) : {es : List (α × β) | Table K B es}.Finite :=
  (finite_nodup (hK.prod hB)).subset fun _ h => ⟨h.nodup.of_map _, h.mem⟩

end Table

end Sorted

end Lists

/-! ## Partitions -/

namespace Partition

/-- The atoms in a partition are from a vocabulary, and the partition holds nothing twice and has no more slots than
the vocabulary has values. -/
structure Over (U : Set Value) (p : Partition) : Prop where
  wellFormed : p.WellFormed
  values : ∀ {slot v}, v ∈ p.members slot → v ∈ U
  nodup : ∀ slot, (p.members slot).Nodup
  length : p.classes.length ≤ U.ncard
  distinct : p.distinct.Nodup

variable {U : Set Value} {p : Partition}

/-- If the search for an empty class fails, each class holds something. -/
theorem exists_mem_of_findIdx?_eq_none (h : p.classes.findIdx? List.isEmpty = none) {a : Nat}
    (ha : a < p.classes.length) : ∃ v, v ∈ p.members a := by
  have hmem : p.classes[a].isEmpty = false := List.findIdx?_eq_none_iff.mp h _ (List.getElem_mem ha)
  rw [members_of_getElem? (List.getElem?_eq_getElem ha)]
  exact List.isEmpty_eq_false_iff_exists_mem.mp hmem

namespace Over

theorem empty (U : Set Value) : Partition.empty.Over U where
  wellFormed := .empty
  values hv := by simp [Partition.empty, members] at hv
  nodup slot := by simp [Partition.empty, members]
  length := Nat.zero_le _
  distinct := List.nodup_nil

/-- A larger finite set allows more classes, so the bound on their number still holds. -/
theorem mono (h : p.Over U) {U' : Set Value} (hsubset : U ⊆ U') (hU' : U'.Finite) : p.Over U' where
  wellFormed := h.wellFormed
  values hv := hsubset (h.values hv)
  nodup := h.nodup
  length := h.length.trans (Set.ncard_le_ncard hsubset hU')
  distinct := h.distinct

/-- **If no slot is empty there is room for another one.** An atom that is in none has not been counted. -/
theorem length_lt (hU : U.Finite) (h : p.Over U) (hfull : ∀ a < p.classes.length, ∃ v, v ∈ p.members a) {v : Value}
    (hv : v ∈ U) (hnew : ∀ a, v ∉ p.members a) : p.classes.length < U.ncard := by
  choose! head hhead using hfull
  let heads := (List.range p.classes.length).map head
  have hheads : ∀ u ∈ heads, ∃ a, u ∈ p.members a := by
    intro u hu
    obtain ⟨a, ha, rfl⟩ := List.mem_map.mp hu
    exact ⟨a, hhead a (List.mem_range.mp ha)⟩
  -- the heads are different, because they are in different slots
  have hnodup : heads.Nodup := by
    refine List.Nodup.map_on (fun a ha b hb hab => ?_) List.nodup_range
    exact h.wellFormed.disjoint (hhead a (List.mem_range.mp ha)) (hab ▸ hhead b (List.mem_range.mp hb))
  have hnotMem : v ∉ heads := fun hmem => (hheads v hmem).elim fun a ha => hnew a ha
  have hle : (v :: heads).length ≤ U.ncard := by
    refine length_le_ncard hU (List.nodup_cons.mpr ⟨hnotMem, hnodup⟩) fun u hu => ?_
    rcases List.mem_cons.mp hu with rfl | hu
    · exact hv
    · exact (hheads u hu).elim fun a ha => h.values ha
  have hlength : (v :: heads).length = p.classes.length + 1 := by simp [heads]
  omega

/-- A new class is appended only when no class is empty, and then the atoms outnumber the classes. -/
theorem ensure (hU : U.Finite) (h : p.Over U) {v : Value} (hv : v ∈ U) (hatom : v.isAtom) : (p.ensure v).2.Over U := by
  cases hs : p.slot? v with
  | some a =>
    rw [show p.ensure v = (a, p) by simp [Partition.ensure, hs]]
    exact h
  | none =>
    refine ⟨h.wellFormed.ensure hatom, fun hw => ?_, fun slot => ?_, ?_, ?_⟩
    · -- only `v` is new
      rcases mem_members_ensure.mp hw with hw | ⟨rfl, -⟩
      · exact h.values hw
      · exact hv
    · rw [members_ensure_of_none hs]
      split
      · exact List.nodup_singleton v
      · exact h.nodup slot
    · unfold Partition.ensure
      rw [hs]
      cases hempty : p.classes.findIdx? List.isEmpty with
      | some a =>
        show (p.classes.set a [v]).length ≤ U.ncard
        rw [List.length_set]
        exact h.length
      | none =>
        -- each class holds an atom and `v` is in none of them
        have hlt : p.classes.length < U.ncard :=
          h.length_lt hU (fun a ha => exists_mem_of_findIdx?_eq_none hempty ha) hv (slot?_eq_none_iff.mp hs)
        show (p.classes ++ [[v]]).length ≤ U.ncard
        rw [List.length_append, List.length_singleton]
        omega
    · rw [distinct_ensure]
      exact h.distinct

/-- Only classes that hold something are told apart, so a noted pair is one of slots that exist. -/
theorem separate (h : p.Over U) {a b : Nat} {v w : Value} (hv : v ∈ p.members a) (hw : w ∈ p.members b)
    (hab : a ≠ b) : (p.separate a b).Over U where
  wellFormed := h.wellFormed.separate hv hw hab
  values hu := h.values hu
  nodup slot := h.nodup slot
  length := h.length
  distinct := Sorted.nodup_insert h.distinct

/-- A merge moves atoms between slots and empties one of them; no slot is added. -/
theorem merge (h : p.Over U) {a b : Nat} {v w : Value} (hv : v ∈ p.members a) (hw : w ∈ p.members b) (hab : a ≠ b)
    (hd : p.areDistinct a b = false) (hc : p.inConflict a b = false) : (p.merge a b).2.Over U := by
  -- slots that hold something exist
  have ha : a < p.classes.length := lt_length_of_mem_members hv
  have hb : b < p.classes.length := lt_length_of_mem_members hw
  refine ⟨h.wellFormed.merge hv hw hab hd hc, fun hu => ?_, fun slot => ?_, ?_, Sorted.nodup_insertAll List.nodup_nil⟩
  · obtain ⟨c, -, huc⟩ := (mem_members_merge ha hb hab).mp hu
    exact h.values huc
  · -- the higher slot is emptied, the lower one holds what was in either
    by_cases hmax : slot = max a b
    · rw [hmax, members_merge_max ha hb]
      exact List.nodup_nil
    · by_cases hmin : slot = min a b
      · rw [hmin, members_merge_min ha hb hab]
        exact Sorted.nodup_insertAll (h.nodup _)
      · rw [members_merge_of_ne hmax hmin]
        exact h.nodup slot
  · show ((p.classes.set _ _).set _ _).length ≤ U.ncard
    rw [List.length_set, List.length_set]
    exact h.length

/-- Forgetting only takes atoms away, and leaves the slots where they are. -/
theorem forget (h : p.Over U) (forgotten : Value → Bool) : (p.forget forgotten).Over U where
  wellFormed := h.wellFormed.forget forgotten
  values hv := h.values (mem_members_forget.mp hv).1
  nodup slot := by
    have hmembers : (p.forget forgotten).members slot = (p.members slot).filter fun v => !forgotten v := by
      unfold Partition.forget members
      rw [List.getElem?_map]
      cases p.classes[slot]? <;> rfl
    rw [hmembers]
    exact (h.nodup slot).filter _
  length := by
    show (p.classes.map _).length ≤ U.ncard
    rw [List.length_map]
    exact h.length
  distinct := h.distinct.filter _

end Over

/-- There are finitely many partitions over a finite set: so many slots, each one a list without repetitions, and so
many pairs of slots. -/
theorem finite_over (hU : U.Finite) : {p : Partition | p.Over U}.Finite := by
  -- slots are numbers below the number of values
  let slots : Set Nat := {a | a < U.ncard}
  have hslots : slots.Finite := Set.finite_lt_nat _
  have hpairs : {d : SlotPair | d.low ∈ slots ∧ d.high ∈ slots}.Finite := by
    refine ((hslots.prod hslots).image fun e => SlotPair.mk e.1 e.2).subset fun d hd => ?_
    exact ⟨(d.low, d.high), hd, rfl⟩
  have hclasses := finite_lists (finite_nodup hU) U.ncard
  refine ((hclasses.prod (finite_nodup hpairs)).image fun e => Partition.mk e.1 e.2).subset fun p hp => ?_
  refine ⟨(p.classes, p.distinct), ⟨⟨hp.length, fun c hc => ?_⟩, hp.distinct, fun d hd => ?_⟩, rfl⟩
  · -- a class is a list without repetitions of values
    obtain ⟨a, ha⟩ := List.getElem?_of_mem hc
    have hmembers : p.members a = c := members_of_getElem? ha
    exact ⟨hmembers ▸ hp.nodup a, fun v hv => hp.values (hmembers.symm ▸ hv)⟩
  · -- a pair that is noted is one of slots that hold something
    obtain ⟨⟨v, hv⟩, ⟨w, hw⟩⟩ := hp.wellFormed.inhabited hd
    exact ⟨(lt_length_of_mem_members hv).trans_le hp.length, (lt_length_of_mem_members hw).trans_le hp.length⟩

end Partition

namespace EqualityOutcome

/-- Whichever way an equation ends, the partition is still over the same values. -/
theorem stays_over {U : Set Value} {q p : Partition} {a b : Nat} {negated holds : Bool}
    (h : EqualityOutcome q a b negated holds p) (hq : q.Over U) {v w : Value} (hv : v ∈ q.members a)
    (hw : w ∈ q.members b) : p.Over U := by
  cases h with
  | same => exact hq
  | refuted => exact hq
  | apart => exact hq
  | separated hab => exact hq.separate hv hw hab
  | merged hab hd hc => exact hq.merge hv hw hab hd hc

end EqualityOutcome

/-! ## Facts -/

/-- The types that are noted are from a set, and none is noted twice. -/
def Facts.Over (T : Set JvmType) (a : Facts) : Prop :=
  (a.instanceOf.Nodup ∧ ∀ t ∈ a.instanceOf, t ∈ T) ∧ (a.notInstanceOf.Nodup ∧ ∀ t ∈ a.notInstanceOf, t ∈ T)

/-- Over finitely many types there are finitely many facts about a value. -/
theorem Facts.finite_over {T : Set JvmType} (hT : T.Finite) : {a : Facts | a.Over T}.Finite := by
  have htypes := finite_nodup hT
  refine (((Set.toFinite (Set.univ : Set Bool)).prod (htypes.prod htypes)).image
    fun e => Facts.mk e.1 e.2.1 e.2.2).subset fun a ha => ?_
  exact ⟨(a.nullable, a.instanceOf, a.notInstanceOf), ⟨Set.mem_univ _, ha⟩, rfl⟩

theorem Facts.Over.mono {T T' : Set JvmType} {a : Facts} (h : a.Over T) (hsubset : T ⊆ T') : a.Over T' :=
  ⟨⟨h.1.1, fun t ht => hsubset (h.1.2 t ht)⟩, ⟨h.2.1, fun t ht => hsubset (h.2.2 t ht)⟩⟩

theorem Facts.over_insert {T : Set JvmType} {ts : List JvmType} (h : ts.Nodup ∧ ∀ t ∈ ts, t ∈ T) {t : JvmType}
    (ht : t ∈ T) : (Sorted.insert t ts).Nodup ∧ ∀ u ∈ Sorted.insert t ts, u ∈ T := by
  refine ⟨Sorted.nodup_insert h.1, fun u hu => ?_⟩
  rcases Sorted.mem_insert.mp hu with rfl | hu
  · exact ht
  · exact h.2 u hu

/-- To take marks changes no keys, and nothing in the facts that is not about marks. -/
theorem table_unmark {K : Set Value} {B : Set Facts} {facts : List (Value × Facts)} (h : Sorted.Table K B facts)
    (hB : ∀ a ∈ B, { a with nullable := false } ∈ B) (taken : Value → Bool) : Sorted.Table K B (unmark taken facts) where
  nodup := (keys_unmark taken facts).symm ▸ h.nodup
  mem e he := by
    obtain ⟨e', he', rfl⟩ := List.mem_map.mp he
    obtain ⟨hkey, hfacts⟩ := h.mem e' he'
    refine ⟨hkey, ?_⟩
    cases taken e'.1
    · exact hfacts
    · exact hB _ hfacts

/-- The types of the values of a vocabulary. -/
def Scope.types (s : Scope) (U : Set Value) : Set JvmType := {t | ∃ v ∈ U, s.staticType? v = some t}

theorem Scope.finite_types (s : Scope) {U : Set Value} (hU : U.Finite) : (s.types U).Finite := by
  refine (hU.image fun v => (s.staticType? v).getD .object).subset ?_
  rintro t ⟨v, hv, ht⟩
  exact ⟨v, hv, by simp [ht]⟩

/-! ## Frames -/

namespace Frame

/-- A frame tells what it tells in values of a vocabulary, and nothing twice. -/
structure Over (s : Scope) (U : Set Value) (f : Frame) : Prop where
  stack : ∀ v ∈ f.stack, v ∈ U
  partition : f.partition.Over U
  facts : Sorted.Table U {a | a.Over (s.types U)} f.facts
  bindings : Sorted.Table {id | ∃ viaMethods, .var id viaMethods ∈ U} U f.bindings

variable {s : Scope} {U : Set Value} {f : Frame}

/-- **Over a finite vocabulary there are finitely many frames,** but for the height of the stack. -/
theorem finite_over (s : Scope) (hU : U.Finite) (height : Nat) :
    {f : Frame | f.Over s U ∧ f.stack.length ≤ height}.Finite := by
  have hids : {id | ∃ viaMethods, Value.var id viaMethods ∈ U}.Finite := by
    refine (hU.image fun v => v.varId?.getD 0).subset ?_
    rintro id ⟨viaMethods, hid⟩
    exact ⟨_, hid, rfl⟩
  have hstacks := finite_lists hU height
  have hfacts := Sorted.Table.finite hU (Facts.finite_over (s.finite_types hU))
  have hbindings := Sorted.Table.finite hids hU
  have hparts := hstacks.prod ((Partition.finite_over hU).prod
    (hfacts.prod (hbindings.prod (Set.toFinite (Set.univ : Set Bool)))))
  refine (hparts.image fun e => Frame.mk e.1 e.2.1 e.2.2.1 e.2.2.2.1 e.2.2.2.2).subset ?_
  rintro f ⟨hf, hheight⟩
  refine ⟨(f.stack, f.partition, f.facts, f.bindings, f.fieldReferenced), ?_, rfl⟩
  exact ⟨⟨hheight, hf.stack⟩, hf.partition, hf.facts, hf.bindings, Set.mem_univ _⟩

namespace Over

theorem empty (s : Scope) (U : Set Value) : Frame.empty.Over s U where
  stack v hv := by cases hv
  partition := .empty U
  facts := .nil
  bindings := .nil

/-- What is told in values of a vocabulary is told in those of a larger one. -/
theorem mono (h : f.Over s U) {U' : Set Value} (hsubset : U ⊆ U') (hU' : U'.Finite) : f.Over s U' where
  stack v hv := hsubset (h.stack v hv)
  partition := h.partition.mono hsubset hU'
  facts := by
    have htypes : s.types U ⊆ s.types U' := fun t ⟨v, hv, ht⟩ => ⟨v, hsubset hv, ht⟩
    exact h.facts.mono hsubset fun a ha => ha.mono htypes
  bindings := h.bindings.mono (fun id ⟨viaMethods, hid⟩ => ⟨viaMethods, hsubset hid⟩) hsubset

theorem push (h : f.Over s U) {v : Value} (hv : v ∈ U) : (f.push v).Over s U where
  stack w hw := (List.mem_cons.mp hw).elim (fun h => h ▸ hv) (h.stack w)
  partition := h.partition
  facts := h.facts
  bindings := h.bindings

theorem pop (h : f.Over s U) : f.pop.2.Over s U where
  stack w hw := h.stack w (List.mem_of_mem_tail hw)
  partition := h.partition
  facts := h.facts
  bindings := h.bindings

/-- A stack that is empty gives what is unknown, so that must be one of the values. -/
theorem pop_mem (h : f.Over s U) (hunknown : .unknown ∈ U) : f.pop.1 ∈ U := by
  cases hstack : f.stack with
  | nil => simpa [Frame.pop, hstack] using hunknown
  | cons v vs =>
    have hv : v ∈ U := h.stack v (by simp [hstack])
    simpa [Frame.pop, hstack] using hv

theorem referenceField (h : f.Over s U) : f.withFieldReferenced.Over s U where
  stack := h.stack
  partition := h.partition
  facts := h.facts
  bindings := h.bindings

theorem flushVariable (h : f.Over s U) (id : VariableId) : (f.flushVariable id).Over s U where
  stack := h.stack
  partition := h.partition.forget _
  facts := h.facts.filter _
  bindings := h.bindings.filter _

/-! ### Equality -/

/-- An equation gives slots to its sides, may merge or note them, and takes marks away. -/
theorem applyEquality (hU : U.Finite) (h : f.Over s U) {left right : Value} (hl : left ∈ U) (hr : right ∈ U)
    (negated : Bool) : (f.applyEquality left right negated).frame.Over s U := by
  by_cases hatoms : left.isAtom ∧ right.isAtom
  · have hslots : (f.ensureSlots left right).2.2.partition.Over U :=
      (h.partition.ensure hU hl hatoms.1).ensure hU hr hatoms.2
    have hslotted := slotted_ensureSlots f hatoms.1 hatoms.2
    refine ⟨?_, ?_, ?_, ?_⟩
    · rw [stack_applyEquality]
      exact h.stack
    · exact (applyEquality_outcome f hatoms.1 hatoms.2 negated).stays_over hslots hslotted.left_mem hslotted.right_mem
    · -- of the facts only marks change, which have no types
      obtain ⟨taken, hfacts, -⟩ := takesMarks_applyEquality f left right negated
      rw [hfacts]
      exact table_unmark h.facts (fun _ ha => ha) taken
    · rw [bindings_applyEquality]
      exact h.bindings
  · rw [applyEquality_of_not_isAtom hatoms]
    exact h

theorem applyNotNull (hU : U.Finite) (hnull : .null ∈ U) (h : f.Over s U) {v : Value} (hv : v ∈ U) :
    (f.applyNotNull v).frame.Over s U := by
  unfold Frame.applyNotNull
  split
  · exact h.applyEquality hU hv hnull true
  · exact h

/-! ### Types -/

theorem withFacts (h : f.Over s U) {v : Value} (hv : v ∈ U) {a : Facts} (ha : a.Over (s.types U)) :
    (f.withFacts v a).Over s U where
  stack := h.stack
  partition := h.partition
  facts := h.facts.put hv ha
  bindings := h.bindings

/-- What is known of a value is over the types, also when it is only the type that it was declared with. -/
theorem factsOf (h : f.Over s U) {v : Value} (hv : v ∈ U) : (f.factsOf s v).Over (s.types U) := by
  unfold Frame.factsOf
  cases hfacts : Sorted.get? v f.facts with
  | some a => exact h.facts.get?_mem hfacts
  | none =>
    show (initialFacts s v).Over (s.types U)
    -- nothing was recorded: what is known is the declared type, if it is a reference
    unfold initialFacts
    refine ⟨⟨?_, fun t ht => ?_⟩, List.nodup_nil, by simp⟩
    · cases (s.staticType? v).filter JvmType.isReference with
      | none => exact List.nodup_nil
      | some t => exact List.nodup_singleton t
    · obtain ⟨htype, -⟩ := Option.filter_eq_some_iff.mp (Option.mem_toList.mp ht)
      exact ⟨v, hv, htype⟩

/-- The type of a value over the set may be recorded. -/
theorem recordType (h : f.Over s U) {v : Value} (hv : v ∈ U) {t : JvmType} (ht : t ∈ s.types U) :
    (f.recordType s v t).Over s U := by
  have hfacts : (f.factsOf s v).Over (s.types U) := h.factsOf hv
  unfold Frame.recordType
  split
  · exact h.withFacts hv ⟨Facts.over_insert hfacts.1 ht, hfacts.2⟩
  · exact h

theorem markNullable (h : f.Over s U) {v : Value} (hv : v ∈ U) : (f.markNullable s v).Over s U :=
  h.withFacts hv (h.factsOf hv)

/-- A test that is passed records its type, and one that fails records nothing new. -/
theorem addInstanceOf (h : f.Over s U) {v : Value} (hv : v ∈ U) {t : JvmType} (ht : t ∈ s.types U) :
    (f.addInstanceOf s v t).frame.Over s U := by
  have hfacts : (f.factsOf s v).Over (s.types U) := h.factsOf hv
  have hnoted : (f.withFacts v (f.factsOf s v)).Over s U := h.withFacts hv hfacts
  unfold Frame.addInstanceOf
  simp only
  split
  · exact hnoted
  · split
    · exact hnoted
    · split
      · exact hnoted
      · exact hnoted.withFacts hv ⟨Facts.over_insert hfacts.1 ht, hfacts.2⟩

/-- Likewise for a test that is not passed. -/
theorem addNotInstanceOf (h : f.Over s U) {v : Value} (hv : v ∈ U) {t : JvmType} (ht : t ∈ s.types U) :
    (f.addNotInstanceOf s v t).frame.Over s U := by
  have hfacts : (f.factsOf s v).Over (s.types U) := h.factsOf hv
  have hnoted : (f.withFacts v (f.factsOf s v)).Over s U := h.withFacts hv hfacts
  unfold Frame.addNotInstanceOf
  simp only
  split
  · exact hnoted
  · split
    · exact hnoted
    · exact hnoted.withFacts hv ⟨hfacts.1, Facts.over_insert hfacts.2 ht⟩

/-- The type on the right of an `instanceof` is that of a value. -/
theorem type_mem {v : Value} (hv : v ∈ U) {t : JvmType} (ht : v.typeOperand? = some t) : t ∈ s.types U := by
  refine ⟨v, hv, ?_⟩
  cases v <;> first | exact ht | cases ht

/-! ### Conditions and assignments -/

/-- The type of a test is that of its right side, which is one of the values. -/
theorem applyInstanceOf (hU : U.Finite) (hnull : .null ∈ U) (h : f.Over s U) {left right : Value} (hl : left ∈ U)
    (hr : right ∈ U) (negated : Bool) : (f.applyInstanceOf s negated left right).frame.Over s U := by
  unfold Frame.applyInstanceOf
  split
  · rename_i id t hid ht
    have htype : t ∈ s.types U := type_mem hr ht
    simp only
    split
    · have hnoted := h.addNotInstanceOf hl htype
      split
      · exact hnoted
      · exact hnoted.applyEquality hU hl hnull false
    · have hequality := h.applyEquality hU hl hnull true
      split
      · exact hequality.addInstanceOf hl htype
      · exact hequality
  · exact h

theorem applyRelation (hU : U.Finite) (hnull : .null ∈ U) (h : f.Over s U) {kind : RelationKind} {negated : Bool}
    {left right : Value} (hl : left ∈ U) (hr : right ∈ U) : (f.applyRelation s kind negated left right).frame.Over s U := by
  cases kind with
  | eq => exact h.applyEquality hU hl hr negated
  | lt =>
    show (f.applyOrdering .lt negated left right).frame.Over s U
    rwa [frame_applyOrdering]
  | gt =>
    show (f.applyOrdering .gt negated left right).frame.Over s U
    rwa [frame_applyOrdering]
  | instanceOf => exact h.applyInstanceOf hU hnull hl hr negated

theorem applyCast (h : f.Over s U) {kind : RelationKind} {negated : Bool} {left right : Value} (hl : left ∈ U)
    (hr : right ∈ U) : (f.applyCast s (.relation kind negated left right)).frame.Over s U := by
  unfold Frame.applyCast
  simp only
  split
  · rename_i id t hid ht
    split
    · exact h
    · split
      · exact h
      · exact h.addInstanceOf hl (type_mem hr ht)
  · exact h

/-- What a target adopts is an equation, a type of the value or a mark. -/
theorem adopt (hU : U.Finite) (hnull : .null ∈ U) (h : f.Over s U) {target value : Value} (ht : target ∈ U)
    (hv : value ∈ U) : (f.adopt s target value).Over s U := by
  unfold Frame.adopt
  split
  · exact (h.applyEquality hU ht hnull true).recordType ht ⟨_, hv, rfl⟩
  · refine Over.recordType ?_ ht ⟨_, hv, rfl⟩
    split
    · exact h.applyEquality hU ht hnull true
    · exact h.markNullable ht
    · exact h
  · exact h
  · exact h
  · exact h.applyEquality hU ht hv false

/-- An assignment binds the target to a value over the set, and adopts it. -/
theorem assign (hU : U.Finite) (hnull : .null ∈ U) (h : f.Over s U) {target value : Value} (ht : target ∈ U)
    (hv : value ∈ U) : (f.assign s target value).Over s U := by
  unfold Frame.assign
  cases target with
  | var id viaMethods =>
    simp only [Value.varId?]
    split
    · exact h
    · have hflushed := h.flushVariable id
      have hbound : ({ f.flushVariable id with bindings := Sorted.put id value (f.flushVariable id).bindings } :
          Frame).Over s U :=
        ⟨hflushed.stack, hflushed.partition, hflushed.facts, hflushed.bindings.put ⟨viaMethods, ht⟩ hv⟩
      exact hbound.adopt hU hnull ht hv
  | _ => exact h

end Over

end Frame

end NullCheck
