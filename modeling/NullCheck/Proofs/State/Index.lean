import NullCheck.Proofs.State.Answers

/-!
# Partitions with an index

The slot of an atom is found by a search through the classes. It might as well be looked up in an index of the atoms
that is kept up entry by entry: an atom is noted when a class is made for it, the atoms that a merger moves are noted
anew, and those that are forgotten are struck out. The index then says of each atom just what the search says, so that
nothing of it needs to be a part of partitions.

* **`Partition.IndexedBy`**: an index that was kept up along with a partition, one rule for each change.
* **`Partition.IndexedBy.get?_eq_some_iff`**: it notes just what is in the classes.
* **`Frame.indexed_…`**, one lemma for each operation: it changes the partition of a frame by those changes only.
-/

namespace NullCheck

namespace Partition

/-- An index of the atoms in a partition, by atom, that was kept up along with it. -/
inductive IndexedBy : Partition → List (Value × Nat) → Prop
  | empty : IndexedBy .empty []
  /-- A class is made for an atom that the index does not know. -/
  | ensure {p : Partition} {index : List (Value × Nat)} {v : Value} (h : IndexedBy p index)
      (hv : Sorted.get? v index = none) : IndexedBy (p.ensure v).2 (Sorted.put v (p.ensure v).1 index)
  | separate {p : Partition} {index : List (Value × Nat)} (a b : Nat) (h : IndexedBy p index) :
      IndexedBy (p.separate a b) index
  /-- The classes of two atoms are merged that the index tells apart. -/
  | merge {p : Partition} {index : List (Value × Nat)} {v w : Value} {a b : Nat} (h : IndexedBy p index)
      (hv : Sorted.get? v index = some a) (hw : Sorted.get? w index = some b) (hab : a ≠ b) :
      IndexedBy (p.merge a b).2
        ((p.members (max a b)).foldl (fun index moved => Sorted.put moved (min a b) index) index)
  | forget {p : Partition} {index : List (Value × Nat)} (forgotten : Value → Bool) (h : IndexedBy p index) :
      IndexedBy (p.forget forgotten) (index.filter fun e => !forgotten e.1)

variable {p : Partition} {index : List (Value × Nat)} {u v w : Value} {a b : Nat}

/-- All that is moved is found in the slot that is kept, and all else where it was. -/
theorem get?_foldl_put (moved : List Value) (kept : Nat) (index : List (Value × Nat)) (u : Value) :
    Sorted.get? u (moved.foldl (fun index v => Sorted.put v kept index) index) =
      if u ∈ moved then some kept else Sorted.get? u index := by
  induction moved generalizing index with
  | nil => simp
  | cons v moved ih =>
    rw [List.foldl_cons, ih]
    by_cases hmem : u ∈ moved
    · rw [if_pos hmem, if_pos (List.mem_cons_of_mem _ hmem)]
    · rw [if_neg hmem]
      by_cases huv : u = v
      · subst huv
        rw [Sorted.get?_put_self, if_pos (List.mem_cons_self ..)]
      · have hnot : u ∉ v :: moved := List.not_mem_cons_of_ne_of_not_mem huv hmem
        rw [Sorted.get?_put_of_ne (Ne.symm huv), if_neg hnot]

/-- **An index notes of each atom the slot that holds it.** -/
theorem IndexedBy.get?_eq_some_iff (h : p.IndexedBy index) : Sorted.get? u index = some a ↔ u ∈ p.members a := by
  induction h generalizing u a with
  | empty => simp [Sorted.get?, Partition.empty, members]
  | @ensure p index v h hv ih =>
    rw [mem_members_ensure]
    by_cases huv : u = v
    · -- the atom was in no class
      subst huv
      have hnew : u ∉ p.members a := fun hmem => by
        have hnoted : Sorted.get? u index = some a := ih.mpr hmem
        rw [hv] at hnoted
        cases hnoted
      rw [Sorted.get?_put_self, Option.some.injEq]
      exact ⟨fun heq => Or.inr ⟨rfl, heq.symm⟩, fun hor => (hor.resolve_left hnew).2.symm⟩
    · rw [Sorted.get?_put_of_ne (Ne.symm huv), ih]
      exact ⟨Or.inl, fun hor => hor.resolve_right fun hnew => huv hnew.1⟩
  | separate a b h ih => exact ih
  | @merge p index v w a' b' h hv hw hab ih =>
    have ha : a' < p.classes.length := lt_length_of_mem_members (ih.mp hv)
    have hb : b' < p.classes.length := lt_length_of_mem_members (ih.mp hw)
    rw [get?_foldl_put, mem_members_merge ha hb hab]
    -- the index knows one slot of each atom
    have hunique : ∀ {d e}, u ∈ p.members d → u ∈ p.members e → d = e := fun hd he =>
      Option.some.inj ((ih.mpr hd).symm.trans (ih.mpr he))
    by_cases hmoved : u ∈ p.members (max a' b')
    · rw [if_pos hmoved, Option.some.injEq]
      constructor
      · rintro rfl
        exact ⟨_, if_pos rfl, hmoved⟩
      · rintro ⟨d, hd, hud⟩
        obtain rfl : d = max a' b' := hunique hud hmoved
        rwa [renamed, if_pos rfl] at hd
    · rw [if_neg hmoved, ih]
      have hstays : ∀ {d}, u ∈ p.members d → renamed (max a' b') (min a' b') d = d := by
        intro d hud
        refine if_neg ?_
        rintro rfl
        exact hmoved hud
      constructor
      · exact fun hmem => ⟨a, hstays hmem, hmem⟩
      · rintro ⟨d, hd, hud⟩
        rw [← hd, hstays hud]
        exact hud
  | @forget p index forgotten h ih =>
    rw [mem_members_forget, Sorted.get?_filter fun u => !forgotten u]
    cases hforgotten : forgotten u <;> simp [ih]

/-- What the index says is what the search says. -/
theorem IndexedBy.get?_eq_slot? (h : p.IndexedBy index) (v : Value) : Sorted.get? v index = p.slot? v := by
  cases hs : p.slot? v with
  | some a => exact h.get?_eq_some_iff.mpr (mem_members_of_slot? hs)
  | none =>
    refine Option.eq_none_iff_forall_ne_some.mpr fun a ha => ?_
    exact slot?_eq_none_iff.mp hs a (h.get?_eq_some_iff.mp ha)

/-- A partition came about by changes along with which an index can be kept up. -/
def Indexed (p : Partition) : Prop := ∃ index, p.IndexedBy index

/-- A new atom is entered at its slot. -/
theorem Indexed.ensure (h : p.Indexed) (v : Value) : (p.ensure v).2.Indexed := by
  obtain ⟨index, hindex⟩ := h
  cases hs : p.slot? v with
  | some a =>
    rw [show p.ensure v = (a, p) by simp [Partition.ensure, hs]]
    exact ⟨index, hindex⟩
  | none => exact ⟨_, hindex.ensure ((hindex.get?_eq_slot? v).trans hs)⟩

end Partition

/-- Whichever way an equation ends, there is an index of the classes. -/
theorem EqualityOutcome.indexed {q p : Partition} {a b : Nat} {negated holds : Bool} {v w : Value}
    (h : EqualityOutcome q a b negated holds p) (hq : q.Indexed) (hv : v ∈ q.members a) (hw : w ∈ q.members b) :
    p.Indexed := by
  cases h with
  | same => exact hq
  | refuted => exact hq
  | apart => exact hq
  | separated hab =>
    obtain ⟨index, hindex⟩ := hq
    exact ⟨index, hindex.separate a b⟩
  -- the atoms of the slot that is emptied are entered at the one that is kept
  | merged hab =>
    obtain ⟨index, hindex⟩ := hq
    exact ⟨_, hindex.merge (hindex.get?_eq_some_iff.mpr hv) (hindex.get?_eq_some_iff.mpr hw) hab⟩

namespace Frame

variable {f : Frame}

/-- So an equation keeps classes indexed. -/
theorem indexed_applyEquality (hf : f.partition.Indexed) (left right : Value) (negated : Bool) :
    (f.applyEquality left right negated).frame.partition.Indexed := by
  by_cases hatoms : left.isAtom = true ∧ right.isAtom = true
  · have hslots : (f.ensureSlots left right).2.2.partition.Indexed := (hf.ensure left).ensure right
    have hslotted := slotted_ensureSlots f hatoms.1 hatoms.2
    exact (applyEquality_outcome f hatoms.1 hatoms.2 negated).indexed hslots hslotted.left_mem hslotted.right_mem
  · rw [applyEquality_of_not_isAtom hatoms]
    exact hf

theorem indexed_applyNotNull (hf : f.partition.Indexed) (v : Value) : (f.applyNotNull v).frame.partition.Indexed := by
  unfold applyNotNull
  split
  · exact indexed_applyEquality hf v .null true
  · exact hf

/-- A type test equates with `null`, if anything. -/
theorem indexed_applyInstanceOf (hf : f.partition.Indexed) (s : Scope) (negated : Bool) (left right : Value) :
    (f.applyInstanceOf s negated left right).frame.partition.Indexed := by
  unfold applyInstanceOf
  split
  · rename_i id t hid ht
    have hnoted : (f.addNotInstanceOf s left t).frame.partition.Indexed := by rwa [partition_addNotInstanceOf]
    have hequality := indexed_applyEquality hf left .null true
    simp only
    split
    · split
      · exact hnoted
      · exact indexed_applyEquality hnoted left .null false
    · split
      · rwa [partition_addInstanceOf]
      · exact hequality
  · exact hf

/-- An order leaves the classes as they are. -/
theorem indexed_applyRelation (hf : f.partition.Indexed) (s : Scope) (kind : RelationKind) (negated : Bool)
    (left right : Value) : (f.applyRelation s kind negated left right).frame.partition.Indexed := by
  cases kind with
  | eq => exact indexed_applyEquality hf left right negated
  | lt =>
    show (f.applyOrdering .lt negated left right).frame.partition.Indexed
    rwa [frame_applyOrdering]
  | gt =>
    show (f.applyOrdering .gt negated left right).frame.partition.Indexed
    rwa [frame_applyOrdering]
  | instanceOf => exact indexed_applyInstanceOf hf s negated left right

theorem indexed_flushVariable (hf : f.partition.Indexed) (id : VariableId) : (f.flushVariable id).partition.Indexed := by
  obtain ⟨index, hindex⟩ := hf
  exact ⟨_, hindex.forget _⟩

/-- An assignment flushes its target and equates it with a value, if anything. -/
theorem indexed_assign (hf : f.partition.Indexed) (s : Scope) (target value : Value) :
    (f.assign s target value).partition.Indexed := by
  unfold assign
  split
  · exact hf
  · rename_i id hid
    split
    · exact hf
    · have hflushed : (f.unbind id value).partition.Indexed := indexed_flushVariable hf id
      obtain ⟨g, hg, hpartition, -⟩ := adopt_cases (f.unbind id value) s target value
      show ((f.unbind id value).adopt s target value).partition.Indexed
      rw [hpartition]
      rcases hg with rfl | rfl | ⟨-, rfl⟩
      · exact hflushed
      · exact indexed_applyEquality hflushed _ _ _
      · exact indexed_applyEquality hflushed _ _ _

end Frame

end NullCheck
