import NullCheck.Proofs.State.Equality
import NullCheck.Proofs.State.Stack
import NullCheck.Proofs.Survey

/-!
# Nullable marks behind equalities

Of all that is noted of values beside equalities, an equality changes nothing but nullable marks: it takes them from
values that are known not to be null then. Everything later that has to do with facts behind an equality is read off
`takesMarks_applyEquality`. To flush a variable drops the facts of its forms (`get?_facts_flushVariable`).
-/

namespace NullCheck

/-! ## Marks that are taken -/

/-- Facts by value, without the nullable marks of the values in `taken`. -/
def unmark (taken : Value → Bool) (facts : List (Value × Facts)) : List (Value × Facts) :=
  facts.map fun e => (e.1, if taken e.1 then { e.2 with nullable := false } else e.2)

theorem unmark_false (facts : List (Value × Facts)) : unmark (fun _ => false) facts = facts := List.map_id' facts

theorem unmark_unmark (taken taken' : Value → Bool) (facts : List (Value × Facts)) :
    unmark taken' (unmark taken facts) = unmark (fun v => taken v || taken' v) facts := by
  unfold unmark
  rw [List.map_map]
  refine List.map_congr_left fun e _ => ?_
  cases h : taken e.1 <;> cases h' : taken' e.1 <;> simp [h, h']

theorem keys_unmark (taken : Value → Bool) (facts : List (Value × Facts)) :
    Sorted.keys (unmark taken facts) = Sorted.keys facts := by
  unfold Sorted.keys unmark
  rw [List.map_map]
  rfl

/-- Facts lose their mark, if it is taken, and nothing else. -/
theorem get?_unmark (taken : Value → Bool) (facts : List (Value × Facts)) (v : Value) :
    Sorted.get? v (unmark taken facts) =
      (Sorted.get? v facts).map fun a => if taken v then { a with nullable := false } else a := by
  induction facts with
  | nil => rfl
  | cons e facts ih =>
    show Sorted.get? v (_ :: unmark taken facts) = _
    rw [Sorted.get?, Sorted.get?]
    by_cases hv : e.1 = v
    · rw [if_pos hv, if_pos hv, ← hv]
      rfl
    · rw [if_neg hv, if_neg hv]
      exact ih

namespace Frame

variable {f g h : Frame}

/-- The facts of `g` are those of `f`, without the nullable marks of some values that `g` knows not to be null. -/
def TakesMarks (f g : Frame) : Prop :=
  ∃ taken, g.facts = unmark taken f.facts ∧
    ∀ v, taken v = true → ∃ slot, v ∈ g.partition.members slot ∧ g.partition.isNotNull slot = true

theorem TakesMarks.of_facts_eq (hfacts : g.facts = f.facts) : f.TakesMarks g :=
  ⟨fun _ => false, by rw [hfacts, unmark_false], fun _ hv => by cases hv⟩

/-- Marks are taken step by step, as long as classes stay the same in the later step. -/
theorem TakesMarks.trans (hfg : f.TakesMarks g) (hgh : g.TakesMarks h) (hpartition : h.partition = g.partition) :
    f.TakesMarks h := by
  obtain ⟨taken, hfacts, htaken⟩ := hfg
  obtain ⟨taken', hfacts', htaken'⟩ := hgh
  refine ⟨fun v => taken v || taken' v, by rw [hfacts', hfacts, unmark_unmark], fun v hv => ?_⟩
  rcases Bool.or_eq_true_iff.mp hv with hv | hv
  · rw [hpartition]
    exact htaken v hv
  · exact htaken' v hv

/-- A class that is not null loses its marks. -/
theorem takesMarks_refreshNullableMarks (f : Frame) (slot : Nat) : f.TakesMarks (f.refreshNullableMarks slot) := by
  unfold refreshNullableMarks
  split
  · rename_i hnotNull
    refine ⟨fun v => v ∈ f.partition.members slot, ?_, fun v hv => ⟨slot, of_decide_eq_true hv, hnotNull⟩⟩
    refine List.map_congr_left fun e _ => ?_
    by_cases he : e.1 ∈ f.partition.members slot
    · simp only [he, decide_true, if_true]
    · simp only [he, decide_false, if_false, Bool.false_eq_true]
  · exact .of_facts_eq rfl

/-- Telling classes apart may show that either of them is not null. -/
theorem takesMarks_separate (f : Frame) (a b : Nat) : f.TakesMarks (f.separate a b) := by
  have hmarks : ∀ g : Frame, g.TakesMarks ((g.refreshNullableMarks a).refreshNullableMarks b) := fun g =>
    (takesMarks_refreshNullableMarks g a).trans (takesMarks_refreshNullableMarks _ b) (partition_refreshNullableMarks _ b)
  unfold separate
  simp only
  split
  · exact hmarks f
  · exact hmarks { f with partition := f.partition.separate a b }

/-- A merge may show that the joined class is not null. -/
theorem takesMarks_unite (f : Frame) (a b : Nat) : f.TakesMarks (f.unite a b) := by
  unfold unite
  exact takesMarks_refreshNullableMarks { f with partition := (f.partition.merge a b).2 } _

/-- **An equality takes marks from what is known not to be null then,** and changes no other facts. -/
theorem takesMarks_applyEquality (f : Frame) (left right : Value) (negated : Bool) :
    f.TakesMarks (f.applyEquality left right negated).frame := by
  have hslots : ∀ {g : Frame}, (f.ensureSlots left right).2.2.TakesMarks g → f.TakesMarks g := fun h => h
  obtain h | h | h | h := applyEquality_frame_cases f left right negated
  · rw [h]
    exact .of_facts_eq rfl
  · rw [h]
    exact .of_facts_eq rfl
  · rw [h]
    exact hslots (takesMarks_separate _ _ _)
  · rw [h]
    exact hslots (takesMarks_unite _ _ _)

/-! ## Facts that are flushed -/

/-- A flush drops what was noted of the forms of a variable. -/
theorem get?_facts_flushVariable (f : Frame) (x : VariableId) (v : Value) :
    Sorted.get? v (f.flushVariable x).facts = if v.base? = some x then none else Sorted.get? v f.facts := by
  have hkept := Sorted.get?_filter (fun u : Value => !decide (u.base? = some x)) v f.facts
  show Sorted.get? v (f.facts.filter fun e => !decide (e.1.base? = some x)) = _
  rw [hkept]
  by_cases hv : v.base? = some x <;> simp [hv]

end Frame

end NullCheck
