import NullCheck.Proofs.State.Bindings
import NullCheck.Proofs.State.Index

/-!
# A variable that is flushed is forgotten, and nothing else

To flush a variable strikes out all forms of it, whatever they are part of: classes, pairs of classes, facts, bindings.
What is known of other variables stays as it was, in the slots where it was, even where it was learnt through the
variable that is gone. What is left does not depend on how often a variable was flushed, nor on the order in which
several were.

## The architecture

* **`Partition.forget_forget`**: to forget in two steps is to forget in one, so neither order nor repetition matters.
* **`Partition.same_forget`**, **`Partition.apart_forget`**: what is told of the atoms that are left.
* **`Frame.ForgetsJust`**: one frame is another one without all that it knows of a variable.
* **`Frame.flushVariable_forgets`**: the headline.
-/

namespace NullCheck

namespace Partition

variable {p : Partition} {v w : Value}

theorem members_forget (p : Partition) (forgotten : Value → Bool) (a : Nat) :
    (p.forget forgotten).members a = (p.members a).filter fun v => !forgotten v := by
  unfold forget members
  rw [List.getElem?_map]
  cases p.classes[a]? <;> rfl

theorem distinct_forget (p : Partition) (forgotten : Value → Bool) :
    (p.forget forgotten).distinct = p.distinct.filter fun d =>
      !((p.forget forgotten).members d.low).isEmpty && !((p.forget forgotten).members d.high).isEmpty := rfl

/-- **What is forgotten in two steps might as well be forgotten in one.** -/
theorem forget_forget (p : Partition) (first second : Value → Bool) :
    (p.forget first).forget second = p.forget fun v => first v || second v := by
  have hfilter : ∀ c : List Value, (c.filter fun v => !first v).filter (fun v => !second v) =
      c.filter fun v => !(first v || second v) := by
    intro c
    rw [List.filter_filter]
    exact List.filter_congr fun v _ => by rw [Bool.not_or, Bool.and_comm]
  have hclasses : ((p.forget first).forget second).classes = (p.forget fun v => first v || second v).classes := by
    show ((p.classes.map fun c => c.filter fun v => !first v).map fun c => c.filter fun v => !second v) =
      p.classes.map fun c => c.filter fun v => !(first v || second v)
    rw [List.map_map]
    exact List.map_congr_left fun c _ => hfilter c
  have hmembers : ∀ a, ((p.forget first).forget second).members a =
      (p.forget fun v => first v || second v).members a := by
    intro a
    unfold members
    rw [hclasses]
  -- a slot that holds something in the end held it in between
  have hnonempty : ∀ a, !((p.forget fun v => first v || second v).members a).isEmpty →
      !((p.forget first).members a).isEmpty := by
    intro a ha
    rw [← hmembers, members_forget] at ha
    simp only [Bool.not_eq_true', List.isEmpty_eq_false_iff_exists_mem] at ha ⊢
    obtain ⟨v, hv⟩ := ha
    exact ⟨v, List.mem_of_mem_filter hv⟩
  have hdistinct : ((p.forget first).forget second).distinct = (p.forget fun v => first v || second v).distinct := by
    rw [distinct_forget (p.forget first), distinct_forget p first, List.filter_filter, distinct_forget p]
    refine List.filter_congr fun d _ => ?_
    rw [hmembers, hmembers, Bool.eq_iff_iff]
    simp only [Bool.and_eq_true]
    exact ⟨And.left, fun h => ⟨h, hnonempty _ h.1, hnonempty _ h.2⟩⟩
  exact (Partition.mk.injEq ..).mpr ⟨hclasses, hdistinct⟩

/-- Two atoms share a class afterwards iff they did and neither was forgotten. -/
theorem same_forget (p : Partition) (forgotten : Value → Bool) (v w : Value) :
    (p.forget forgotten).Same v w ↔ p.Same v w ∧ forgotten v = false ∧ forgotten w = false := by
  constructor
  · rintro ⟨a, hv, hw⟩
    obtain ⟨hva, hv'⟩ := mem_members_forget.mp hv
    obtain ⟨hwa, hw'⟩ := mem_members_forget.mp hw
    exact ⟨⟨a, hva, hwa⟩, hv', hw'⟩
  · rintro ⟨hsame, hv, hw⟩
    exact hsame.forget hv hw

/-- Two atoms are told apart afterwards iff they were and neither was forgotten. -/
theorem apart_forget (p : Partition) (forgotten : Value → Bool) (v w : Value) :
    (p.forget forgotten).Apart v w ↔ p.Apart v w ∧ forgotten v = false ∧ forgotten w = false := by
  constructor
  · rintro ⟨a, b, hv, hw, hd⟩
    obtain ⟨hva, hv'⟩ := mem_members_forget.mp hv
    obtain ⟨hwb, hw'⟩ := mem_members_forget.mp hw
    have hnoted : SlotPair.of a b ∈ p.distinct := (mem_distinct_forget.mp (of_decide_eq_true hd)).1
    exact ⟨⟨a, b, hva, hwb, decide_eq_true hnoted⟩, hv', hw'⟩
  · rintro ⟨hapart, hv, hw⟩
    exact hapart.forget hv hw

end Partition

namespace Frame

variable {f : Frame} {s : Scope} {x y : VariableId}

/-- The frame without all that is known of some variables. -/
theorem flushVariable_flushVariable (f : Frame) (x y : VariableId) :
    (f.flushVariable x).flushVariable y =
      { f with
        partition := f.partition.forget fun v => decide (v.base? = some x) || decide (v.base? = some y)
        facts := f.facts.filter fun e => !(decide (e.1.base? = some x) || decide (e.1.base? = some y))
        bindings := f.bindings.filter fun e => decide (e.1 ≠ x) && decide (e.1 ≠ y) } := by
  unfold flushVariable
  simp only [Partition.forget_forget, List.filter_filter, Bool.not_or, Bool.and_comm]

/-- Two variables can be forgotten in either order. -/
theorem flushVariable_comm (f : Frame) (x y : VariableId) :
    (f.flushVariable x).flushVariable y = (f.flushVariable y).flushVariable x := by
  rw [flushVariable_flushVariable, flushVariable_flushVariable]
  simp only [Bool.or_comm, Bool.and_comm]

/-- A variable can be forgotten only once. -/
theorem flushVariable_self (f : Frame) (x : VariableId) :
    (f.flushVariable x).flushVariable x = f.flushVariable x := by
  rw [flushVariable_flushVariable]
  simp only [Bool.or_self, Bool.and_self]
  rfl

/-- So the order of the fields does not matter. -/
theorem foldl_flushVariable_perm {fields fields' : List VariableId} (h : fields.Perm fields') (f : Frame) :
    fields.foldl flushVariable f = fields'.foldl flushVariable f :=
  h.foldl_eq' (fun x _ y _ g => flushVariable_comm g x y) f

theorem mem_members_flushVariable (f : Frame) (x : VariableId) {a : Nat} {v : Value} :
    v ∈ (f.flushVariable x).partition.members a ↔ v ∈ f.partition.members a ∧ v.base? ≠ some x :=
  Partition.mem_members_forget.trans (and_congr_right' decide_eq_false_iff_not)

/-- `g` knows what `f` knows, but for the forms of a variable. Of those it knows nothing, and of the pairs of slots it
keeps those in which either slot still holds something. -/
structure ForgetsJust (f g : Frame) (x : VariableId) : Prop where
  members : ∀ a v, v ∈ g.partition.members a ↔ v ∈ f.partition.members a ∧ v.base? ≠ some x
  distinct : ∀ d, d ∈ g.partition.distinct ↔
    d ∈ f.partition.distinct ∧ (∃ v, v ∈ g.partition.members d.low) ∧ ∃ v, v ∈ g.partition.members d.high
  same : ∀ v w, g.partition.Same v w ↔ f.partition.Same v w ∧ v.base? ≠ some x ∧ w.base? ≠ some x
  apart : ∀ v w, g.partition.Apart v w ↔ f.partition.Apart v w ∧ v.base? ≠ some x ∧ w.base? ≠ some x
  index : ∀ before after, f.partition.IndexedBy before → g.partition.IndexedBy after → ∀ v,
    Sorted.get? v after = if v.base? = some x then none else Sorted.get? v before
  facts : ∀ v, Sorted.get? v g.facts = if v.base? = some x then none else Sorted.get? v f.facts
  binding : ∀ y, g.binding? y = if y = x then none else f.binding? y
  stack : g.stack = f.stack
  fieldReferenced : g.fieldReferenced = f.fieldReferenced

/-- A flush forgets the forms of a variable and nothing else, part by part of the frame. -/
theorem forgetsJust_flushVariable (f : Frame) (x : VariableId) : f.ForgetsJust (f.flushVariable x) x where
  members _ _ := mem_members_flushVariable f x
  distinct _ := Partition.mem_distinct_forget
  same v w := (Partition.same_forget _ _ v w).trans
    (and_congr_right' (and_congr decide_eq_false_iff_not decide_eq_false_iff_not))
  apart v w := (Partition.apart_forget _ _ v w).trans
    (and_congr_right' (and_congr decide_eq_false_iff_not decide_eq_false_iff_not))
  index before after hbefore hafter v := by
    refine Option.ext fun a => ?_
    rw [hafter.get?_eq_some_iff, mem_members_flushVariable, ← hbefore.get?_eq_some_iff]
    by_cases hv : v.base? = some x <;> simp [hv]
  facts := get?_facts_flushVariable f x
  binding := binding?_flushVariable f x
  stack := rfl
  fieldReferenced := rfl

/-- **To flush a variable forgets that variable and nothing else.** Of its forms nothing is left, and what is known of
all others stays as it was. To flush it again changes nothing, variables may be flushed in either order, and so the
fields may be flushed in any. -/
theorem flushVariable_forgets (f : Frame) (s : Scope) (x : VariableId) :
    f.ForgetsJust (f.flushVariable x) x ∧ (f.flushVariable x).flushVariable x = f.flushVariable x ∧
      (∀ y, (f.flushVariable x).flushVariable y = (f.flushVariable y).flushVariable x) ∧
      ∀ fields : List VariableId, fields.Perm s.fieldVariables → fields.foldl flushVariable f = f.flushFields s :=
  ⟨forgetsJust_flushVariable f x, flushVariable_self f x, flushVariable_comm f x,
    fun _ hfields => foldl_flushVariable_perm hfields f⟩

/-- A field was assigned the boxed form of another one, and a local variable the field: with the other one goes its
boxed form, and the two that were equal through it stay equal. -/
theorem flushVariable_forgets_of_boxedField :
    let s : Scope := ⟨[⟨"x", .primitive .int, .field, false, []⟩, ⟨"y", .object, .field, false, []⟩,
      ⟨"z", .object, .local, false, []⟩], .empty⟩
    let x := Value.var 0 false
    let y := Value.var 1 false
    let z := Value.var 2 false
    let f := (Frame.empty.assign s y (.boxed x)).assign s z y
    [1, 0].Perm s.fieldVariables ∧ [1, 0].foldl flushVariable f = f.flushFields s ∧ f.partition.Same y (.boxed x) ∧
      ¬(f.flushVariable 0).partition.Same y (.boxed x) ∧ (f.flushVariable 0).partition.Same y z := by
  intro s x y z f
  have hfields : [1, 0].Perm s.fieldVariables := by decide
  obtain ⟨hforgets, -, -, hperm⟩ := flushVariable_forgets f s 0
  -- `y` was equated with the boxed field, and then `z` with `y`
  have hknown : f.partition.Same y (.boxed x) := ⟨0, by decide, by decide⟩
  have hequal : f.partition.Same y z := ⟨0, by decide, by decide⟩
  refine ⟨hfields, hperm _ hfields, hknown, fun hsame => ?_, (hforgets.same y z).mpr ⟨hequal, by decide, by decide⟩⟩
  exact ((hforgets.same y (.boxed x)).mp hsame).2.2 rfl

end Frame

end NullCheck
