import NullCheck.Proofs.Convergence
import NullCheck.Proofs.State.Index
import NullCheck.Proofs.State.Opposites

/-!
# Consistent frames

A frame names its values and its classes by number: the values by their place in the table of all values that have come
up so far, the classes by the slots in which they sit. A frame is consistent with the table if all these numbers name
something, and if its classes, and the pairs of them that differ, do not contradict each other.

Consistency is no invariant by itself, as an operation may well bring up a value that is not in the table. What the
operations keep is that a frame is over the vocabulary of the table and that its partition can be indexed
(`Frame.Sound`); that the frame is consistent then follows.

* **`ValueTable.Numbers`**, **`ValueTable.Closed`**: the values that a table names, and the parts of which they are made.
* **`Frame.Consistent`**: all that is demanded of a frame, one field for each demand.
* **`Frame.Becomes`**: what becomes of a frame by operations on values of a kind, those in vain among them.
* **`Frame.Sound.consistent`**, **`Frame.Sound.of_becomes`**: all that becomes of a sound frame is consistent.
-/

namespace NullCheck

/-! ## Tables of values -/

/-- The values that a value is made of. -/
def Value.parts : Value → List Value
  | .relation _ _ left right => [left, right]
  | .boxed v | .unboxed v => [v]
  | _ => []

namespace ValueTable

variable {t : ValueTable} {v w : Value}

/-- A table has a number for a value, and the value under that number. -/
def Numbers (t : ValueTable) (v : Value) : Prop := ∃ n < t.size, t.number? v = some n ∧ t.values[n]? = some v

/-- A table numbers the values that it holds. -/
theorem numbers_iff : t.Numbers v ↔ v ∈ t.values := by
  constructor
  · rintro ⟨n, -, -, hn⟩
    exact Array.mem_of_getElem? hn
  · intro hv
    obtain ⟨n, hn⟩ : ∃ n, t.values.finIdxOf? v = some n :=
      Option.ne_none_iff_exists'.mp fun hnone => Array.finIdxOf?_eq_none_iff.mp hnone hv
    have hvalue : t.values[n] = v := (Array.finIdxOf?_eq_some_iff.mp hn).1
    refine ⟨n, n.isLt, congrArg (Option.map Fin.val) hn, ?_⟩
    rw [Array.getElem?_eq_getElem n.isLt]
    exact congrArg some hvalue

/-- A table has the values that every table begins with, and of each value that it has the parts. -/
structure Closed (t : ValueTable) : Prop where
  initial : ∀ v, ValueTable.initial.Numbers v → t.Numbers v
  parts : ∀ v, t.Numbers v → ∀ w ∈ v.parts, t.Numbers w

def vocabulary (t : ValueTable) : Set Value := {v | t.Numbers v}

theorem finite_vocabulary (t : ValueTable) : t.vocabulary.Finite := by
  refine (List.finite_toSet t.values.toList).subset fun v hv => ?_
  exact Array.mem_toList_iff.mpr (numbers_iff.mp hv)

theorem mem_initial : v ∈ initial.values ↔ v = .unknown ∨ v = .null ∨ v = .boolean true ∨ v = .boolean false := by
  simp [initial]

theorem Closed.unknown (h : t.Closed) : t.Numbers .unknown :=
  h.initial _ (numbers_iff.mpr (mem_initial.mpr (Or.inl rfl)))

theorem Closed.null (h : t.Closed) : t.Numbers .null :=
  h.initial _ (numbers_iff.mpr (mem_initial.mpr (Or.inr (Or.inl rfl))))

theorem Closed.boolean (h : t.Closed) (b : Bool) : t.Numbers (.boolean b) := by
  refine h.initial _ (numbers_iff.mpr (mem_initial.mpr ?_))
  cases b <;> simp

end ValueTable

/-! ## Consistency -/

namespace Frame

variable {s : Scope} {t : ValueTable} {f g : Frame}

/-- The values in which a frame tells what it tells. -/
def values (f : Frame) : List Value :=
  f.stack ++ f.partition.classes.flatten ++ Sorted.keys f.facts ++ f.bindings.map Prod.snd

structure Consistent (t : ValueTable) (f : Frame) : Prop where
  /-- All values that the frame names are in the table. -/
  numbered : ∀ v ∈ f.values, t.Numbers v
  /-- An index that is kept up along with the classes notes of each value the class that it is a member of. -/
  indexed : ∃ index, f.partition.IndexedBy index ∧
    ∀ v a, Sorted.get? v index = some a ↔ v ∈ f.partition.members a
  found : ∀ v a, f.partition.slot? v = some a ↔ v ∈ f.partition.members a
  inRange : ∀ v a, f.partition.slot? v = some a → a < f.partition.classes.length
  disjoint : ∀ a b, ∀ v ∈ f.partition.members a, v ∈ f.partition.members b → a = b
  atoms : ∀ a, ∀ v ∈ f.partition.members a, v.isAtom = true
  /-- Classes that differ are there. -/
  distinct : ∀ d ∈ f.partition.distinct, d.low < d.high ∧ d.high < f.partition.classes.length ∧
    f.partition.members d.low ≠ [] ∧ f.partition.members d.high ≠ []
  constants : ∀ a, ∀ v ∈ f.partition.members a, ∀ w ∈ f.partition.members a,
    v.isConstant = true → w.isConstant = true → v = w
  boxed : ∀ a, .null ∈ f.partition.members a → ∀ v ∈ f.partition.members a, v.isBoxed = false
  /-- The slot in which a new class is put differs from none. -/
  reused : ∀ v, f.partition.slot? v = none → ∀ d ∈ (f.partition.ensure v).2.distinct,
    d.low ≠ (f.partition.ensure v).1 ∧ d.high ≠ (f.partition.ensure v).1
  /-- The equality of a variable with the atom that it is assigned holds, and is what the assignment comes to. -/
  assigned : ∀ id viaMethods v, v.isAtom = true → v ≠ .var id viaMethods →
    ((f.unbind id v).applyEquality (.var id viaMethods) v false).holds = true ∧
    ∀ s, f.assign s (.var id viaMethods) v = ((f.unbind id v).applyEquality (.var id viaMethods) v false).frame
  nullness : ∀ v, ¬(f.isNull v = true ∧ f.isNotNull v = true)

/-- A frame is over the vocabulary of a table, and its partition can be indexed. -/
structure Sound (s : Scope) (t : ValueTable) (f : Frame) : Prop where
  overVocabulary : f.Over s t.vocabulary
  indexed : f.partition.Indexed

/-- All that a frame mentions is over the set. -/
theorem Over.values_mem {U : Set Value} (h : f.Over s U) : ∀ v ∈ f.values, v ∈ U := by
  intro v hv
  simp only [values, List.mem_append, List.mem_flatten, List.mem_map, Sorted.keys] at hv
  rcases hv with ((hstack | ⟨members, hmembers, hmem⟩) | ⟨e, he, rfl⟩) | ⟨e, he, rfl⟩
  · exact h.stack v hstack
  · obtain ⟨a, ha⟩ := List.getElem?_of_mem hmembers
    exact h.partition.values (Partition.members_of_getElem? ha ▸ hmem)
  · exact (h.facts.mem e he).1
  · exact (h.bindings.mem e he).2

/-- In well-formed classes nothing is both null and not null. -/
theorem not_isNull_and_isNotNull (hf : f.partition.WellFormed) (v : Value) :
    ¬(f.isNull v = true ∧ f.isNotNull v = true) := by
  rintro ⟨hnull, hnotNull⟩
  have hatom : v.isAtom = true := hf.isAtom_of_alike ((isNull_eq_true_iff hf).mp hnull) rfl
  rw [not_isNull_of_isNotNull hf hatom hnotNull] at hnull
  cases hnull

/-- **A sound frame is consistent.** -/
theorem Sound.consistent (h : f.Sound s t) : f.Consistent t := by
  have hf : f.partition.WellFormed := h.overVocabulary.partition.wellFormed
  obtain ⟨index, hindex⟩ := h.indexed
  refine
    { numbered := h.overVocabulary.values_mem
      indexed := ⟨index, hindex, fun v a => hindex.get?_eq_some_iff⟩
      found := fun v a => hf.slot?_eq_some_iff
      inRange := fun v a ha => Partition.lt_length_of_mem_members (Partition.mem_members_of_slot? ha)
      disjoint := fun a b v ha hb => hf.disjoint ha hb
      atoms := fun a v hv => hf.atom hv
      distinct := fun d hd => ?_
      constants := fun a v hv w hw => hf.constant hv hw
      boxed := fun a hnull v hv => hf.boxed hnull hv
      reused := fun v hv d hd => ?_
      assigned := fun id viaMethods v hv hne => ?_
      nullness := not_isNull_and_isNotNull hf }
  · obtain ⟨⟨v, hv⟩, ⟨w, hw⟩⟩ := hf.inhabited hd
    exact ⟨hf.ordered hd, Partition.lt_length_of_mem_members hw, List.ne_nil_of_mem hv, List.ne_nil_of_mem hw⟩
  · -- the slot was empty, and nothing that is empty differs
    rw [Partition.distinct_ensure] at hd
    obtain ⟨⟨u, hu⟩, ⟨w, hw⟩⟩ := hf.inhabited hd
    have hempty : f.partition.members (f.partition.ensure v).1 = [] := Partition.members_ensure_fst hv
    refine ⟨fun hlow => ?_, fun hhigh => ?_⟩
    · exact List.ne_nil_of_mem hu (hlow ▸ hempty)
    · exact List.ne_nil_of_mem hw (hhigh ▸ hempty)
  · have hunbound : (f.unbind id v).partition.WellFormed := unbind_wellFormed hf id v
    refine ⟨holds_of_forgotten hunbound base?_ne_of_mem_unbind viaMethods hv, fun s => ?_⟩
    rw [assign_eq_adopt f s hne, adopt_of_isAtom _ s _ hv]

/-! ## What becomes of a frame -/

/-- What becomes of a frame by operations that work on values of a kind. What was applied in vain counts too. -/
inductive Becomes (s : Scope) (U : Value → Prop) (f : Frame) : Frame → Prop
  | refl : Becomes s U f f
  | push {g : Frame} {v : Value} (h : Becomes s U f g) (hv : U v) : Becomes s U f (g.push v)
  | pop {g : Frame} (h : Becomes s U f g) : Becomes s U f g.pop.2
  | referenceField {g : Frame} (h : Becomes s U f g) : Becomes s U f g.withFieldReferenced
  | assign {g : Frame} {target value : Value} (h : Becomes s U f g) (ht : U target) (hv : U value) :
      Becomes s U f (g.assign s target value)
  | flushVariable {g : Frame} (id : VariableId) (h : Becomes s U f g) : Becomes s U f (g.flushVariable id)
  | applyCondition {g : Frame} {condition : Value} (h : Becomes s U f g) (hparts : ∀ v ∈ condition.parts, U v) :
      Becomes s U f (g.applyCondition s condition).frame
  | applyNotNull {g : Frame} {v : Value} (h : Becomes s U f g) (hv : U v) : Becomes s U f (g.applyNotNull v).frame
  | applyCast {g : Frame} {condition : Value} (h : Becomes s U f g) (hparts : ∀ v ∈ condition.parts, U v) :
      Becomes s U f (g.applyCast s condition).frame

section Becomes

variable {U : Value → Prop} {I : Frame → Prop}

theorem parts_relation {kind : RelationKind} {negated : Bool} {left right : Value} (hl : U left) (hr : U right) :
    ∀ v ∈ (Value.relation kind negated left right).parts, U v := by
  simp only [Value.parts, List.forall_mem_cons]
  exact ⟨hl, hr, by simp⟩

/-- The induction is on what is done to a frame; an invariant is kept by each operation. -/
theorem Invariant.of_becomes (hI : Frame.Invariant s U (fun _ => True) I) (hf : I f) (h : f.Becomes s U g) : I g := by
  induction h with
  | refl => exact hf
  | push _ hv ih => exact hI.push ih hv
  | pop _ ih => exact (hI.pop ih).2
  | referenceField _ ih => exact hI.referenceField ih
  | assign _ ht hv ih => exact hI.assign ih ht hv fun _ _ => trivial
  | flushVariable id _ ih => exact hI.flushVariable ih trivial
  | @applyCondition g condition _ hparts ih =>
    -- nothing but a relation changes anything
    cases condition with
    | relation kind negated left right =>
      exact hI.applyRelation ih (hparts left (by simp [Value.parts])) (hparts right (by simp [Value.parts]))
    | constant k => cases k <;> exact ih
    | _ => exact ih
  | applyNotNull _ hv ih => exact hI.applyNotNull ih hv
  | @applyCast g condition _ hparts ih =>
    cases condition with
    | relation kind negated left right =>
      exact hI.applyCast ih (hparts left (by simp [Value.parts])) (hparts right (by simp [Value.parts]))
    | _ => exact ih

/-- To be what becomes of a frame is itself kept, along with whatever else is. -/
theorem Invariant.becomes (hI : Frame.Invariant s U (fun _ => True) I) (f : Frame) :
    Frame.Invariant s U (fun _ => True) fun g => f.Becomes s U g ∧ I g where
  push h hv := ⟨h.1.push hv, hI.push h.2 hv⟩
  pop h := ⟨(hI.pop h.2).1, h.1.pop, (hI.pop h.2).2⟩
  referenceField h := ⟨h.1.referenceField, hI.referenceField h.2⟩
  assign h ht hv hid := ⟨h.1.assign ht hv, hI.assign h.2 ht hv hid⟩
  flushVariable h hid := ⟨h.1.flushVariable _, hI.flushVariable h.2 hid⟩
  applyRelation {_ kind negated left right} h hl hr :=
    ⟨h.1.applyCondition (parts_relation hl hr : ∀ v ∈ (Value.relation kind negated left right).parts, U v),
      hI.applyRelation h.2 hl hr⟩
  applyNotNull h hv := ⟨h.1.applyNotNull hv, hI.applyNotNull h.2 hv⟩
  applyCast h hl hr := ⟨h.1.applyCast (parts_relation hl hr), hI.applyCast h.2 hl hr⟩

end Becomes

/-! ## Sound frames -/

namespace Sound

theorem empty (s : Scope) (t : ValueTable) : Frame.empty.Sound s t := ⟨.empty s _, [], .empty⟩

/-- A table only grows, so frames stay sound. -/
theorem mono (h : f.Sound s t) {t' : ValueTable} (hgrows : ∀ v, t.Numbers v → t'.Numbers v) : f.Sound s t' where
  overVocabulary := h.overVocabulary.mono hgrows t'.finite_vocabulary
  indexed := h.indexed

variable (s) in
/-- **Operations on values of a closed table keep frames sound.** -/
theorem invariant (ht : t.Closed) : Frame.Invariant s t.Numbers (fun _ => True) (Frame.Sound s t) :=
  have hover := Frame.over_invariant s t.finite_vocabulary ht.unknown ht.null
  { push := fun h hv => ⟨hover.push h.overVocabulary hv, h.indexed⟩
    pop := fun h => ⟨(hover.pop h.overVocabulary).1, (hover.pop h.overVocabulary).2, h.indexed⟩
    referenceField := fun h => ⟨hover.referenceField h.overVocabulary, h.indexed⟩
    assign := fun h htarget hv hid => ⟨hover.assign h.overVocabulary htarget hv hid, indexed_assign h.indexed s _ _⟩
    flushVariable := fun h hid => ⟨hover.flushVariable h.overVocabulary hid, indexed_flushVariable h.indexed _⟩
    applyRelation := fun h hl hr => ⟨hover.applyRelation h.overVocabulary hl hr, indexed_applyRelation h.indexed s _ _ _ _⟩
    applyNotNull := fun h hv => ⟨hover.applyNotNull h.overVocabulary hv, indexed_applyNotNull h.indexed _⟩
    applyCast := fun h hl hr => ⟨hover.applyCast h.overVocabulary hl hr, by
      rw [partition_applyCast]
      exact h.indexed⟩ }

/-- **All that becomes of a sound frame is consistent.** -/
theorem consistent_of_becomes (h : f.Sound s t) (ht : t.Closed) (hg : f.Becomes s t.Numbers g) : g.Consistent t :=
  ((invariant s ht).of_becomes h hg).consistent

end Sound

end Frame

end NullCheck
