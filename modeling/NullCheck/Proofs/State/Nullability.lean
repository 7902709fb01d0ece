import NullCheck.Proofs.State.Opposites
import NullCheck.Proofs.State.Persistence

/-!
# What is known to be nullable stays so

A variable may not be used where null is not expected if it is known to be null, or if it is marked as nullable,
itself or as an equal one, and nothing shows that it is not null. An assignment to another variable, and a flush of
another variable, leave that as it is, with one exception: a mark is noted of the variable that was said to be
nullable, and goes with it, even if a variable that was assigned from it is equal to it and lives on.

## The architecture

* **`Frame.RestsOnMark`**: the exception.
* **`Frame.checkNotNullable_eq_false_iff`**: how it may be that a variable may not be used.
* **`Valuation.rebase`**: a variable that was forgotten may have any value, so an assignment to it shows nothing of
  others.
* **`Frame.NullableBeside`**: that a variable may not be used shows in something else than the marks of another one;
  it is kept by a flush and by an assignment.
* **`Frame.nullability_survives`**: the headline.
* **`Frame.nullability_not_surviving`**: the exception arises.
-/

namespace NullCheck

/-! ## Other values for a variable -/

namespace Valuation

variable {V : Type*} {σ : Valuation V} {p : Partition}

/-- The valuation in which the boxed forms of a variable have the value `e`, and its other forms have the value `d`. -/
def rebase (σ : Valuation V) (id : VariableId) (d : V) {e : V} (he : e ≠ σ .null) : Valuation V where
  value u := if u.base? = some id then (if u.isBoxed then e else d) else σ u
  constant_inj heq := σ.constant_inj heq
  boxed_ne_null u := by
    show (if _ then (if _ then e else d) else σ (.boxed u)) ≠ σ .null
    split
    · exact he
    · exact σ.boxed_ne_null u

variable {id : VariableId} {d e : V} {he : e ≠ σ .null}

theorem rebase_of_ne {u : Value} (hu : u.base? ≠ some id) : σ.rebase id d he u = σ u := if_neg hu

theorem rebase_var (viaMethods : Bool) : σ.rebase id d he (.var id viaMethods) = d := if_pos rfl

/-- Classes in which nothing is based on the variable fit as before. -/
theorem satisfies_rebase (hσ : σ.Satisfies p) (hp : ∀ {a u}, u ∈ p.members a → u.base? ≠ some id) :
    (σ.rebase id d he).Satisfies p where
  equal hv hw := by
    rw [rebase_of_ne (hp hv), rebase_of_ne (hp hw)]
    exact hσ.equal hv hw
  differ hd hv hw := by
    rw [rebase_of_ne (hp hv), rebase_of_ne (hp hw)]
    exact hσ.differ hd hv hw

/-- Some valuation gives a variable the value of an atom, and its other forms a value that is not null. The atom keeps
its value unless it is a form of the variable itself. -/
theorem exists_rebase_eq (σ : Valuation V) {e : V} (he : e ≠ σ .null) (id : VariableId) (viaMethods : Bool) (v : Value) :
    ∃ d, σ.rebase id d he (.var id viaMethods) = σ.rebase id d he v ∧ (d = e ∨ v.base? ≠ some id ∧ d = σ v) := by
  by_cases hv : v.base? = some id
  · refine ⟨e, (rebase_var viaMethods).trans ?_, Or.inl rfl⟩
    show e = if v.base? = some id then (if v.isBoxed then e else e) else σ v
    rw [if_pos hv, ite_self]
  · exact ⟨σ v, (rebase_var viaMethods).trans (rebase_of_ne hv).symm, Or.inr ⟨hv, rfl⟩⟩

end Valuation

/-! ## Marks -/

namespace Frame

variable {f g : Frame} {s : Scope} {x y : VariableId} {m n : Bool} {v w : Value}

theorem hasNullableMark_withFacts (hw : w ≠ v) (a : Facts) :
    (f.withFacts v a).hasNullableMark w = f.hasNullableMark w := by
  show (Sorted.get? w (Sorted.put v a f.facts)).any _ = _
  rw [Sorted.get?_put_of_ne hw.symm]
  rfl

/-- The declared type of a value is no mark. -/
theorem nullable_factsOf (f : Frame) (s : Scope) (v : Value) : (f.factsOf s v).nullable = f.hasNullableMark v := by
  unfold factsOf hasNullableMark
  cases Sorted.get? v f.facts <;> rfl

/-- To note a type of a value marks nothing. -/
theorem hasNullableMark_recordType (t : JvmType) : (f.recordType s v t).hasNullableMark w = f.hasNullableMark w := by
  unfold recordType
  split
  · by_cases hw : w = v
    · subst hw
      unfold hasNullableMark withFacts
      rw [Sorted.get?_put_self]
      exact nullable_factsOf f s w
    · exact hasNullableMark_withFacts hw _
  · rfl

/-- A flush takes the marks of what it forgets, and no others. -/
theorem hasNullableMark_flushVariable (f : Frame) (id : VariableId) (w : Value) :
    (f.flushVariable id).hasNullableMark w = (decide (w.base? ≠ some id) && f.hasNullableMark w) := by
  unfold hasNullableMark
  rw [get?_facts_flushVariable]
  by_cases hw : w.base? = some id <;> simp [hw]

/-- A mark is taken from nothing but what is known not to be null then. -/
theorem TakesMarks.hasNullableMark (h : f.TakesMarks g) (hw : f.hasNullableMark w = true) :
    g.hasNullableMark w = true ∨ ∃ slot, w ∈ g.partition.members slot ∧ g.partition.isNotNull slot = true := by
  obtain ⟨taken, hfacts, htaken⟩ := h
  cases ht : taken w with
  | true => exact Or.inr (htaken w ht)
  | false =>
    left
    unfold Frame.hasNullableMark
    rw [hfacts, get?_unmark, ht]
    simpa [Frame.hasNullableMark] using hw

/-- No mark is added. -/
theorem TakesMarks.of_hasNullableMark (h : f.TakesMarks g) (hw : g.hasNullableMark w = true) :
    f.hasNullableMark w = true := by
  obtain ⟨taken, hfacts, -⟩ := h
  unfold Frame.hasNullableMark at hw ⊢
  rw [hfacts, get?_unmark, Option.any_map] at hw
  obtain ⟨a, ha, hnullable⟩ := (Option.any_eq_true _ _).mp hw
  refine (Option.any_eq_true _ _).mpr ⟨a, ha, ?_⟩
  split at hnullable
  · cases hnullable
  · exact hnullable

/-- A value is marked iff something alike to it has the mark. -/
theorem isMarkedNullable_iff (hf : f.partition.WellFormed) :
    f.isMarkedNullable v = true ↔ ∃ w, f.partition.Alike v w ∧ f.hasNullableMark w = true := by
  unfold isMarkedNullable
  cases hs : f.partition.slot? v with
  | some a =>
    have hv : v ∈ f.partition.members a := Partition.mem_members_of_slot? hs
    simp only [List.any_eq_true]
    constructor
    · rintro ⟨w, hw, hmark⟩
      exact ⟨w, Or.inr ⟨a, hv, hw⟩, hmark⟩
    · rintro ⟨w, halike, hmark⟩
      exact ⟨w, hf.mem_members_of_alike hv halike, hmark⟩
  | none =>
    -- without a class only its own mark counts
    have hnone : ∀ a, v ∉ f.partition.members a := Partition.slot?_eq_none_iff.mp hs
    constructor
    · exact fun hmark => ⟨v, Or.inl rfl, hmark⟩
    · rintro ⟨w, rfl | ⟨a, hv, -⟩, hmark⟩
      · exact hmark
      · exact absurd hv (hnone a)

/-- **A variable may not be used if it is known to be null, or marked without a proof to the contrary.** -/
theorem checkNotNullable_eq_false_iff (hf : f.partition.WellFormed) :
    f.checkNotNullable (.var y m) = false ↔ f.isNull (.var y m) = true ∨
      f.isNotNull (.var y m) = false ∧ ∃ w, f.partition.Alike (.var y m) w ∧ f.hasNullableMark w = true := by
  rw [← isMarkedNullable_iff hf]
  show (if f.isNull (.var y m) then false else f.isNotNull (.var y m) || !f.isMarkedNullable (.var y m)) = false ↔ _
  cases f.isNull (.var y m) <;> cases f.isNotNull (.var y m) <;> cases f.isMarkedNullable (.var y m) <;> simp

/-! ## Assignments -/

/-- What an assignment notes is an equality or an inequality, and what it notes beside is noted of its target. -/
theorem adopt_cases (f : Frame) (s : Scope) (target value : Value) :
    ∃ g : Frame, (g = f ∨ g = (f.applyEquality target .null true).frame ∨
        value.isAtom = true ∧ g = (f.applyEquality target value false).frame) ∧
      (f.adopt s target value).partition = g.partition ∧
      ∀ w, w ≠ target → (f.adopt s target value).hasNullableMark w = g.hasNullableMark w := by
  cases value with
  | notNull t =>
    exact ⟨_, Or.inr (Or.inl rfl), partition_recordType _ _ _ _, fun _ _ => hasNullableMark_recordType t⟩
  | typed t nullness =>
    cases nullness with
    | unknown => exact ⟨f, Or.inl rfl, partition_recordType _ _ _ _, fun _ _ => hasNullableMark_recordType t⟩
    | nonNull =>
      exact ⟨_, Or.inr (Or.inl rfl), partition_recordType _ _ _ _, fun _ _ => hasNullableMark_recordType t⟩
    | nullable =>
      -- only the target is marked
      refine ⟨f, Or.inl rfl, partition_recordType _ _ _ _, fun w hw => ?_⟩
      exact (hasNullableMark_recordType t).trans (hasNullableMark_withFacts hw _)
  | unknown => exact ⟨f, Or.inl rfl, rfl, fun _ _ => rfl⟩
  | relation kind negated left right => exact ⟨f, Or.inl rfl, rfl, fun _ _ => rfl⟩
  | var id viaMethods => exact ⟨_, Or.inr (Or.inr ⟨rfl, rfl⟩), rfl, fun _ _ => rfl⟩
  | constant c => exact ⟨_, Or.inr (Or.inr ⟨rfl, rfl⟩), rfl, fun _ _ => rfl⟩
  | boxed u => exact ⟨_, Or.inr (Or.inr ⟨rfl, rfl⟩), rfl, fun _ _ => rfl⟩
  | unboxed u => exact ⟨_, Or.inr (Or.inr ⟨rfl, rfl⟩), rfl, fun _ _ => rfl⟩

/-- **An assignment to a variable that is forgotten says nothing of others:** whatever values they have, some value of
the variable fits, that of the atom that is assigned or one that may be chosen. -/
theorem exists_rebase_satisfies_adopt {V : Type*} {σ : Valuation V} (hf : f.partition.WellFormed)
    (hx : ∀ {a u}, u ∈ f.partition.members a → u.base? ≠ some x) (hσ : σ.Satisfies f.partition) {e : V}
    (he : e ≠ σ .null) (s : Scope) (n : Bool) (v : Value) :
    ∃ d, (σ.rebase x d he).Satisfies (f.adopt s (.var x n) v).partition ∧ (d = e ∨ v.base? ≠ some x ∧ d = σ v) := by
  -- no class mentions the target, so it may have any value
  have hsatisfies : ∀ d, (σ.rebase x d he).Satisfies f.partition := fun d => Valuation.satisfies_rebase hσ hx
  obtain ⟨g, hg, hpartition, -⟩ := adopt_cases f s (.var x n) v
  rw [hpartition]
  rcases hg with rfl | rfl | ⟨hatom, rfl⟩
  · exact ⟨e, hsatisfies e, Or.inl rfl⟩
  · have hfulfils : (σ.rebase x e he).Fulfils true (.var x n) .null := by
      show σ.rebase x e he (.var x n) ≠ σ.rebase x e he .null
      rw [Valuation.rebase_var, Valuation.rebase_of_ne (Value.base?_null_ne x)]
      exact he
    exact ⟨e, (applyEquality_sound hf rfl rfl (hsatisfies e) hfulfils).2, Or.inl rfl⟩
  · -- the target is equated with an atom, and takes its value
    obtain ⟨d, hd, hcases⟩ := σ.exists_rebase_eq he x n v
    have hfulfils : (σ.rebase x d he).Fulfils false (.var x n) v := hd
    exact ⟨d, (applyEquality_sound hf rfl hatom (hsatisfies d) hfulfils).2, hcases⟩

/-- **An assignment to a variable that is forgotten shows of no other one that it is not null.** -/
theorem isNotNull_adopt_eq_false (hf : f.partition.WellFormed) (hx : ∀ {a u}, u ∈ f.partition.members a → u.base? ≠ some x)
    (hxy : x ≠ y) (hy : f.isNotNull (.var y m) = false) (s : Scope) (v : Value) :
    (f.adopt s (.var x n) v).isNotNull (.var y m) = false := by
  obtain ⟨σ, hσ, hnull⟩ := exists_null_of_not_isNotNull ℕ hf rfl hy
  obtain ⟨e, he⟩ : ∃ e, e ≠ σ .null := ⟨_, Nat.succ_ne_self _⟩
  obtain ⟨d, hd, -⟩ := exists_rebase_satisfies_adopt hf hx hσ he s n v
  -- the other one keeps its value, which is null
  have hstays : σ.rebase x d he (.var y m) = σ.rebase x d he .null := by
    rw [Valuation.rebase_of_ne (Value.base?_var_ne hxy m), Valuation.rebase_of_ne (Value.base?_null_ne x)]
    exact hnull
  cases h : (f.adopt s (.var x n) v).isNotNull (.var y m) with
  | false => rfl
  | true => exact absurd hstays (isNotNull_sound hd rfl h)

/-! ## What survives -/

/-- That a variable may not be used shows in something else than the marks of the forms of another one. -/
def NullableBeside (f : Frame) (x y : VariableId) (m : Bool) : Prop :=
  f.isNull (.var y m) = true ∨ f.isNotNull (.var y m) = false ∧
    ∃ w, f.partition.Alike (.var y m) w ∧ w.base? ≠ some x ∧ f.hasNullableMark w = true

/-- What shows without the marks of `x` shows. -/
theorem NullableBeside.checkNotNullable (h : f.NullableBeside x y m) (hf : f.partition.WellFormed) :
    f.checkNotNullable (.var y m) = false :=
  (checkNotNullable_eq_false_iff hf).mpr (h.imp_right fun ⟨hy, w, halike, _, hmark⟩ => ⟨hy, w, halike, hmark⟩)

/-- What rests on others than `x` outlives a flush of `x`. -/
theorem NullableBeside.flushVariable (h : f.NullableBeside x y m) (hf : f.partition.WellFormed) (hxy : x ≠ y) :
    (f.flushVariable x).NullableBeside x y m := by
  have hf' : (f.flushVariable x).partition.WellFormed := flushVariable_wellFormed hf x
  have halike : ∀ {w : Value}, w.base? ≠ some x → f.partition.Alike (.var y m) w →
      (f.flushVariable x).partition.Alike (.var y m) w := fun hw h =>
    h.imp_right fun hsame => hsame.forget (decide_eq_false (Value.base?_var_ne hxy m)) (decide_eq_false hw)
  rcases h with hnull | ⟨hy, w, hw, hwx, hmark⟩
  · left
    rw [isNull_iff_alike hf rfl] at hnull
    rw [isNull_iff_alike hf' rfl]
    exact halike (Value.base?_null_ne x) hnull
  · refine Or.inr ⟨?_, w, halike hwx hw, hwx, by simp [hasNullableMark_flushVariable, hwx, hmark]⟩
    -- a valuation that takes the variable to null still satisfies what is left
    obtain ⟨σ, hσ, hnull⟩ := exists_null_of_not_isNotNull ℕ hf rfl hy
    cases hnotNull : (f.flushVariable x).isNotNull (.var y m) with
    | false => rfl
    | true => exact absurd hnull (isNotNull_sound (hσ.forget _) rfl hnotNull)

/-- And what `x` adopts afterwards. -/
theorem NullableBeside.adopt (h : f.NullableBeside x y m) (hf : f.partition.WellFormed)
    (hx : ∀ {a u}, u ∈ f.partition.members a → u.base? ≠ some x) (hxy : x ≠ y) (s : Scope) (n : Bool) (v : Value) :
    (f.adopt s (.var x n) v).NullableBeside x y m := by
  have hf' : (f.adopt s (.var x n) v).partition.WellFormed := adopt_wellFormed hf _ _
  have hgrows := grows_adopt f s (.var x n) v
  rcases h with hnull | ⟨hy, w, hw, hwx, hmark⟩
  · left
    rw [isNull_iff_alike hf rfl] at hnull
    rw [isNull_iff_alike hf' rfl]
    exact hgrows.alike hnull
  · have hy' : (f.adopt s (.var x n) v).isNotNull (.var y m) = false := isNotNull_adopt_eq_false hf hx hxy hy s v
    refine Or.inr ⟨hy', w, hgrows.alike hw, hwx, ?_⟩
    obtain ⟨g, hg, hpartition, hmarks⟩ := adopt_cases f s (.var x n) v
    have hne : w ≠ .var x n := fun h => hwx (h ▸ rfl)
    have htakes : f.TakesMarks g := by
      rcases hg with rfl | rfl | ⟨-, rfl⟩
      · exact .of_facts_eq rfl
      · exact takesMarks_applyEquality f _ _ _
      · exact takesMarks_applyEquality f _ _ _
    rw [hmarks w hne]
    -- if the mark was taken, the class is known not to be null, and the variable with it
    refine (htakes.hasNullableMark hmark).resolve_right ?_
    rintro ⟨slot, hslot, hnotNull⟩
    rw [← hpartition] at hslot hnotNull
    have hyslot := hf'.mem_members_of_alike hslot (hgrows.alike hw).symm
    have hshown : (f.adopt s (.var x n) v).isNotNull (.var y m) = true := by
      show ((f.adopt s (.var x n) v).partition.slot? (.var y m)).any _ = true
      rw [hf'.slot?_eq_some_iff.mpr hyslot]
      exact hnotNull
    rw [hy'] at hshown
    cases hshown

/-- So it outlives an assignment to `x`. -/
theorem NullableBeside.assign (h : f.NullableBeside x y m) (hf : f.partition.WellFormed) (hxy : x ≠ y) (s : Scope)
    (n : Bool) (v : Value) : (f.assign s (.var x n) v).NullableBeside x y m := by
  unfold Frame.assign
  simp only [Value.varId?]
  split
  · exact h
  · let g : Frame := { f.flushVariable x with bindings := Sorted.put x v (f.flushVariable x).bindings }
    have hflushed : g.NullableBeside x y m := h.flushVariable hf hxy
    have hforgotten : ∀ {a u}, u ∈ g.partition.members a → u.base? ≠ some x := fun hu =>
      of_decide_eq_false (Partition.mem_members_forget.mp hu).2
    exact hflushed.adopt (flushVariable_wellFormed hf x) hforgotten hxy s n v

/-- Marks of the forms of `x` make a variable one that may not be used, and nothing else does. -/
structure RestsOnMark (f : Frame) (x y : VariableId) (m : Bool) : Prop where
  notNull : f.isNull (.var y m) = false
  marks : ∀ w, f.partition.Alike (.var y m) w → f.hasNullableMark w = true → w.base? = some x

/-- That a variable may not be used shows without the marks of `x`, or in these alone. -/
theorem nullableBeside_or_restsOnMark (hf : f.partition.WellFormed) (h : f.checkNotNullable (.var y m) = false)
    (x : VariableId) : f.NullableBeside x y m ∨ f.RestsOnMark x y m := by
  by_cases hbeside : f.NullableBeside x y m
  · exact Or.inl hbeside
  · refine Or.inr ⟨Bool.eq_false_iff.mpr fun hnull => hbeside (Or.inl hnull), fun w halike hmark => ?_⟩
    rcases (checkNotNullable_eq_false_iff hf).mp h with hnull | ⟨hy, -⟩
    · exact absurd (Or.inl hnull) hbeside
    · by_contra hw
      exact hbeside (Or.inr ⟨hy, w, halike, hw, hmark⟩)

/-- With the other variable the marks are forgotten. -/
theorem RestsOnMark.flushVariable (h : f.RestsOnMark x y m) (hf : f.partition.WellFormed) :
    (f.flushVariable x).checkNotNullable (.var y m) = true := by
  have hf' : (f.flushVariable x).partition.WellFormed := flushVariable_wellFormed hf x
  -- a flush makes nothing alike
  have halike : ∀ {w : Value}, (f.flushVariable x).partition.Alike (.var y m) w → f.partition.Alike (.var y m) w :=
    fun h => h.imp_right Partition.Same.of_forget
  by_contra hcheck
  rcases (checkNotNullable_eq_false_iff hf').mp (Bool.eq_false_iff.mpr hcheck) with hnull | ⟨-, w, hw, hmark⟩
  · have hknown : f.isNull (.var y m) = true :=
      (isNull_iff_alike hf rfl).mpr (halike ((isNull_iff_alike hf' rfl).mp hnull))
    rw [h.notNull] at hknown
    cases hknown
  · -- a mark that is left would be of something not based on `x`
    rw [hasNullableMark_flushVariable, Bool.and_eq_true, decide_eq_true_eq] at hmark
    exact hmark.1 (h.marks w (halike hw) hmark.2)

/-- **What is known of the nullability of a variable survives changes to another one.** A variable that may not be used
where null is not expected may still not be used after another one was flushed, or was assigned to, whatever was
assigned. There is an exception, and only one: nothing but marks of the other variable says so. -/
theorem nullability_survives (h : f.Reachable s) (hxy : x ≠ y) (hy : f.checkNotNullable (.var y m) = false) (n : Bool)
    (v : Value) :
    ((f.flushVariable x).checkNotNullable (.var y m) = false ↔ ¬f.RestsOnMark x y m) ∧
      (¬f.RestsOnMark x y m → (f.assign s (.var x n) v).checkNotNullable (.var y m) = false) := by
  have hf := h.wellFormed
  have hbeside : ¬f.RestsOnMark x y m → f.NullableBeside x y m :=
    (nullableBeside_or_restsOnMark hf hy x).resolve_right
  refine ⟨⟨fun hflushed hrests => ?_, fun hrests => ?_⟩, fun hrests => ?_⟩
  · rw [hrests.flushVariable hf] at hflushed
    cases hflushed
  · exact ((hbeside hrests).flushVariable hf hxy).checkNotNullable (flushVariable_wellFormed hf x)
  · exact ((hbeside hrests).assign hf hxy s n v).checkNotNullable (assign_wellFormed hf _ _)

/-- A variable that was said to be nullable itself stays so when the one that was assigned from it is flushed. -/
theorem nullability_survives_of_marked :
    let s : Scope := ⟨[⟨"x", .string, .local, false, []⟩, ⟨"y", .string, .local, false, []⟩], .empty⟩
    let x := Value.var 0 false
    let y := Value.var 1 false
    let f := (Frame.empty.assign s y (.typed .string .nullable)).assign s x y
    f.Reachable s ∧ (0 : VariableId) ≠ 1 ∧ f.checkNotNullable y = false ∧ (f.flushVariable 0).checkNotNullable y = false ∧
      (f.assign s x .unknown).checkNotNullable y = false := by
  intro s x y f
  have hf : f.Reachable s := (Reachable.empty.assign _ _).assign _ _
  have hy : f.checkNotNullable y = false := by decide
  have hrests : ¬f.RestsOnMark 0 1 false := fun h => by cases h.marks y (Or.inl rfl) (by decide)
  obtain ⟨hflushed, hassigned⟩ := nullability_survives (x := 0) hf (by decide) hy false .unknown
  exact ⟨hf, by decide, hy, hflushed.mpr hrests, hassigned hrests⟩

/-- One that was assigned from another one that was said to be nullable does not stay so when that one is flushed, or
assigned to. -/
theorem nullability_not_surviving :
    let s : Scope := ⟨[⟨"x", .string, .local, false, []⟩, ⟨"y", .string, .local, false, []⟩], .empty⟩
    let x := Value.var 0 false
    let y := Value.var 1 false
    let f := (Frame.empty.assign s x (.typed .string .nullable)).assign s y x
    f.Reachable s ∧ f.checkNotNullable y = false ∧ (f.flushVariable 0).checkNotNullable y = true ∧
      (f.assign s x .unknown).checkNotNullable y = true := by
  intro s x y f
  exact ⟨(Reachable.empty.assign _ _).assign _ _, by decide⟩

end Frame

end NullCheck
