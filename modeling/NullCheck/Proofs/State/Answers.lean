import NullCheck.Proofs.State.Nullability

/-!
# What is answered of a value after an assignment

A frame is asked of a value whether it is null, and which constant it is. Both answers are about the constants that the
value is alike to, and alikeness is exactly what all valuations agree on. So the answers after an assignment are found
by choosing a value for the variable that was assigned to, and leaving all else as it was.

## The architecture

* **`Frame.AnswersAs`**: of a value one frame answers what another answers of another value.
* **`Frame.answersAs_of_alike`**: both answers are about constants that are alike.
* **`Frame.alike_applyEquality_not`**: that values differ makes nothing alike.
* **`Frame.alike_adopt_of_base?_ne`**, **`Frame.alike_adopt_target`**, **`Frame.not_alike_adopt`**: what is alike
  after an assignment, for values of other variables, for the target, and for the other forms of its variable.
* **`Frame.answersAs_assign_…`**: the same, for the answers.
-/

namespace NullCheck

theorem Value.base?_ne_of_isConstant {v : Value} (hv : v.isConstant = true) (id : VariableId) : v.base? ≠ some id := by
  intro hbase
  cases v with
  | constant c => cases hbase
  | _ => cases hv

namespace Partition

variable {p q : Partition} {u v w : Value}

/-- Two values are alike just if all valuations that satisfy the partition agree on them. -/
theorem WellFormed.alike_iff (h : p.WellFormed) :
    p.Alike v w ↔ ∀ σ : Valuation ℕ, σ.Satisfies p → σ v = σ w := by
  constructor
  · rintro (rfl | hsame) σ hσ
    · rfl
    · exact hσ.same hsame
  · intro hagree
    obtain ⟨σ, hσ, hsep⟩ := h.exists_separating ℕ
    exact (hsep v w).mp (hagree σ hσ)

theorem WellFormed.isAtom_of_alike (h : p.WellFormed) (halike : p.Alike v w) (hw : w.isConstant = true) :
    v.isAtom = true := by
  rcases halike with rfl | ⟨a, hv, -⟩
  · cases v <;> first | rfl | cases hw
  · exact h.atom hv

/-- No two constants are alike. -/
theorem WellFormed.eq_of_alike (h : p.WellFormed) (hv : v.isConstant = true) (hw : w.isConstant = true)
    (halike : p.Alike v w) : v = w := by
  rcases halike with heq | ⟨a, hva, hwa⟩
  · exact heq
  · exact h.constant hva hwa hv hw

/-- A new class makes nothing alike that was not. -/
theorem alike_ensure (p : Partition) (v : Value) : (p.ensure v).2.Alike u w ↔ p.Alike u w := by
  constructor
  · rintro (heq | ⟨a, hu, hw⟩)
    · exact Or.inl heq
    · cases hs : p.slot? v with
      | some b =>
        rw [show p.ensure v = (b, p) by simp [Partition.ensure, hs]] at hu hw
        exact Or.inr ⟨a, hu, hw⟩
      | none =>
        -- the new class holds a single atom
        rcases mem_members_ensure_pair hs hu hw with ⟨hu', hw'⟩ | ⟨rfl, rfl⟩
        · exact Or.inr ⟨a, hu', hw'⟩
        · exact Or.inl rfl
  · exact (grows_ensure p v).alike

/-- An atom in no class is alike to nothing else. -/
theorem eq_of_alike_of_not_contains (hv : ¬p.Contains v) (halike : p.Alike v w) : v = w := by
  rcases halike with heq | ⟨a, hva, -⟩
  · exact heq
  · exact absurd ⟨a, hva⟩ hv

end Partition

/-- No outcome of an inequality moves an atom. -/
theorem EqualityOutcome.alike_iff {q p : Partition} {a b : Nat} {holds : Bool} {v w : Value}
    (h : EqualityOutcome q a b true holds p) : p.Alike v w ↔ q.Alike v w := by
  generalize ht : true = negated at h
  cases h with
  | same => exact Iff.rfl
  | refuted => cases ht
  | apart => exact Iff.rfl
  | separated => exact Iff.rfl
  | merged => cases ht

namespace Frame

variable {f g h : Frame} {s : Scope} {x : VariableId} {n : Bool} {e k v w : Value}

/-! ## Answers -/

/-- Of `v` the frame `f` answers what `g` answers of `w`: whether it is null, and which constant it is. -/
structure AnswersAs (f : Frame) (v : Value) (g : Frame) (w : Value) : Prop where
  isNull : f.isNull v = g.isNull w
  constant? : f.constant? v = g.constant? w

/-- What is known to be null is what is alike to `null`. -/
theorem isNull_eq_true_iff (hf : f.partition.WellFormed) : f.isNull v = true ↔ f.partition.Alike v .null := by
  by_cases hv : v.isAtom = true
  · exact isNull_iff_alike hf hv
  · -- nothing but an atom is alike to null
    have hnull : f.isNull v ≠ true := by
      have hne : v ≠ .null := fun h => hv (h ▸ rfl)
      simp [isNull, hne, hv]
    exact ⟨fun h => absurd h hnull, fun h => absurd (hf.isAtom_of_alike h rfl) hv⟩

/-- What is known to be a constant is what is alike to it. -/
theorem constant?_eq_some_iff (hf : f.partition.WellFormed) :
    f.constant? v = some k ↔ k.isConstant = true ∧ f.partition.Alike v k := by
  unfold Frame.constant?
  -- a constant is its own answer, anything else has that of its class
  by_cases hv : v.isConstant = true
  · rw [if_pos hv, Option.some.injEq]
    constructor
    · rintro rfl
      exact ⟨hv, Or.inl rfl⟩
    · rintro ⟨hk, halike⟩
      exact hf.eq_of_alike hv hk halike
  · rw [if_neg hv, Option.bind_eq_some_iff]
    constructor
    · rintro ⟨a, ha, hka⟩
      obtain ⟨hmem, hk⟩ := Partition.constant?_spec hka
      exact ⟨hk, Or.inr ⟨a, Partition.mem_members_of_slot? ha, hmem⟩⟩
    · rintro ⟨hk, rfl | ⟨a, hva, hka⟩⟩
      · exact absurd hk hv
      · exact ⟨a, hf.slot?_eq_some_iff.mpr hva, hf.constant?_eq_some_iff.mpr ⟨hka, hk⟩⟩

/-- **Both answers are about the constants that a value is alike to.** -/
theorem answersAs_of_alike (hf : f.partition.WellFormed) (hg : g.partition.WellFormed)
    (h : ∀ k, k.isConstant = true → (f.partition.Alike v k ↔ g.partition.Alike w k)) : f.AnswersAs v g w where
  isNull := by
    rw [Bool.eq_iff_iff, isNull_eq_true_iff hf, isNull_eq_true_iff hg]
    exact h .null rfl
  constant? := by
    refine Option.ext fun k => ?_
    rw [constant?_eq_some_iff hf, constant?_eq_some_iff hg]
    exact and_congr_right (h k)

theorem AnswersAs.trans {u : Value} (hfg : f.AnswersAs u g v) (hgh : g.AnswersAs v h w) : f.AnswersAs u h w :=
  ⟨hfg.isNull.trans hgh.isNull, hfg.constant?.trans hgh.constant?⟩

/-! ## Inequalities -/

/-- **That two values differ makes nothing alike.** -/
theorem alike_applyEquality_not (f : Frame) (left right : Value) :
    (f.applyEquality left right true).frame.partition.Alike v w ↔ f.partition.Alike v w := by
  by_cases hatoms : left.isAtom = true ∧ right.isAtom = true
  · have hslots : (f.ensureSlots left right).2.2.partition.Alike v w ↔ f.partition.Alike v w :=
      (Partition.alike_ensure _ right).trans (Partition.alike_ensure f.partition left)
    exact (applyEquality_outcome f hatoms.1 hatoms.2 true).alike_iff.trans hslots
  · rw [applyEquality_of_not_isAtom hatoms]

/-- A check tells a value from `null` and makes nothing alike. -/
theorem alike_applyNotNull (f : Frame) (u : Value) :
    (f.applyNotNull u).frame.partition.Alike v w ↔ f.partition.Alike v w := by
  unfold applyNotNull
  split
  · exact alike_applyEquality_not f u .null
  · exact Iff.rfl

theorem answersAs_applyNotNull (hf : f.partition.WellFormed) (u v : Value) : (f.applyNotNull u).frame.AnswersAs v f v :=
  answersAs_of_alike (applyNotNull_wellFormed hf u) hf fun _ _ => alike_applyNotNull f u

/-! ## What is alike after an assignment -/

theorem alike_of_applyEquality (hf : f.partition.WellFormed) (hv : v.isAtom = true) (hw : w.isAtom = true)
    (hholds : (f.applyEquality v w false).holds = true) : (f.applyEquality v w false).frame.partition.Alike v w := by
  refine (applyEquality_wellFormed hf v w false).alike_iff.mpr fun σ hσ => ?_
  exact ((applyEquality_satisfies hf hv hw hholds).mp hσ).2

theorem adopt_of_isAtom (f : Frame) (s : Scope) (target : Value) (hv : v.isAtom = true) :
    f.adopt s target v = (f.applyEquality target v false).frame := by
  cases v <;> first | rfl | cases hv

section Adoption

variable (hf : f.partition.WellFormed) (hx : ∀ {a u}, u ∈ f.partition.members a → u.base? ≠ some x) (s : Scope)
  (n : Bool)
include hf hx

/-- An atom can always be assigned to a variable of which nothing is known. -/
theorem holds_of_forgotten (hv : v.isAtom = true) : (f.applyEquality (.var x n) v false).holds = true := by
  obtain ⟨σ, hσ, -⟩ := hf.exists_separating ℕ
  obtain ⟨e, he⟩ : ∃ e, e ≠ σ .null := ⟨_, Nat.succ_ne_self _⟩
  obtain ⟨d, hd, -⟩ := σ.exists_rebase_eq he x n v
  have hsatisfies : (σ.rebase x d he).Satisfies f.partition := Valuation.satisfies_rebase hσ hx
  have hfulfils : (σ.rebase x d he).Fulfils false (.var x n) v := hd
  exact (applyEquality_sound hf rfl hv hsatisfies hfulfils).1

/-- What is not based on the target is alike to the same values after the target adopts something. -/
theorem alike_adopt_of_base?_ne (u : Value) (hv : v.base? ≠ some x) (hw : w.base? ≠ some x) :
    (f.adopt s (.var x n) u).partition.Alike v w ↔ f.partition.Alike v w := by
  constructor
  · intro halike
    obtain ⟨σ, hσ, hsep⟩ := hf.exists_separating ℕ
    obtain ⟨e, he⟩ : ∃ e, e ≠ σ .null := ⟨_, Nat.succ_ne_self _⟩
    obtain ⟨d, hd, -⟩ := exists_rebase_satisfies_adopt hf hx hσ he s n u
    have hequal := (adopt_wellFormed hf _ u).alike_iff.mp halike _ hd
    rw [Valuation.rebase_of_ne hv, Valuation.rebase_of_ne hw] at hequal
    exact (hsep v w).mp hequal
  · exact (grows_adopt f s (.var x n) u).alike

/-- A valuation of the frame that gives the forms of the variable another value than a constant has, unless the target
has the value of what is assigned. -/
theorem not_alike_or_alike_of_adopt (hk : k.isConstant = true) (he : e.base? = some x)
    (halike : (f.adopt s (.var x n) v).partition.Alike e k) : v.base? ≠ some x ∧ f.partition.Alike v k := by
  have hkx : k.base? ≠ some x := Value.base?_ne_of_isConstant hk x
  -- a valuation that tells classes apart, with a value for the target that no class has
  obtain ⟨σ, hσ, hsep⟩ := hf.exists_separating ℕ
  obtain ⟨fresh, hfresh⟩ := Infinite.exists_notMem_finset {σ .null, σ k}
  simp only [Finset.mem_insert, Finset.mem_singleton, not_or] at hfresh
  obtain ⟨d, hd, hcases⟩ := exists_rebase_satisfies_adopt hf hx hσ hfresh.1 s n v
  have hequal := (adopt_wellFormed hf _ v).alike_iff.mp halike _ hd
  rw [Valuation.rebase_of_ne hkx] at hequal
  have hvalue : σ.rebase x d hfresh.1 e = if e.isBoxed then fresh else d := if_pos he
  rw [hvalue] at hequal
  split at hequal
  · exact absurd hequal hfresh.2
  · rcases hcases with rfl | ⟨hv, rfl⟩
    · exact absurd hequal hfresh.2
    · exact ⟨hv, (hsep v k).mp hequal⟩

/-- **The target is alike to what was assigned.** -/
theorem alike_adopt_target (hk : k.isConstant = true) :
    (f.adopt s (.var x n) v).partition.Alike (.var x n) k ↔ f.partition.Alike v k := by
  constructor
  · exact fun halike => (not_alike_or_alike_of_adopt hf hx s n hk rfl halike).2
  · intro halike
    have hatom : v.isAtom = true := hf.isAtom_of_alike halike hk
    have hwellFormed := applyEquality_wellFormed hf (.var x n) v false
    have hassigned := alike_of_applyEquality hf rfl hatom (holds_of_forgotten hf hx n hatom)
    have hkept := (grows_applyEquality f (.var x n) v false).alike halike
    rw [adopt_of_isAtom f s _ hatom]
    refine hwellFormed.alike_iff.mpr fun σ hσ => ?_
    exact (hwellFormed.alike_iff.mp hassigned σ hσ).trans (hwellFormed.alike_iff.mp hkept σ hσ)

/-- **The other forms of the target's variable are alike to no constant,** nor is the target if it is assigned one of
them. -/
theorem not_alike_adopt (hk : k.isConstant = true) (he : e.base? = some x) (hother : e ≠ .var x n ∨ v.base? = some x) :
    ¬(f.adopt s (.var x n) v).partition.Alike e k := by
  intro halike
  obtain ⟨hv, -⟩ := not_alike_or_alike_of_adopt hf hx s n hk he halike
  have hne : e ≠ .var x n := hother.resolve_right hv
  -- the form is not forgotten, so it is in no class, and none is made for it
  have hnot : ¬(f.adopt s (.var x n) v).partition.Contains e := by
    have hnew : ∀ {u}, u.base? ≠ some x → ¬(f.partition.Contains e ∨ e = .var x n ∨ e = u) := by
      rintro u hu (⟨a, ha⟩ | heq | rfl)
      · exact hx ha he
      · exact hne heq
      · exact hu he
    intro hcontains
    obtain ⟨g, hg, hpartition, -⟩ := adopt_cases f s (.var x n) v
    rw [hpartition] at hcontains
    rcases hg with rfl | rfl | ⟨-, rfl⟩
    · exact hnew hv (Or.inl hcontains)
    · exact hnew (Value.base?_null_ne x) (applyEquality_contains f _ _ _ hcontains)
    · exact hnew hv (applyEquality_contains f _ _ _ hcontains)
  obtain rfl := Partition.eq_of_alike_of_not_contains hnot halike
  exact Value.base?_ne_of_isConstant hk x he

end Adoption

/-! ## Answers after an assignment -/

theorem alike_flushVariable (f : Frame) (hv : v.base? ≠ some x) (hw : w.base? ≠ some x) :
    (f.flushVariable x).partition.Alike v w ↔ f.partition.Alike v w :=
  or_congr_right ⟨Partition.Same.of_forget, fun h => h.forget (decide_eq_false hv) (decide_eq_false hw)⟩

/-- What is alike to no constant answers as what is unknown. -/
theorem answersAs_unknown (hf : f.partition.WellFormed) (hg : g.partition.WellFormed)
    (h : ∀ k, k.isConstant = true → ¬f.partition.Alike v k) : f.AnswersAs v g .unknown := by
  refine answersAs_of_alike hf hg fun k hk => iff_of_false (h k hk) fun halike => ?_
  have hatom : Value.unknown.isAtom = true := hg.isAtom_of_alike halike hk
  cases hatom

/-- The frame to which an assignment adds what it notes: all that was known of the variable is forgotten. -/
def unbind (f : Frame) (id : VariableId) (v : Value) : Frame :=
  { f.flushVariable id with bindings := Sorted.put id v (f.flushVariable id).bindings }

/-- Nothing in a frame that forgot the target is based on it. -/
theorem base?_ne_of_mem_unbind {a : Nat} {u : Value} (hu : u ∈ (f.unbind x v).partition.members a) :
    u.base? ≠ some x :=
  of_decide_eq_false (Partition.mem_members_forget.mp hu).2

theorem unbind_wellFormed (hf : f.partition.WellFormed) (id : VariableId) (v : Value) :
    (f.unbind id v).partition.WellFormed :=
  flushVariable_wellFormed hf id

/-- Assignment is forgetting and binding, then adopting. -/
theorem assign_eq_adopt (f : Frame) (s : Scope) (hv : v ≠ .var x n) :
    f.assign s (.var x n) v = (f.unbind x v).adopt s (.var x n) v := by
  unfold assign
  simp only [Value.varId?]
  rw [if_neg hv]
  rfl

section Assignment

variable (hf : f.partition.WellFormed) (s : Scope) (hne : v ≠ .var x n)
include hf hne

/-- **Of values of other variables the answers stay.** -/
theorem answersAs_assign_of_base?_ne (he : e.base? ≠ some x) : (f.assign s (.var x n) v).AnswersAs e f e := by
  refine answersAs_of_alike (assign_wellFormed hf _ v) hf fun k hk => ?_
  have hkx : k.base? ≠ some x := Value.base?_ne_of_isConstant hk x
  rw [assign_eq_adopt f s hne]
  exact (alike_adopt_of_base?_ne (unbind_wellFormed hf x v) base?_ne_of_mem_unbind s n v he hkx).trans
    (alike_flushVariable f he hkx)

/-- **Of the target is answered what was answered of the value that it is assigned.** -/
theorem answersAs_assign_target (hv : v.base? ≠ some x) : (f.assign s (.var x n) v).AnswersAs (.var x n) f v := by
  refine answersAs_of_alike (assign_wellFormed hf _ v) hf fun k hk => ?_
  have hkx : k.base? ≠ some x := Value.base?_ne_of_isConstant hk x
  rw [assign_eq_adopt f s hne]
  exact (alike_adopt_target (unbind_wellFormed hf x v) base?_ne_of_mem_unbind s n hk).trans
    (alike_flushVariable f hv hkx)

/-- **Of the other forms of the target's variable nothing is known,** nor of the target if it is assigned one. -/
theorem answersAs_assign_unknown (he : e.base? = some x) (hother : e ≠ .var x n ∨ v.base? = some x) :
    (f.assign s (.var x n) v).AnswersAs e f .unknown := by
  refine answersAs_unknown (assign_wellFormed hf _ v) hf fun k hk => ?_
  rw [assign_eq_adopt f s hne]
  exact not_alike_adopt (unbind_wellFormed hf x v) base?_ne_of_mem_unbind s n hk he hother

end Assignment

end Frame

end NullCheck
