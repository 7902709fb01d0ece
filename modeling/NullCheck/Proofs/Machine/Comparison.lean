import NullCheck.Proofs.Machine.Describes

/-!
# Comparisons of machines

A comparison that a machine makes is tracked by a relation of symbolic values, perhaps with the operands exchanged
and negated. Whichever way the comparison turns out, the relation or its opposite is true of the machine, and what
is true of the machine holds in a frame that describes it.

## The architecture

* **`RelationKind.IsTrue`**: when a relation is true of two values of a machine.
* **`Frame.Fits.applyRelation`**: a relation that is true holds in a frame, which still fits.
* **`Value.isTrue_of_compare?`**: what the relation of a comparison is true of.
-/

namespace NullCheck

/-- A relation is true of two values, or its opposite if `negated`. Orderings are between integers. -/
def RelationKind.IsTrue (negated : Bool) (a b : Datum) : RelationKind → Prop
  | .eq => a = b ↔ negated = false
  | .lt => ∃ i j, a = .integer i ∧ b = .integer j ∧ (i < j ↔ negated = false)
  | .gt => ∃ i j, a = .integer i ∧ b = .integer j ∧ (j < i ↔ negated = false)
  | .instanceOf => False

namespace RelationKind

/-- Whichever way a relation turns out, of two values of which it is true either both are null or none. -/
theorem IsTrue.null_iff {kind : RelationKind} {negated : Bool} {a b : Datum} (h : kind.IsTrue negated a b)
    (hequal : kind = .eq → negated = false) : a = .null ↔ b = .null := by
  cases kind with
  | eq => rw [h.mpr (hequal rfl)]
  | lt =>
    obtain ⟨i, j, rfl, rfl, -⟩ := h
    exact ⟨fun h => (by cases h), fun h => (by cases h)⟩
  | gt =>
    obtain ⟨i, j, rfl, rfl, -⟩ := h
    exact ⟨fun h => (by cases h), fun h => (by cases h)⟩
  | instanceOf => cases h

/-- Nothing is before or behind itself. -/
theorem IsTrue.negated_of_self {kind : RelationKind} {negated : Bool} {a : Datum} (h : kind.IsTrue negated a a)
    (hkind : kind = .lt ∨ kind = .gt) : negated = true := by
  rcases hkind with rfl | rfl
  · obtain ⟨i, j, rfl, hj, hij⟩ := h
    cases hj
    simpa using hij
  · obtain ⟨i, j, rfl, hj, hij⟩ := h
    cases hj
    simpa using hij

/-- To exchange the operands is to flip the relation. -/
theorem IsTrue.flipped {kind : RelationKind} {negated : Bool} {a b : Datum} (h : kind.IsTrue negated a b) :
    kind.flipped.IsTrue negated b a := by
  cases kind with
  | eq => exact Iff.trans eq_comm h
  | lt =>
    obtain ⟨i, j, ha, hb, hij⟩ := h
    exact ⟨j, i, hb, ha, hij⟩
  | gt =>
    obtain ⟨i, j, ha, hb, hij⟩ := h
    exact ⟨j, i, hb, ha, hij⟩
  | instanceOf => cases h

end RelationKind

/-! ## What is true holds -/

namespace Frame

namespace Fits

variable {env : Environment} {f : Frame} {v w : Value} {a b : Cell}

theorem constant?_eq (h : f.Fits env) (ha : v.Allows env a) {c : Constant} (hc : f.constant? v = some (.constant c)) :
    a.value = .constant c := by
  unfold Frame.constant? at hc
  split at hc
  · rename_i hv
    rw [Option.some.injEq] at hc
    subst hc
    rw [ha.1]
    rfl
  · rename_i hv
    obtain ⟨slot, hslot, hconstant⟩ := Option.bind_eq_some_iff.mp hc
    have hatom : v.isAtom := h.wellFormed.atom (Partition.mem_members_of_slot? hslot)
    exact h.value_eq_constant ha hatom hslot hconstant

/-- An ordering that is true of two integers is not ruled out by constants that they are known to be. -/
theorem ordered_of_true {kind : RelationKind} {negated : Bool} {x y : Datum} (htrue : kind.IsTrue negated x y)
    {left right : Option Value} (hleft : ∀ c, left = some (.constant c) → x = .constant c)
    (hright : ∀ c, right = some (.constant c) → y = .constant c) : ordered kind negated left right = true := by
  unfold ordered
  split
  · rename_i p q
    -- both sides are known, and are what the machine compares
    have hx := hleft _ rfl
    have hy := hright _ rfl
    cases kind with
    | eq => rfl
    | instanceOf => rfl
    | lt =>
      obtain ⟨i, j, rfl, rfl, hij⟩ := htrue
      cases hx
      cases hy
      cases negated <;> simp_all
    | gt =>
      obtain ⟨i, j, rfl, rfl, hij⟩ := htrue
      cases hx
      cases hy
      cases negated <;> simp_all
  · rfl

theorem applyOrdering (h : f.Fits env) (ha : v.Allows env a) (hb : w.Allows env b) {kind : RelationKind}
    (hkind : kind = .lt ∨ kind = .gt) {negated : Bool} (htrue : kind.IsTrue negated a.value b.value) :
    (f.applyOrdering kind negated v w).holds = true := by
  unfold Frame.applyOrdering
  split
  · rename_i slot slot' hslot hslot'
    have hv : v.isAtom := h.wellFormed.atom (Partition.mem_members_of_slot? hslot)
    have hw : w.isAtom := h.wellFormed.atom (Partition.mem_members_of_slot? hslot')
    split
    · rename_i hsame
      subst hsame
      -- sides of one class have one value, which is not below itself
      have heq : a.value = b.value := by
        rw [← ha.value_eq hv, ← hb.value_eq hw]
        exact h.satisfies.equal (Partition.mem_members_of_slot? hslot) (Partition.mem_members_of_slot? hslot')
      rw [heq] at htrue
      show negated = true
      exact htrue.negated_of_self hkind
    · exact ordered_of_true htrue (fun c hc => h.value_eq_constant ha hv hslot hc)
        (fun c hc => h.value_eq_constant hb hw hslot' hc)
  · exact ordered_of_true htrue (fun c hc => h.constant?_eq ha hc) (fun c hc => h.constant?_eq hb hc)

/-- **A relation that is true of the machine holds, and the frame still fits.** -/
theorem applyRelation (h : f.Fits env) (s : Scope) (ha : v.Allows env a) (hb : w.Allows env b) {kind : RelationKind}
    {negated : Bool} (htrue : kind.IsTrue negated a.value b.value) :
    (f.applyCondition s (.relation kind negated v w)).holds = true ∧
      (f.applyCondition s (.relation kind negated v w)).frame.Fits env ∧
      (f.applyCondition s (.relation kind negated v w)).frame.stack = f.stack := by
  cases kind with
  | eq =>
    obtain ⟨hholds, hfits⟩ := h.applyEquality ha hb htrue
    exact ⟨hholds, hfits, stack_applyEquality f v w negated⟩
  | lt =>
    have hframe : (f.applyCondition s (.relation .lt negated v w)).frame = f := frame_applyOrdering f .lt negated v w
    rw [hframe]
    exact ⟨h.applyOrdering ha hb (Or.inl rfl) htrue, h, rfl⟩
  | gt =>
    have hframe : (f.applyCondition s (.relation .gt negated v w)).frame = f := frame_applyOrdering f .gt negated v w
    rw [hframe]
    exact ⟨h.applyOrdering ha hb (Or.inr rfl) htrue, h, rfl⟩
  | instanceOf => cases htrue

end Fits

end Frame

/-! ## Relations of comparisons -/

namespace Value

/-- All operators with a canonical relation compare values, or test for a type. -/
theorem isComparison_of_canonical? {operator : BinaryOperator} {r : RelationKind × Bool}
    (h : canonical? operator = some r) (hoperator : operator ≠ .instanceOf) : operator.isComparison = true := by
  cases operator <;> first | rfl | exact absurd rfl hoperator | cases h

/-- The canonical relation of an operator is true of two values if the outcome is, else its opposite. -/
theorem true_of_canonical? {operator : BinaryOperator} {kind : RelationKind} {flip : Bool}
    (hcanonical : canonical? operator = some (kind, flip)) {x y : Datum} {b : Bool}
    (h : Computes (some operator) x y (.boolean b)) (hoperator : operator ≠ .instanceOf) :
    kind.IsTrue (flip ^^ !b) x y := by
  -- one case for each rule by which the machine computes
  generalize hd : Datum.boolean b = d at h
  cases h with
  | eq =>
    cases hcanonical
    cases hd
    simp [RelationKind.IsTrue]
  | ne =>
    cases hcanonical
    cases hd
    simp [RelationKind.IsTrue]
  | lt i j =>
    cases hcanonical
    cases hd
    exact ⟨i, j, rfl, rfl, by simp⟩
  | le i j =>
    cases hcanonical
    cases hd
    exact ⟨i, j, rfl, rfl, by simp⟩
  | gt i j =>
    cases hcanonical
    cases hd
    exact ⟨i, j, rfl, rfl, by simp⟩
  | ge i j =>
    cases hcanonical
    cases hd
    exact ⟨i, j, rfl, rfl, by simp⟩
  | plus => cases hcanonical
  -- what the machine leaves open is no comparison
  | other hcomparison hplus =>
    rw [Option.all_some, isComparison_of_canonical? hcanonical hoperator] at hcomparison
    cases hcomparison

/-- What compares two values of a machine yields a truth value. -/
theorem exists_boolean_of_computes {operator : BinaryOperator} (hcomparison : operator.isComparison = true)
    {x y d : Datum} (h : Computes (some operator) x y d) : ∃ b, d = .boolean b := by
  cases h with
  | plus => cases hcomparison
  | other hother =>
    rw [Option.all_some, hcomparison] at hother
    cases hother
  | _ => exact ⟨_, rfl⟩

/-- **A comparison is tracked by a relation** of the operands, perhaps exchanged. If the outcome is true, the relation
is true of the machine, else its opposite is. -/
theorem isTrue_of_compare? {left right relation : Value} {operator : BinaryOperator}
    (h : left.compare? right operator false = some relation) (hoperator : operator ≠ .instanceOf) {env : Environment}
    {a b : Cell} (ha : left.Allows env a) (hb : right.Allows env b) {outcome : Bool}
    (hcomputes : Computes (some operator) a.value b.value (.boolean outcome)) :
    ∃ kind negated v w x y, relation = .relation kind negated v w ∧ v.Allows env x ∧ w.Allows env y ∧
      kind.IsTrue (negated ^^ !outcome) x.value y.value ∧ (x = a ∧ y = b ∨ x = b ∧ y = a) := by
  obtain ⟨kind, flip, hcanonical, hrelation⟩ := exists_of_compare? h
  have htrue := true_of_canonical? hcanonical hcomputes hoperator
  rw [Bool.false_xor] at hrelation
  rcases hrelation with rfl | ⟨-, rfl⟩
  · exact ⟨kind, flip, left, right, a, b, rfl, ha, hb, htrue, Or.inl ⟨rfl, rfl⟩⟩
  · exact ⟨_, flip, right, left, b, a, rfl, hb, ha, htrue.flipped, Or.inr ⟨rfl, rfl⟩⟩

theorem eq_of_compare?_null {v condition : Value} (h : v.compare? .null .eq true = some condition) :
    condition = .relation .eq true v .null := by
  cases v <;> first | (cases h; rfl) | cases h

end Value

namespace Visit

variable {c : Context} {i : Instruction} {env : Environment} {f : Frame} {left right : Value} {a b : Cell}

theorem ne_null_of_showsNotNull (h : f.Fits env) (ha : left.Allows env a) (hshows : showsNotNull f left = true) :
    a.value ≠ .null := by
  unfold showsNotNull at hshows
  split at hshows
  · exact h.ne_null ha hshows
  · rw [ha.1]
    exact fun h => by cases h
  · cases hshows

/-- Of two values that are both null or both not, either may be noted not to be null when the other is not. -/
theorem shareNotNull_fits (h : f.Fits env) (ha : left.Allows env a) (hb : right.Allows env b)
    (hnull : a.value = .null ↔ b.value = .null) :
    (shareNotNull c f left right).1.Fits env ∧ (shareNotNull c f left right).1.stack = f.stack := by
  -- whichever value is noted, it is not null
  have hother : ∀ v, (if showsNotNull f left then some right else if showsNotNull f right then some left else none) =
      some v → ∃ x : Cell, v.Allows env x ∧ x.value ≠ .null := by
    intro v hv
    split at hv
    · rename_i hshows
      cases hv
      exact ⟨b, hb, fun hnull' => ne_null_of_showsNotNull h ha hshows (hnull.mpr hnull')⟩
    · split at hv
      · rename_i hshows
        cases hv
        exact ⟨a, ha, fun hnull' => ne_null_of_showsNotNull h hb hshows (hnull.mp hnull')⟩
      · cases hv
  unfold shareNotNull
  simp only
  split
  · rename_i condition hcondition
    obtain ⟨v, hv, hcompare⟩ := Option.bind_eq_some_iff.mp hcondition
    obtain ⟨x, hx, hxnull⟩ := hother v hv
    rw [Value.eq_of_compare?_null hcompare]
    have htrue : RelationKind.eq.IsTrue true x.value Datum.null :=
      ⟨fun h => absurd h hxnull, fun h => by cases h⟩
    obtain ⟨-, hfits, hstack⟩ := h.applyRelation c.scope hx Value.allows_null htrue
    exact ⟨hfits, hstack⟩
  · exact ⟨h, rfl⟩

/-- **An outcome that is true of the machine is followed.** -/
theorem exists_follow (h : f.Fits env) (ha : left.Allows env a) (hb : right.Allows env b) {v w : Value} {x y : Cell}
    (hx : v.Allows env x) (hy : w.Allows env y) (hpair : x = a ∧ y = b ∨ x = b ∧ y = a) {kind : RelationKind}
    {negated : Bool} (htrue : kind.IsTrue negated x.value y.value) :
    ∃ r, follow c f (.relation kind negated v w) (!negated) left right = some r ∧ r.1.Fits env ∧
      r.1.stack = f.stack := by
  obtain ⟨hholds, hfits, hstack⟩ := h.applyRelation c.scope hx hy htrue
  unfold follow
  simp only
  rw [if_pos hholds]
  refine ⟨_, rfl, ?_⟩
  cases negated with
  | true => exact ⟨hfits, hstack⟩
  | false =>
    -- only of equal values one is not null when the other is not
    have hnull : a.value = .null ↔ b.value = .null := by
      have hxy := htrue.null_iff fun _ => rfl
      rcases hpair with ⟨rfl, rfl⟩ | ⟨rfl, rfl⟩
      · exact hxy
      · exact hxy.symm
    obtain ⟨hshared, hsharedStack⟩ := shareNotNull_fits (c := c) hfits ha hb hnull
    exact ⟨hshared, hsharedStack.trans hstack⟩

/-- Two constants have the outcome that their values have. -/
theorem compareConstants_eq (h : f.Fits env) (ha : left.Allows env a) (hb : right.Allows env b)
    (hleft : left.isConstant = true) (hright : right.isConstant = true) {operator : BinaryOperator}
    (hoperator : operator = .eq ∨ operator = .ne) {d : Datum} (hcomputes : Computes (some operator) a.value b.value d) :
    ∃ outcome, d = .boolean outcome ∧ compareConstants i f operator left right =
      { advance i (f.push (.boolean outcome)) with observation := .outcome outcome } := by
  have hatom : ∀ {v : Value}, v.isConstant = true → v.isAtom = true := by
    intro v hv
    cases v <;> first | rfl | cases hv
  -- constants are one exactly if their values are
  have hsame : left = right ↔ a.value = b.value := by
    rw [← ha.value_eq (hatom hleft), ← hb.value_eq (hatom hright)]
    exact ⟨fun h => h ▸ rfl, fun h => Valuation.eq_of_isConstant hleft hright h⟩
  unfold compareConstants
  rw [h.canBeNaN_eq ha, h.canBeNaN_eq hb]
  rcases hoperator with rfl | rfl
  · cases hcomputes with
    | eq => exact ⟨_, rfl, by simp [hsame]⟩
    | other hcomparison => cases hcomparison
  · cases hcomputes with
    | ne => exact ⟨_, rfl, by simp [hsame]⟩
    | other hcomparison => cases hcomparison

/-- **The outcome of a comparison is one that the visit goes on with.** -/
theorem exists_fork (h : f.Fits env) (ha : left.Allows env a) (hb : right.Allows env b) {operator : BinaryOperator}
    (hoperator : operator ≠ .instanceOf) {relation : Value}
    (hrelation : left.compare? right operator false = some relation) {outcome : Bool}
    (hcomputes : Computes (some operator) a.value b.value (.boolean outcome)) :
    ∃ r : Frame, ⟨i.index + 1, r.push (.boolean outcome)⟩ ∈ (fork c i operator f left right relation).next ∧
      r.Fits env ∧ r.stack = f.stack ∧
      (if outcome then (fork c i operator f left right relation).observation.canBeTrue
        else (fork c i operator f left right relation).observation.canBeFalse) = true := by
  obtain ⟨kind, negated, v, w, x, y, rfl, hx, hy, htrue, hpair⟩ :=
    Value.isTrue_of_compare? hrelation hoperator ha hb hcomputes
  obtain ⟨r, hr, hfits, hstack⟩ := exists_follow (c := c) h ha hb hx hy hpair htrue
  -- the relation is followed if the outcome is true, and its opposite if not
  refine ⟨r.1, ?_, hfits, hstack, ?_⟩
  · simp only [fork, Value.negate, List.mem_append, Option.mem_toList, Option.map_eq_some_iff]
    cases outcome with
    | true =>
      rw [Bool.not_true, Bool.xor_false] at hr
      exact Or.inl ⟨r, hr, rfl⟩
    | false =>
      rw [Bool.not_false, Bool.xor_true, Bool.not_not] at hr
      exact Or.inr ⟨r, hr, rfl⟩
  · cases outcome with
    | true =>
      rw [Bool.not_true, Bool.xor_false] at hr
      show (follow c f (.relation kind negated v w) (!negated) left right).isSome = true
      rw [hr]
      rfl
    | false =>
      rw [Bool.not_false, Bool.xor_true, Bool.not_not] at hr
      show (follow c f (.relation kind (!negated) v w) negated left right).isSome = true
      rw [hr]
      rfl

end Visit

end NullCheck
