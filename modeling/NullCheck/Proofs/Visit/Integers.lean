import NullCheck.Proofs.Machine.Comparison
import NullCheck.Proofs.Visit.NotANumber
import NullCheck.Proofs.Visit.Operands
import NullCheck.Proofs.Visit.Outcomes

/-!
# Comparisons of known integers

A comparison is tracked by a relation, and the relation and its opposite are both tried. If both operands are known to
be integers, one of the two is refused and the other one passes, as the operator says. The relation may be negated, and
the operands may be exchanged; and they may share a class, lie in two, or not lie in any yet.

## The architecture

* **`BinaryOperator.decides`**: what an operator says of two integers.
* **`RelationKind.IsTrue.not_opposite`**: of a relation and its opposite not both are true.
* **`Frame.holds_applyEquality_iff_of_constant?`**: an equality of known constants holds just if they are one.
* **`Frame.holds_applyRelation_iff`**: a relation of known integers holds just if it is true of them.
* **`Visit.Decides`**: a visit goes on with one outcome only, and observes only that one; **`Visit.decides_fork`**: so
  does a comparison of which just one side holds.
* **`decides_comparison`**: the headline.
-/

namespace NullCheck

/-! ## Operators -/

/-- Whether an operator holds of two integers. -/
def BinaryOperator.decides (operator : BinaryOperator) (a b : Int) : Bool :=
  match operator with
  | .eq => a = b
  | .ne => a ≠ b
  | .lt => a < b
  | .le => a ≤ b
  | .gt => b < a
  | .ge => b ≤ a
  | _ => false

theorem computes_integers {operator : BinaryOperator} (hcomparison : operator.isComparison = true) (a b : Int) :
    Computes (some operator) (.integer a) (.integer b) (.boolean (operator.decides a b)) := by
  have hsame : Datum.integer a = Datum.integer b ↔ a = b := by simp [Datum.integer]
  cases operator with
  | eq => simpa only [BinaryOperator.decides, hsame] using Computes.eq (.integer a) (.integer b)
  | ne => simpa only [BinaryOperator.decides, ne_eq, hsame] using Computes.ne (.integer a) (.integer b)
  | lt => exact .lt a b
  | le => exact .le a b
  | gt => exact .gt a b
  | ge => exact .ge a b
  | _ => cases hcomparison

/-- A relation and its opposite are not both true. -/
theorem RelationKind.IsTrue.not_opposite {kind : RelationKind} {negated : Bool} {x y : Datum}
    (h : kind.IsTrue negated x y) : ¬kind.IsTrue (!negated) x y := by
  have hflag : ¬(negated = false ↔ (!negated) = false) := by cases negated <;> decide
  intro hopposite
  cases kind with
  | eq => exact hflag (h.symm.trans hopposite)
  | lt =>
    obtain ⟨i, j, rfl, rfl, hij⟩ := h
    obtain ⟨_, _, hi, hj, hopposite⟩ := hopposite
    cases hi
    cases hj
    exact hflag (hij.symm.trans hopposite)
  | gt =>
    obtain ⟨i, j, rfl, rfl, hij⟩ := h
    obtain ⟨_, _, hi, hj, hopposite⟩ := hopposite
    cases hi
    cases hj
    exact hflag (hij.symm.trans hopposite)
  | instanceOf => exact h

namespace Frame

variable {f : Frame} {s : Scope} {v w : Value} {a b : Int}

section Constants

variable {k l : Constant} (hf : f.partition.WellFormed) (hv : f.constant? v = some (.constant k))
  (hw : f.constant? w = some (.constant l))
include hf hv hw

/-- Under every valuation known constants are what they are known to be, so they are equal just if they are one. -/
theorem eq_iff_of_constant? {σ : Valuation ℕ} (hσ : σ.Satisfies f.partition) : σ v = σ w ↔ k = l := by
  have hleft := hf.alike_iff.mp ((constant?_eq_some_iff hf).mp hv).2 σ hσ
  have hright := hf.alike_iff.mp ((constant?_eq_some_iff hf).mp hw).2 σ hσ
  rw [hleft, hright]
  constructor
  · intro heq
    have hconstants := Valuation.eq_of_isConstant (v := .constant k) (w := .constant l) rfl rfl heq
    exact Value.constant.inj hconstants
  · rintro rfl
    rfl

/-- **An equality of known constants holds just if they are one.** -/
theorem holds_applyEquality_iff_of_constant? (negated : Bool) :
    (f.applyEquality v w negated).holds = true ↔ (k = l ↔ negated = false) := by
  obtain ⟨σ, hσ, -⟩ := hf.exists_separating ℕ
  have hl : v.isAtom = true := hf.isAtom_of_alike ((constant?_eq_some_iff hf).mp hv).2 rfl
  have hr : w.isAtom = true := hf.isAtom_of_alike ((constant?_eq_some_iff hf).mp hw).2 rfl
  -- each valuation gives the sides the values of their constants
  have hfulfils : ∀ σ : Valuation ℕ, σ.Satisfies f.partition → (σ.Fulfils negated v w ↔ (k = l ↔ negated = false)) := by
    intro σ hσ
    have heq := eq_iff_of_constant? hf hv hw hσ
    cases negated <;> simp [Valuation.Fulfils, heq]
  rw [applyEquality_holds_iff (V := ℕ) hf hl hr]
  constructor
  · rintro ⟨σ', hσ', htrue⟩
    exact (hfulfils σ' hσ').mp htrue
  · intro htrue
    exact ⟨σ, hσ, (hfulfils σ hσ).mpr htrue⟩

end Constants

section Integers

variable (hf : f.partition.WellFormed) (hv : f.constant? v = some (.constant (.integer a)))
  (hw : f.constant? w = some (.constant (.integer b)))
include hf hv hw

/-- **A relation of known integers holds just if it is true of them,** whether they are in one class, in two, or in
none. -/
theorem holds_applyRelation_iff {kind : RelationKind} (hkind : kind ≠ .instanceOf) (negated : Bool) :
    (f.applyRelation s kind negated v w).holds = true ↔ kind.IsTrue negated (.integer a) (.integer b) := by
  obtain ⟨σ, hσ, -⟩ := hf.exists_separating ℕ
  have hordering : ∀ kind, kind = .lt ∨ kind = .gt → ((f.applyOrdering kind negated v w).holds = true ↔
      kind.IsTrue negated (.integer a) (.integer b)) := by
    intro kind hkind
    rw [holds_applyOrdering_iff hf, hv, hw]
    by_cases hsame : f.partition.Same v w
    · -- in one class there is one constant, and it is not before or behind itself
      obtain rfl := Constant.integer.inj ((eq_iff_of_constant? hf hv hw hσ).mp (hσ.same hsame))
      rcases hkind with rfl | rfl <;> simp [hsame, RelationKind.IsTrue, Datum.integer]
    · rcases hkind with rfl | rfl <;> cases negated <;> simp [hsame, ordered, RelationKind.IsTrue, Datum.integer]
  cases kind with
  | eq =>
    show (f.applyEquality v w negated).holds = true ↔ _
    rw [holds_applyEquality_iff_of_constant? hf hv hw, Constant.integer.injEq]
    simp [RelationKind.IsTrue, Datum.integer]
  | lt => exact hordering .lt (Or.inl rfl)
  | gt => exact hordering .gt (Or.inr rfl)
  | instanceOf => exact absurd rfl hkind

end Integers

end Frame

namespace Visit

variable {c : Context} {i : Instruction} {f : Frame} {left right v w : Value} {kind : RelationKind}
  {operator : BinaryOperator} {negated outcome : Bool}

/-- A visit goes on in one place, with one outcome on top of the stack, observes no other outcome, and counts the other
one as ruled out. -/
structure Decides (v : Visit) (index : Nat) (stack : List Value) (outcome : Bool) : Prop where
  next : ∃ g : Frame, v.next = [⟨index, g⟩] ∧ g.stack = .boolean outcome :: stack
  reached : v.observation.reached = true
  observes : ∀ b, v.observation.has b = true ↔ b = outcome
  pruned : v.pruned = 1
  forks : v.forks = 0

/-! ## What is followed -/

theorem stack_shareNotNull (c : Context) (f : Frame) (left right : Value) :
    (shareNotNull c f left right).1.stack = f.stack := by
  obtain heq | ⟨other, condition, -, hcompare, heq⟩ := shareNotNull_cases c f left right
  · rw [heq]
  · rw [heq, Value.eq_of_compare?_null hcompare]
    exact Frame.stack_applyEquality f other .null true

/-- A comparison leaves the stack alone. -/
theorem stack_applyRelation (f : Frame) (s : Scope) (hkind : kind ≠ .instanceOf) (negated : Bool) (v w : Value) :
    (f.applyRelation s kind negated v w).frame.stack = f.stack := by
  cases kind with
  | eq => exact Frame.stack_applyEquality f v w negated
  | lt => exact congrArg Frame.stack (Frame.frame_applyOrdering f .lt negated v w)
  | gt => exact congrArg Frame.stack (Frame.frame_applyOrdering f .gt negated v w)
  | instanceOf => exact absurd rfl hkind

/-- An outcome of which the relation holds is followed, with the stack as it was. -/
theorem exists_follow_of_holds (hkind : kind ≠ .instanceOf)
    (hholds : (f.applyRelation c.scope kind negated v w).holds = true) (equal : Bool) (left right : Value) :
    ∃ r, follow c f (.relation kind negated v w) equal left right = some r ∧ r.1.stack = f.stack := by
  have hstack := stack_applyRelation f c.scope hkind negated v w
  have happly : f.applyCondition c.scope (.relation kind negated v w) = f.applyRelation c.scope kind negated v w := rfl
  unfold follow
  simp only [happly, if_pos hholds, Option.some.injEq, exists_eq_left']
  split
  · rw [stack_shareNotNull, hstack]
  · exact hstack

theorem follow_of_not_holds (hholds : ¬(f.applyRelation c.scope kind negated v w).holds = true) (equal : Bool)
    (left right : Value) : follow c f (.relation kind negated v w) equal left right = none := if_neg hholds

/-- **A comparison of which just one side holds is decided.** -/
theorem decides_fork (hkind : kind ≠ .instanceOf)
    (hholds : (f.applyRelation c.scope kind (negated ^^ !outcome) v w).holds = true)
    (hopposite : ¬(f.applyRelation c.scope kind (!(negated ^^ !outcome)) v w).holds = true) :
    (fork c i operator f left right (.relation kind negated v w)).Decides (i.index + 1) f.stack outcome := by
  cases outcome with
  | true =>
    rw [Bool.not_true, Bool.xor_false] at hholds hopposite
    obtain ⟨r, hyes, hstack⟩ := exists_follow_of_holds hkind hholds (!negated) left right
    have hno := follow_of_not_holds hopposite negated left right
    unfold fork
    simp only [Value.negate, hyes, hno]
    exact ⟨⟨_, rfl, congrArg _ hstack⟩, rfl, fun b => by cases b <;> simp [Observation.has], rfl, rfl⟩
  | false =>
    rw [Bool.not_false, Bool.xor_true] at hholds
    rw [Bool.not_false, Bool.xor_true, Bool.not_not] at hopposite
    obtain ⟨r, hno, hstack⟩ := exists_follow_of_holds hkind hholds negated left right
    have hyes := follow_of_not_holds hopposite (!negated) left right
    unfold fork
    simp only [Value.negate, hyes, hno]
    exact ⟨⟨_, rfl, congrArg _ hstack⟩, rfl, fun b => by cases b <;> simp [Observation.has], rfl, rfl⟩

end Visit

/-! ## The headline -/

section Headline

variable {c : Context} {i : Instruction} {f : Frame} {operator : BinaryOperator} {a b : Int}

/-- **Comparisons of known integers are decided exactly.** Let a comparison be visited in a reachable frame that knows
both operands to be integers and none of them to be NaN, and let one of them be a variable or a coercion. Then the visit
goes on in one place, with what the operator says of the integers on top of the stack, observes just this outcome, and
counts the other one as ruled out. -/
theorem decides_comparison (hf : f.Reachable c.scope) (hoperation : i.operation = .binop (some operator))
    (hcomparison : operator.isComparison = true) (hleft : f.constant? (f.operand 1) = some (.constant (.integer a)))
    (hright : f.constant? (f.operand 0) = some (.constant (.integer b))) (hleftNaN : f.canBeNaN (f.operand 1) = false)
    (hrightNaN : f.canBeNaN (f.operand 0) = false)
    (htracked : (f.operand 1).isTracked = true ∨ (f.operand 0).isTracked = true) :
    (visit c i f).Decides (i.index + 1) (f.stack.drop 2) (operator.decides a b) := by
  obtain ⟨relation, hrelation, hbinop⟩ := Visit.binop_of_tracked (c := c) (i := i) hcomparison htracked
  rw [hleftNaN, hrightNaN, Bool.false_or] at hrelation
  obtain ⟨kind, flip, hcanonical, hcases⟩ := Value.exists_of_compare? hrelation
  have hinstanceOf : operator ≠ .instanceOf := by
    rintro rfl
    cases hcomparison
  have hkind : kind ≠ .instanceOf := by
    rintro rfl
    exact hinstanceOf (Value.eq_instanceOf_of_canonical? hcanonical)
  -- what the operator computes is what its canonical form says
  have htrue := Value.true_of_canonical? hcanonical (computes_integers hcomparison a b) hinstanceOf
  rw [show visit c i f = Visit.binop c i (some operator) f by simp only [visit, hoperation], hbinop,
    ← Visit.stack_pop_pop]
  have hwellFormed : f.pop.2.pop.2.partition.WellFormed := hf.wellFormed
  rw [Bool.false_xor] at hcases
  rcases hcases with rfl | ⟨-, rfl⟩
  · have hholds := Frame.holds_applyRelation_iff (f := f.pop.2.pop.2) (s := c.scope) hwellFormed hleft hright hkind
    exact Visit.decides_fork hkind ((hholds _).mpr htrue) fun h => htrue.not_opposite ((hholds _).mp h)
  · -- the sides were exchanged, and the comparison with them
    have hflipped : kind.flipped ≠ .instanceOf := by cases kind <;> first | decide | exact absurd rfl hkind
    have hholds := Frame.holds_applyRelation_iff (f := f.pop.2.pop.2) (s := c.scope) hwellFormed hright hleft hflipped
    exact Visit.decides_fork hflipped ((hholds _).mpr htrue.flipped) fun h =>
      htrue.flipped.not_opposite ((hholds _).mp h)

end Headline

/-- A variable that was assigned 5 is compared to 7: the literal stands on the left, and has no class yet. -/
theorem decides_comparison_of_literal :
    let c : Context := ⟨⟨"m", none, [⟨"x", .primitive .int, .local, false, []⟩], [], []⟩, .empty,
      AnalysisConfig.standard.resolver, .empty⟩
    let i : Instruction := ⟨0, none, .binop (some .le)⟩
    let x := Value.var 0 false
    let f := ((Frame.empty.assign c.scope x (.constant (.integer 5))).push (.constant (.integer 7))).push x
    f.Reachable c.scope ∧ f.constant? (f.operand 1) = some (.constant (.integer 7)) ∧
      f.constant? (f.operand 0) = some (.constant (.integer 5)) ∧ (visit c i f).Decides 1 [] false := by
  intro c i x f
  have hf : f.Reachable c.scope := ((Frame.Reachable.empty.assign _ _).push _).push _
  have hleft : f.constant? (f.operand 1) = some (.constant (.integer 7)) := by decide
  have hright : f.constant? (f.operand 0) = some (.constant (.integer 5)) := by decide
  have hdecided : (visit c i f).Decides (i.index + 1) (f.stack.drop 2) (BinaryOperator.le.decides 7 5) :=
    decides_comparison hf rfl rfl hleft hright (by decide) (by decide) (Or.inr rfl)
  exact ⟨hf, hleft, hright, hdecided⟩

end NullCheck
