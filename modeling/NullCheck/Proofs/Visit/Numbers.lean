import Mathlib.Tactic.NormNum
import NullCheck.Proofs.Decimal.Binary
import NullCheck.Proofs.Visit.Integers

/-!
# Equalities of numbers

Constants are compared by what they are, and not by what they denote. A number that two constants denote is therefore
not always equal to itself: it is not if one of them is an integer and the other one a floating point number, or if they
are floating point numbers of two formats, or if they are zeros of both signs. Apart from that the bits tell the number,
so that a comparison of two finite numbers of one format is decided as arithmetic decides it. It does not matter whether
the constants are literals, which are compared at once, or what variables are known to be, which is compared in classes.

## The architecture

* **`Constant.number?`**: the number that a constant denotes.
* **`Constant.eq_iff_of_number?`**: which numeric constants are one.
* **`Frame.canBeNaN_eq_false_of_number?`**: what is known to be a number is not taken for NaN.
* **`Visit.Settles`**: a visit goes on with one outcome only, and observes only that one.
* **`settles_equality_of_numbers`**: the headline.
* **`number_differs_from_itself`**: numbers that are found to differ from themselves.
-/

namespace NullCheck

namespace Constant

variable {k l : Constant} {x y : ℚ}

/-- The number that a constant denotes, if it is a number, and finite. -/
def number? : Constant → Option ℚ
  | .integer i => some i
  | k => k.binary?.bind BinaryNumber.value?

/-- The format of a floating point constant. -/
def format? : Constant → Option BinaryFormat
  | .float _ => some .single
  | .double _ => some .double
  | _ => none

def isNegativeZero (k : Constant) : Bool := k.binary?.any BinaryNumber.isNegativeZero

/-- The rational value of a double that is finite. -/
theorem number?_double {bits : UInt64} (negative : Bool) (m : Nat) (e : Int)
    (h : BinaryFormat.double.decode bits.toNat = .finite negative m e) :
    (Constant.double bits).number? = some ((if negative then -1 else 1) * (m * 2 ^ e) : ℚ) := by
  show (BinaryFormat.double.decode bits.toNat).value? = _
  rw [h]
  rfl

/-- A constant with a rational value is not NaN. -/
theorem isNaN_eq_false_of_number? (h : k.number? = some x) : k.isNaN = false := by
  have hbinary : ∀ n : BinaryNumber, n.value? = some x → n.isNaN = false := by
    intro n hn
    obtain ⟨negative, m, e, rfl, -⟩ := BinaryNumber.exists_of_value? hn
    rfl
  cases k with
  | float bits => exact hbinary _ h
  | double bits => exact hbinary _ h
  | _ => rfl

/-- **Constants that denote numbers are one just if it is one number, in one format, and not zeros of both signs.** -/
theorem eq_iff_of_number? (hk : k.number? = some x) (hl : l.number? = some y) :
    k = l ↔ x = y ∧ k.format? = l.format? ∧ k.isNegativeZero = l.isNegativeZero := by
  constructor
  · rintro rfl
    exact ⟨Option.some.inj (hk.symm.trans hl), rfl, rfl⟩
  · rintro ⟨rfl, hformat, hsign⟩
    cases k with
    | integer i =>
      cases l with
      | integer j =>
        have hij : (i : ℚ) = j := Option.some.inj (hk.trans hl.symm)
        rw [Int.cast_injective hij]
      | float | double => cases hformat
      | _ => cases hl
    | float bits =>
      cases l with
      | float bits' =>
        -- within a format the value and the sign determine the bits
        have hbits : bits.toNat = bits'.toNat :=
          (BinaryFormat.eq_iff_of_value? (f := .single) bits.toNat_lt bits'.toNat_lt hk hl).mpr ⟨rfl, hsign⟩
        rw [UInt32.toNat_inj.mp hbits]
      | integer | double => cases hformat
      | _ => cases hl
    | double bits =>
      cases l with
      | double bits' =>
        have hbits : bits.toNat = bits'.toNat :=
          (BinaryFormat.eq_iff_of_value? (f := .double) bits.toNat_lt bits'.toNat_lt hk hl).mpr ⟨rfl, hsign⟩
        rw [UInt64.toNat_inj.mp hbits]
      | integer | float => cases hformat
      | _ => cases hl
    | _ => cases hk

end Constant

/-- What is known to be a number is not taken for NaN: a class has one constant. -/
theorem Frame.canBeNaN_eq_false_of_number? {f : Frame} {v : Value} {k : Constant} {x : ℚ}
    (hf : f.partition.WellFormed) (hv : v.IsOperand) (hconstant : f.constant? v = some (.constant k))
    (hk : k.number? = some x) : f.canBeNaN v = false := by
  have hnumber : k.isNaN = false := Constant.isNaN_eq_false_of_number? hk
  cases hv with
  | constant l =>
    obtain rfl : l = k := Value.constant.inj (Option.some.inj hconstant)
    exact hnumber
  | var id m =>
    rw [← Bool.not_eq_true]
    intro hnan
    obtain ⟨a, ha, hany⟩ := (Option.any_eq_true _ _).mp hnan
    obtain ⟨w, hw, hwnan⟩ := List.any_eq_true.mp hany
    cases w with
    | constant l =>
      -- the class has one constant, and it is a number
      have halike : f.partition.Alike (.var id m) (.constant l) := Or.inr ⟨a, Partition.mem_members_of_slot? ha, hw⟩
      have hsame : f.constant? (.var id m) = some (.constant l) := (constant?_eq_some_iff hf).mpr ⟨rfl, halike⟩
      obtain rfl : l = k := Value.constant.inj (Option.some.inj (hsame.symm.trans hconstant))
      rw [show l.isNaN = true from hwnan] at hnumber
      cases hnumber
    | _ => cases hwnan

theorem Observation.has_outcome (outcome b : Bool) : (Observation.outcome outcome).has b = true ↔ b = outcome := by
  cases outcome <;> cases b <;> decide

namespace Visit

variable {c : Context} {i : Instruction} {f : Frame} {k l : Constant}

/-- A visit goes on in one place, with one outcome on top of the stack, and observes no other outcome. -/
structure Settles (v : Visit) (index : Nat) (stack : List Value) (outcome : Bool) : Prop where
  next : ∃ g : Frame, v.next = [⟨index, g⟩] ∧ g.stack = .boolean outcome :: stack
  observes : ∀ b, v.observation.has b = true ↔ b = outcome

theorem Decides.settles {v : Visit} {index : Nat} {stack : List Value} {outcome : Bool}
    (h : v.Decides index stack outcome) : v.Settles index stack outcome := ⟨h.next, h.observes⟩

/-- An equality of known constants is settled in their classes if one of them is tracked. -/
theorem decides_equality_of_tracked (hf : f.partition.WellFormed)
    (hleft : f.constant? (f.operand 1) = some (.constant k)) (hright : f.constant? (f.operand 0) = some (.constant l))
    (hknown : (f.canBeNaN (f.operand 1) || f.canBeNaN (f.operand 0)) = false)
    (htracked : (f.operand 1).isTracked = true ∨ (f.operand 0).isTracked = true) :
    (binop c i (some .eq) f).Decides (i.index + 1) (f.stack.drop 2) (decide (k = l)) := by
  have hcomparison : BinaryOperator.eq.isComparison = true := rfl
  obtain ⟨relation, hrelation, hbinop⟩ := binop_of_tracked (c := c) (i := i) hcomparison htracked
  rw [hknown] at hrelation
  obtain ⟨kind, flip, hcanonical, hcases⟩ := Value.exists_of_compare? hrelation
  cases hcanonical
  rw [hbinop, ← stack_pop_pop]
  have hwellFormed : f.pop.2.pop.2.partition.WellFormed := hf
  rcases hcases with rfl | ⟨-, rfl⟩
  · have hholds := Frame.holds_applyEquality_iff_of_constant? (f := f.pop.2.pop.2) hwellFormed hleft hright
    refine decides_fork (by decide) ((hholds _).mpr ?_) fun h => ?_
    · simp
    · simpa using (hholds _).mp h
  · have hholds := Frame.holds_applyEquality_iff_of_constant? (f := f.pop.2.pop.2) hwellFormed hright hleft
    -- the right side is tracked and the left one is not, so they were exchanged
    have hcomm : decide (k = l) = decide (l = k) := decide_eq_decide.mpr eq_comm
    rw [hcomm]
    refine decides_fork (by decide) ((hholds _).mpr ?_) fun h => ?_
    · simp
    · simpa using (hholds _).mp h

/-- An equality of literals is settled at once. -/
theorem settles_equality_of_literals (hleft : f.operand 1 = .constant k) (hright : f.operand 0 = .constant l)
    (hknown : (f.canBeNaN (f.operand 1) || f.canBeNaN (f.operand 0)) = false) :
    (binop c i (some .eq) f).Settles (i.index + 1) (f.stack.drop 2) (decide (k = l)) := by
  have hrest : ∀ v, f.pop.2.pop.2.canBeNaN v = f.canBeNaN v := canBeNaN_congr rfl
  have houtcome : (decide (f.operand 1 = f.operand 0) ^^ (decide (BinaryOperator.eq = .ne) ^^
      (f.pop.2.pop.2.canBeNaN (f.operand 1) || f.pop.2.pop.2.canBeNaN (f.operand 0)))) = decide (k = l) := by
    rw [hrest, hrest, hknown, hleft, hright]
    simp
  rw [binop_of_constants (Or.inl rfl) (by rw [hleft]; rfl) (by rw [hright]; rfl)]
  unfold compareConstants
  simp only [houtcome]
  exact ⟨⟨_, rfl, congrArg _ (stack_pop_pop f)⟩, Observation.has_outcome _⟩

end Visit

/-! ## The headline -/

section Headline

variable {c : Context} {i : Instruction} {f : Frame} {k l : Constant} {x y : ℚ}

/-- **Equalities of numbers are settled by number, format and sign of zero.** Let an equality be visited, and let the
frame know for which numeric constants its operands stand, be they literals or variables. Then the visit goes on with
one outcome only, which is `true` just if the constants denote one number, in one format, and are not zeros of both
signs; so it is `false` for different numbers. -/
theorem settles_equality_of_numbers (hf : f.partition.WellFormed) (hoperation : i.operation = .binop (some .eq))
    (hleftOperand : (f.operand 1).IsOperand) (hrightOperand : (f.operand 0).IsOperand)
    (hleft : f.constant? (f.operand 1) = some (.constant k)) (hright : f.constant? (f.operand 0) = some (.constant l))
    (hk : k.number? = some x) (hl : l.number? = some y) :
    (visit c i f).Settles (i.index + 1) (f.stack.drop 2)
      (decide (x = y ∧ k.format? = l.format? ∧ k.isNegativeZero = l.isNegativeZero)) := by
  have hknown : (f.canBeNaN (f.operand 1) || f.canBeNaN (f.operand 0)) = false := by
    rw [Frame.canBeNaN_eq_false_of_number? hf hleftOperand hleft hk,
      Frame.canBeNaN_eq_false_of_number? hf hrightOperand hright hl, Bool.false_or]
  rw [show visit c i f = Visit.binop c i (some .eq) f by simp only [visit, hoperation],
    ← decide_eq_decide.mpr (Constant.eq_iff_of_number? hk hl)]
  by_cases htracked : (f.operand 1).isTracked = true ∨ (f.operand 0).isTracked = true
  · exact (Visit.decides_equality_of_tracked hf hleft hright hknown htracked).settles
  · -- what is not tracked are the constants themselves
    obtain ⟨hleftConstant, hrightConstant⟩ := Visit.isConstant_of_not_tracked hleftOperand hrightOperand htracked
    have hleftSelf : f.operand 1 = .constant k := by
      rw [Frame.constant?, if_pos hleftConstant] at hleft
      exact Option.some.inj hleft
    have hrightSelf : f.operand 0 = .constant l := by
      rw [Frame.constant?, if_pos hrightConstant] at hright
      exact Option.some.inj hright
    exact Visit.settles_equality_of_literals hleftSelf hrightSelf hknown

end Headline

/-- A variable that was assigned 0.5 is equal to the literal 0.5. -/
theorem settles_equality_of_half :
    let c : Context := ⟨⟨"m", none, [⟨"x", .primitive .double, .local, false, []⟩], [], []⟩, .empty,
      AnalysisConfig.standard.resolver, .empty⟩
    let i : Instruction := ⟨0, none, .binop (some .eq)⟩
    let half : Constant := .double 0x3FE0000000000000
    let x := Value.var 0 false
    let f := ((Frame.empty.assign c.scope x (.constant half)).push x).push (.constant half)
    f.partition.WellFormed ∧ f.constant? x = some (.constant half) ∧ half.number? = some (1 / 2) ∧
      (visit c i f).Settles 1 [] true := by
  intro c i half x f
  have hf : f.partition.WellFormed := Frame.assign_wellFormed Partition.WellFormed.empty _ _
  have hx : f.constant? x = some (.constant half) := by decide
  have hhalf : half.number? = some (1 / 2) :=
    (Constant.number?_double false (2 ^ 52) (-53) (by decide)).trans (by norm_num)
  have hsettled : (visit c i f).Settles (i.index + 1) (f.stack.drop 2)
      (decide ((1 / 2 : ℚ) = 1 / 2 ∧ half.format? = half.format? ∧ half.isNegativeZero = half.isNegativeZero)) :=
    settles_equality_of_numbers hf rfl (.var 0 false) (.constant half) hx rfl hhalf hhalf
  rw [decide_eq_true (⟨rfl, rfl, rfl⟩ : _ ∧ _ ∧ _)] at hsettled
  exact ⟨hf, hx, hhalf, hsettled⟩

/-- **Numbers that are not equal to themselves:** zero, with both signs, and one, as an integer and as a floating point
number; be they literals, or what a variable was assigned. -/
theorem number_differs_from_itself :
    let c : Context := ⟨⟨"m", none, [⟨"x", .primitive .double, .local, false, []⟩], [], []⟩, .empty,
      AnalysisConfig.standard.resolver, .empty⟩
    let i : Instruction := ⟨2, none, .binop (some .eq)⟩
    let zero : Constant := .double 0
    let negativeZero : Constant := .double 0x8000000000000000
    let one : Constant := .integer 1
    let float : Constant := .double 0x3FF0000000000000
    let x := Value.var 0 false
    let f := Frame.empty.assign c.scope x (.constant zero)
    zero.number? = some 0 ∧ negativeZero.number? = some 0 ∧ one.number? = some 1 ∧ float.number? = some 1 ∧
      (visit c i (.comparing (.constant zero) (.constant negativeZero))).next =
        [⟨3, Frame.empty.push (.boolean false)⟩] ∧
      (visit c i (.comparing (.constant one) (.constant float))).next = [⟨3, Frame.empty.push (.boolean false)⟩] ∧
      f.constant? x = some (.constant zero) ∧
      (visit c i ((f.push x).push (.constant negativeZero))).next.map (fun q => q.frame.stack) =
        [[.boolean false]] := by
  refine ⟨?_, ?_, ?_, ?_, by decide, by decide, by decide, by decide⟩
  · exact (Constant.number?_double false 0 (-1074) (by decide)).trans (by norm_num)
  · exact (Constant.number?_double true 0 (-1074) (by decide)).trans (by norm_num)
  · exact congrArg some Int.cast_one
  · exact (Constant.number?_double false (2 ^ 52) (-52) (by decide)).trans (by norm_num)

end NullCheck
