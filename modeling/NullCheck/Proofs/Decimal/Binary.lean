import Mathlib.Algebra.Order.Field.Power
import Mathlib.Algebra.Order.Field.Rat
import Mathlib.Data.Rat.Cast.Order
import Mathlib.Tactic.Linarith
import Mathlib.Tactic.Positivity
import Mathlib.Tactic.Ring
import NullCheck.Decimal.Binary

/-!
# The number that a bit pattern denotes

A finite bit pattern denotes a rational number. Except for zero, which has a pattern for either sign, no number has two
patterns in one format: of two patterns the one with the larger exponent field has the larger magnitude, whatever the
fractions are, so that the number tells the exponent, and with it all the bits.

## The architecture

* **`BinaryNumber.value?`**: the rational number that is denoted.
* **`BinaryFormat.exists_of_decode`**: the bits, put together again from what was read.
* **`BinaryFormat.magnitude_lt`**: a larger exponent field makes a larger number.
* **`BinaryFormat.eq_iff_of_value?`**: patterns are one just if they denote one number, and not zeros of both signs.
-/

namespace NullCheck

namespace BinaryNumber

/-- The number that is denoted, if it is one. -/
def value? : BinaryNumber → Option ℚ
  | .finite negative m e => some ((if negative then -1 else 1) * (m * 2 ^ e))
  | _ => none

def isNegativeZero : BinaryNumber → Bool
  | .finite negative m _ => negative && m == 0
  | _ => false

theorem exists_of_value? {n : BinaryNumber} {x : ℚ} (h : n.value? = some x) :
    ∃ negative m e, n = .finite negative m e ∧ x = (if negative then -1 else 1) * (m * 2 ^ e) := by
  cases n with
  | finite negative m e => exact ⟨negative, m, e, rfl, (Option.some.inj h).symm⟩
  | _ => cases h

/-- Numbers with a sign are equal just if their magnitudes are, and their signs unless they are zero. -/
theorem signed_eq_iff {x y : ℚ} (hx : 0 ≤ x) (hy : 0 ≤ y) (s t : Bool) :
    (if s then -1 else 1) * x = (if t then -1 else 1) * y ↔ x = y ∧ (x = 0 ∨ s = t) := by
  -- numbers that are not negative are opposite only if both are zero
  have hopposite : ∀ {x y : ℚ}, 0 ≤ x → 0 ≤ y → (-x = y ↔ x = y ∧ x = 0) := by
    intro x y hx hy
    constructor
    · intro h
      have hzero : x = 0 := by linarith
      exact ⟨by linarith, hzero⟩
    · rintro ⟨rfl, rfl⟩
      exact neg_zero
  cases s <;> cases t
  · simp
  · have hflipped : x = -y ↔ x = y ∧ x = 0 := by
      rw [eq_comm, hopposite hy hx, eq_comm]
      exact and_congr_right fun h => by rw [h]
    simpa using hflipped
  · simpa using hopposite hx hy
  · simp

end BinaryNumber

namespace BinaryFormat

variable {f : BinaryFormat} {field field' fraction fraction' : Nat}

/-- How many bits a pattern has: the fraction, the exponent and a sign. -/
def width (f : BinaryFormat) : Nat := f.fractionBits + f.exponentBits + 1

/-- The mantissa: the fraction, with a hidden leading bit unless the exponent field is zero. -/
def mantissa (f : BinaryFormat) (field fraction : Nat) : Nat :=
  fraction + if field = 0 then 0 else 2 ^ f.fractionBits

/-- **The bits of a finite number, put together again from what was read.** The fields 0 and 1 share an exponent. -/
theorem exists_of_decode {bits m : Nat} {negative : Bool} {e : Int} (hbits : bits < 2 ^ f.width)
    (h : f.decode bits = .finite negative m e) :
    ∃ field fraction, fraction < 2 ^ f.fractionBits ∧
      bits = fraction + 2 ^ f.fractionBits * (field + 2 ^ f.exponentBits * negative.toNat) ∧
      m = f.mantissa field fraction ∧ e = f.leastExponent + (field - 1 : ℕ) := by
  -- the fields are digits of the word: fraction, exponent and a sign that is one bit
  have hsign : bits / 2 ^ f.fractionBits / 2 ^ f.exponentBits < 2 := by
    rw [Nat.div_div_eq_div_mul, ← pow_add]
    apply Nat.div_lt_of_lt_mul
    rwa [← pow_succ]
  have hbits : bits = bits % 2 ^ f.fractionBits + 2 ^ f.fractionBits * (bits / 2 ^ f.fractionBits % 2 ^ f.exponentBits +
      2 ^ f.exponentBits * (bits / 2 ^ f.fractionBits / 2 ^ f.exponentBits)) := by
    rw [Nat.mod_add_div, Nat.mod_add_div]
  have hnegative : (bits / 2 ^ (f.fractionBits + f.exponentBits) % 2 == 1).toNat =
      bits / 2 ^ f.fractionBits / 2 ^ f.exponentBits := by
    rw [pow_add, ← Nat.div_div_eq_div_mul, Nat.mod_eq_of_lt hsign]
    generalize bits / 2 ^ f.fractionBits / 2 ^ f.exponentBits = sign at hsign
    obtain rfl | rfl : sign = 0 ∨ sign = 1 := by omega
    · rfl
    · rfl
  refine ⟨bits / 2 ^ f.fractionBits % 2 ^ f.exponentBits, bits % 2 ^ f.fractionBits, Nat.mod_lt _ (by positivity), ?_⟩
  unfold decode at h
  simp only [Nat.pow_eq] at h
  split at h
  · split at h <;> cases h
  · split at h
    · -- a subnormal number has the least exponent
      rename_i hfield
      cases h
      rw [hnegative]
      exact ⟨hbits, by simp [mantissa, hfield], by simp [hfield]⟩
    · -- a normal one has its own exponent, and a leading one
      rename_i hfield
      cases h
      rw [hnegative]
      exact ⟨hbits, by simp [mantissa, hfield], by push_cast [Nat.one_le_iff_ne_zero.mpr hfield]; rfl⟩

/-- **A larger exponent field makes a larger number,** whatever the fractions are. -/
theorem magnitude_lt (hfield : field < field') (hfraction : fraction < 2 ^ f.fractionBits) :
    f.mantissa field fraction * 2 ^ (field - 1) < f.mantissa field' fraction' * 2 ^ (field' - 1) := by
  have hleast : 2 ^ f.fractionBits * 2 ^ (field' - 1) ≤ f.mantissa field' fraction' * 2 ^ (field' - 1) := by
    apply Nat.mul_le_mul_right
    rw [mantissa, if_neg (by omega)]
    exact Nat.le_add_left _ _
  refine lt_of_lt_of_le ?_ hleast
  by_cases hzero : field = 0
  · calc f.mantissa field fraction * 2 ^ (field - 1) = fraction := by simp [mantissa, hzero]
      _ < 2 ^ f.fractionBits := hfraction
      _ ≤ 2 ^ f.fractionBits * 2 ^ (field' - 1) := Nat.le_mul_of_pos_right _ (by positivity)
  · -- with the hidden bit the mantissa is still below the next power of two
    have hmantissa : f.mantissa field fraction < 2 ^ f.fractionBits * 2 := by
      rw [mantissa, if_neg hzero]
      omega
    calc f.mantissa field fraction * 2 ^ (field - 1) < 2 ^ f.fractionBits * 2 * 2 ^ (field - 1) :=
          Nat.mul_lt_mul_of_pos_right hmantissa (by positivity)
      _ = 2 ^ f.fractionBits * 2 ^ field := by
          rw [mul_assoc, ← pow_succ', Nat.sub_add_cancel (Nat.one_le_iff_ne_zero.mpr hzero)]
      _ ≤ 2 ^ f.fractionBits * 2 ^ (field' - 1) :=
          Nat.mul_le_mul_left _ (Nat.pow_le_pow_right (by decide) (by omega))

/-- The magnitude tells the exponent field and the fraction. -/
theorem fields_eq_of_magnitude_eq (hfraction : fraction < 2 ^ f.fractionBits)
    (hfraction' : fraction' < 2 ^ f.fractionBits)
    (h : f.mantissa field fraction * 2 ^ (field - 1) = f.mantissa field' fraction' * 2 ^ (field' - 1)) :
    field = field' ∧ fraction = fraction' := by
  obtain hlt | rfl | hlt := lt_trichotomy field field'
  · exact absurd h (magnitude_lt hlt hfraction).ne
  · have hmantissa : f.mantissa field fraction = f.mantissa field fraction' :=
      Nat.eq_of_mul_eq_mul_right (by positivity) h
    exact ⟨rfl, Nat.add_right_cancel hmantissa⟩
  · exact absurd h.symm (magnitude_lt hlt hfraction').ne

/-- **Patterns of one format are the same just if they denote one number,** unless it is zero, with both signs. -/
theorem eq_iff_of_value? {bits bits' : Nat} {x y : ℚ} (hbits : bits < 2 ^ f.width) (hbits' : bits' < 2 ^ f.width)
    (hx : (f.decode bits).value? = some x) (hy : (f.decode bits').value? = some y) :
    bits = bits' ↔ x = y ∧ (f.decode bits).isNegativeZero = (f.decode bits').isNegativeZero := by
  constructor
  · rintro rfl
    exact ⟨Option.some.inj (hx.symm.trans hy), rfl⟩
  · rintro ⟨rfl, hsign⟩
    obtain ⟨negative, m, e, hdecode, rfl⟩ := BinaryNumber.exists_of_value? hx
    obtain ⟨negative', m', e', hdecode', hvalue⟩ := BinaryNumber.exists_of_value? hy
    rw [hdecode, hdecode'] at hsign
    obtain ⟨field, fraction, hfraction, rfl, rfl, rfl⟩ := exists_of_decode hbits hdecode
    obtain ⟨field', fraction', hfraction', rfl, rfl, rfl⟩ := exists_of_decode hbits' hdecode'
    obtain ⟨hmagnitude, hnegative⟩ := (BinaryNumber.signed_eq_iff (by positivity) (by positivity) _ _).mp hvalue
    -- both magnitudes are integers times the least power of two
    have hnat : f.mantissa field fraction * 2 ^ (field - 1) = f.mantissa field' fraction' * 2 ^ (field' - 1) := by
      rw [zpow_add₀ two_ne_zero, zpow_add₀ two_ne_zero, mul_left_comm, mul_left_comm (f.mantissa field' fraction' : ℚ)]
        at hmagnitude
      exact_mod_cast mul_left_cancel₀ (by positivity) hmagnitude
    obtain ⟨rfl, rfl⟩ := fields_eq_of_magnitude_eq hfraction hfraction' hnat
    -- only zero has two signs, which are told apart by `isNegativeZero`
    have hnegative : negative = negative' := by
      rcases hnegative with hzero | hnegative
      · have hmantissa : f.mantissa field fraction = 0 := by
          simpa [zpow_ne_zero _ (two_ne_zero' ℚ)] using hzero
        simpa [BinaryNumber.isNegativeZero, hmantissa] using hsign
      · exact hnegative
    rw [hnegative]

end BinaryFormat

end NullCheck
