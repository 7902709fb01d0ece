/-!
# Binary floating point by bit pattern

A number of a binary format is kept as its bits, so that two numbers are the same exactly when their bits are.
`BinaryFormat.decode` reads the bits as a sign, a mantissa and a power of two; all that the library decides about
a floating point number (is it a NaN, is it integral, which decimal text denotes it) is decided on that reading,
in exact integer arithmetic.
-/

namespace NullCheck

/-- A binary interchange format: how many bits hold the fraction and how many the exponent. -/
structure BinaryFormat where
  fractionBits : Nat
  exponentBits : Nat
deriving DecidableEq, Repr

/-- A bit pattern, read: `finite negative m e` is `m · 2 ^ e`, negated when `negative`. -/
inductive BinaryNumber where
  | nan
  | infinite (negative : Bool)
  | finite (negative : Bool) (mantissa : Nat) (exponent : Int)
deriving DecidableEq, Repr

namespace BinaryFormat

def single : BinaryFormat := ⟨23, 8⟩

def double : BinaryFormat := ⟨52, 11⟩

/-- The largest exponent field, kept for infinities and NaNs. -/
def topExponent (f : BinaryFormat) : Nat := Nat.pow 2 f.exponentBits - 1

/-- The exponent of the last fraction bit in the smallest binade. -/
def leastExponent (f : BinaryFormat) : Int := 2 - Nat.pow 2 (f.exponentBits - 1) - f.fractionBits

/-- Reads a bit pattern. An exponent field of zero has no hidden leading bit. -/
def decode (f : BinaryFormat) (bits : Nat) : BinaryNumber :=
  let fraction := bits % Nat.pow 2 f.fractionBits
  let field := bits / Nat.pow 2 f.fractionBits % Nat.pow 2 f.exponentBits
  let negative := bits / Nat.pow 2 (f.fractionBits + f.exponentBits) % 2 == 1
  if field = f.topExponent then
    if fraction = 0 then .infinite negative else .nan
  else if field = 0 then
    .finite negative fraction f.leastExponent
  else
    .finite negative (fraction + Nat.pow 2 f.fractionBits) (f.leastExponent + (field - 1))

end BinaryFormat

namespace BinaryNumber

def isNaN : BinaryNumber → Bool
  | .nan => true
  | _ => false

def isFinite : BinaryNumber → Bool
  | .finite .. => true
  | _ => false

/-- The integer `m · 2 ^ e`, if it is one. -/
def integral? (mantissa : Nat) (exponent : Int) : Option Nat :=
  match exponent with
  | .ofNat e => some (mantissa * Nat.pow 2 e)
  | .negSucc e =>
    if mantissa % Nat.pow 2 (e + 1) = 0 then some (mantissa / Nat.pow 2 (e + 1)) else none

/-- The integer a pattern denotes, cut off at the limits `low` and `high`; infinities lie beyond the limits.
`none` for a NaN and for a number with a fraction. -/
def clampedInteger? (low high : Int) : BinaryNumber → Option Int
  | .nan => none
  | .infinite negative => some (if negative then low else high)
  | .finite negative m e =>
    (integral? m e).map fun n => max low (min high (if negative then -(n : Int) else n))

end BinaryNumber

end NullCheck
