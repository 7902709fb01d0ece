import NullCheck.Json.Basic

/-!
# Numerals

A numeral without fraction and exponent denotes an integer if it fits 64 bits, signed when it has a minus sign.
Every other numeral, minus zero among them, denotes a double: the digits are gathered in 64 bits, as many as fit,
and the gathered integer is multiplied or divided once by a power of ten. A numeral beyond the largest double is
well-formed and denotes nothing.
-/

namespace NullCheck

/-- A numeral as written. Digits are the values 0 to 9. -/
structure Numeral where
  negative : Bool
  whole : List Nat
  fraction : Option (List Nat)
  /-- The exponent's sign and digits. -/
  exponent : Option (Bool × List Nat)
deriving DecidableEq, Repr

namespace Numeral

/-- Digits gathered so far. Once one did not fit, the rest only count. -/
structure Gathered where
  significand : Nat
  exponent : Int
  full : Bool

/-- One past the largest significand. -/
def significandLimit : Nat := UInt64.size

/-- Takes a digit left of the point: what does not fit raises the exponent. -/
def Gathered.pushWhole (g : Gathered) (d : Nat) : Gathered :=
  if g.full ∨ significandLimit ≤ 10 * g.significand + d then { g with exponent := g.exponent + 1, full := true }
  else { g with significand := 10 * g.significand + d }

/-- Takes a digit right of the point: what does not fit is dropped. -/
def Gathered.pushFraction (g : Gathered) (d : Nat) : Gathered :=
  if g.full ∨ significandLimit ≤ 10 * g.significand + d then { g with full := true }
  else { g with significand := 10 * g.significand + d, exponent := g.exponent - 1 }

/-- The significand and exponent of whole and fraction digits. A point makes room for another try. -/
def gather (whole : List Nat) (fraction : List Nat) : Gathered :=
  let g := whole.foldl Gathered.pushWhole ⟨0, 0, false⟩
  fraction.foldl Gathered.pushFraction { g with full := false }

/-- The largest exponent that is counted; a longer one is as good as infinite. -/
def exponentLimit : Nat := 0x80000000

def powerOfTen (n : Nat) : Float := Float.ofScientific 1 false n

/-- Divides by `10 ^ n`, in steps of the largest power that is a double. -/
def scaleDown (f : Float) (n : Nat) : Float :=
  if n ≤ 308 then f / powerOfTen n
  else if f == 0 then f
  else scaleDown (f / powerOfTen 308) (n - 308)
termination_by n

/-- `significand · 10 ^ exponent` as a double; `none` when it is too large. -/
def scaled? (significand : Nat) (exponent : Int) : Option Float :=
  let f := significand.toUInt64.toFloat
  match exponent with
  | .negSucc n => some (scaleDown f (n + 1))
  | .ofNat n =>
    if n ≤ 308 then
      let r := f * powerOfTen n
      if r.isInf then none else some r
    else if f == 0 then some f
    else none

def numberOf (digits : List Nat) : Nat := digits.foldl (fun n d => 10 * n + d) 0

def size? (n : Numeral) : Option Float :=
  let g := gather n.whole (n.fraction.getD [])
  match n.exponent with
  | none => scaled? g.significand g.exponent
  | some (down, digits) =>
    let e := numberOf digits
    if exponentLimit ≤ e then
      if g.significand = 0 ∨ down then some 0 else none
    else scaled? g.significand (if down then g.exponent - e else g.exponent + e)

def float (n : Numeral) : Json :=
  match n.size? with
  | some f => .float (if n.negative then -f else f).toBits
  | none => .unreadable

def value (n : Numeral) : Json :=
  match n.fraction, n.exponent with
  | none, none =>
    let g := gather n.whole []
    if g.exponent ≠ 0 then n.float
    else if !n.negative then .int g.significand
    else if g.significand = 0 ∨ 0x8000000000000000 < g.significand then n.float
    else .int (-(g.significand : Int))
  | _, _ => n.float

end Numeral

end NullCheck
