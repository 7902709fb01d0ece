import NullCheck.Decimal.Binary

/-!
# Shortest decimal text

The decimal text of a double is the shortest that reads back as the same double. The reals that round to the
double `m · 2 ^ e` form an interval, whose ends belong to it exactly when `m` is even. For one digit, two digits
and so on, the two points of that decimal grid next to the double are tried; the first grid with a point in the
interval gives the digits, the nearer of two points wins, and of two equally near ones the even.

`DecimalLayout` says how digits and exponent are written; `Decimal.ofDouble` puts both together.
-/

namespace NullCheck

/-- Digits and a power of ten: `digits · 10 ^ exponent`. -/
structure Decimal where
  digits : Nat
  exponent : Int
deriving DecidableEq, Repr

namespace Decimal

/-- The reals that round to one double, over the common denominator `denominator`. -/
structure Interval where
  low : Nat
  value : Nat
  high : Nat
  denominator : Nat
  closed : Bool

/-- The interval of `m · 2 ^ e`. Below a power of two the neighbour is only half as far away. -/
def Interval.of (m : Nat) (e : Int) : Interval :=
  let atPower := m = Nat.pow 2 BinaryFormat.double.fractionBits ∧ e ≠ BinaryFormat.double.leastExponent
  let lowGap := if atPower then 1 else 2
  let scale (n : Nat) : Nat := n * Nat.pow 2 (e - 2).toNat
  { low := scale (4 * m - lowGap)
    value := scale (4 * m)
    high := scale (4 * m + 2)
    denominator := Nat.pow 2 (2 - e).toNat
    closed := m % 2 == 0 }

/-- The double and the interval in units of `10 ^ k`: numerators over a common denominator. -/
def Interval.inUnits (i : Interval) (k : Int) : Interval :=
  { i with
    low := i.low * Nat.pow 10 (-k).toNat
    value := i.value * Nat.pow 10 (-k).toNat
    high := i.high * Nat.pow 10 (-k).toNat
    denominator := i.denominator * Nat.pow 10 k.toNat }

/-- Whether `d` units lie in the interval. -/
def Interval.holds (i : Interval) (d : Nat) : Bool :=
  let n := d * i.denominator
  if i.closed then i.low ≤ n ∧ n ≤ i.high else i.low < n ∧ n < i.high

/-- The point of the grid of step `10 ^ k` that stands for the double, if one of its neighbours reads back. -/
def Interval.onGrid? (i : Interval) (k : Int) : Option Decimal :=
  let u := i.inUnits k
  let below := u.value / u.denominator
  let above := below + 1
  let rest := u.value % u.denominator
  match u.holds below, u.holds above with
  | true, false => some ⟨below, k⟩
  | false, true => some ⟨above, k⟩
  | true, true =>
    if 2 * rest < u.denominator ∨ (2 * rest = u.denominator ∧ below % 2 = 0) then some ⟨below, k⟩
    else some ⟨above, k⟩
  | false, false => none

/-- The power of ten just at or below the double: the largest `p` with `10 ^ p` at most the value. -/
def Interval.magnitude (i : Interval) : Int :=
  let p := (List.range 640).find? fun (n : Nat) =>
    let k : Int := 310 - n
    let u := i.inUnits k
    u.denominator ≤ u.value
  match p with
  | some n => 310 - n
  | none => -330

/-- Drops the zeros at the end of the digits. -/
def trim (digits : Nat) (exponent : Int) : Nat → Decimal
  | 0 => ⟨digits, exponent⟩
  | fuel + 1 => if digits % 10 = 0 ∧ digits ≠ 0 then trim (digits / 10) (exponent + 1) fuel else ⟨digits, exponent⟩

/-- The shortest decimal that reads back as `m · 2 ^ e`. Seventeen digits always do. -/
def shortest (m : Nat) (e : Int) : Decimal :=
  if m = 0 then ⟨0, 0⟩
  else
    let i := Interval.of m e
    let top := i.magnitude
    match (List.range 17).findSome? fun (n : Nat) => i.onGrid? (top - n) with
    | some d => trim d.digits d.exponent 20
    | none => ⟨m, e⟩

end Decimal

/-- How a decimal is laid out. The point of a decimal stands behind so many of its digits, or, counted below zero, so
many places in front of them. If that count is above `leastPoint` and at most `greatestPoint` the text is positional,
else it has an exponent. -/
structure DecimalLayout where
  leastPoint : Int
  greatestPoint : Int
deriving DecidableEq, Repr

namespace DecimalLayout

/-- Numbers shown in messages: positional from 0.00001 up to sixteen places, and integral ones end in `.0`. -/
def message : DecimalLayout := ⟨-5, 16⟩

private def zeros (n : Int) : String := String.ofList (List.replicate n.toNat '0')

def render (l : DecimalLayout) (d : Decimal) : String :=
  let ds := Nat.toDigits 10 d.digits
  let text := String.ofList ds
  let point : Int := ds.length + d.exponent
  if 0 ≤ d.exponent ∧ point ≤ l.greatestPoint then
    text ++ zeros d.exponent ++ ".0"
  else if 0 < point ∧ point ≤ l.greatestPoint then
    String.ofList (ds.take point.toNat) ++ "." ++ String.ofList (ds.drop point.toNat)
  else if l.leastPoint < point ∧ point ≤ 0 then
    "0." ++ zeros (-point) ++ text
  else
    let tail := if ds.length = 1 then "" else "." ++ String.ofList (ds.drop 1)
    String.ofList (ds.take 1) ++ tail ++ "e" ++ toString (point - 1)

/-- The text of the double with the given bits. Infinities and NaNs have no decimal text. -/
def ofDouble (l : DecimalLayout) (bits : UInt64) : String :=
  match BinaryFormat.double.decode bits.toNat with
  | .finite negative m e => (if negative then "-" else "") ++ l.render (Decimal.shortest m e)
  | .infinite negative => if negative then "-inf" else "inf"
  | .nan => "NaN"

end DecimalLayout

end NullCheck
