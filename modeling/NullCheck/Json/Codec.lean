import NullCheck.Json.ReadError

/-!
# Codecs

A `Codec` writes values of a type as trees and reads them back. Reading goes through a tree in document order and
stops at the first error. It knows its `Place`: the path from the document, how many containers are open, and
whether the value had been read through before its shape is looked at. In that last case the text holds no more
faults, and errors are reported where the value as a whole stands.
-/

namespace NullCheck

/-- Where a reader is. -/
structure Place where
  /-- The path, last step first. -/
  trail : List Step
  depth : Nat
  settled : Bool
deriving DecidableEq, Repr

namespace Place

def document : Place := ⟨[], 0, false⟩

def member (p : Place) (name : String) : Place :=
  if p.settled then p else { p with trail := .member name :: p.trail }

def item (p : Place) (index : Nat) : Place :=
  if p.settled then p else { p with trail := .item index :: p.trail }

/-- The same place, once the value there has been read through. -/
def settle (p : Place) : Place := { p with settled := true }

def misfit {α : Type} (p : Place) (m : Misfit) : Except ReadError α := .error (.shape p.trail.reverse m)

def enter (p : Place) : Except ReadError Place :=
  if p.settled then .ok p
  else if Json.depthLimit ≤ p.depth then .error (.fault .malformed)
  else .ok { p with depth := p.depth + 1 }

/-- Reports a value of the wrong kind. -/
def wants {α : Type} (p : Place) (wanted : String) (j : Json) : Except ReadError α := do
  p.misfit (.kind (← j.found) wanted)

/-- Passes the end of a container. -/
def leave : Option Break → Except ReadError Unit
  | none => .ok ()
  | some b => .error (.fault b.read)

end Place

/-- A way to write values of a type and to read them back. -/
structure Codec (α : Type) where
  write : α → Json
  read : Place → Json → Except ReadError α

namespace Codec

def ofJson {α : Type} (c : Codec α) (j : Json) : Except ReadError α := c.read .document j

/-! ## Scalars -/

def bool : Codec Bool where
  write := .bool
  read p
    | .bool b => .ok b
    | j => p.wants "a boolean" j

def string : Codec String where
  write := .str
  read p
    | .str s => .ok s
    | j => p.wants "a string" j

/-- A natural number below `limit`. -/
def natural (limit : Nat) (wanted : String) : Codec Nat where
  write n := .int n
  read p
    | .int (.ofNat n) => if n < limit then .ok n else p.misfit (.range (.int n) wanted)
    | .int i => p.misfit (.range (.int i) wanted)
    | j => p.wants wanted j

def index : Codec Nat := natural UInt64.size "usize"

def line : Codec Nat := natural UInt32.size "u32"

def integerLow : Int := -0x8000000000000000

def integerHigh : Int := 0x7FFFFFFFFFFFFFFF

def integer : Codec Int where
  write := .int
  read p
    | .int i => if integerLow ≤ i ∧ i ≤ integerHigh then .ok i else p.misfit (.range (.int i) "i64")
    | j => p.wants "i64" j

/-- The double nearest to an integer of 64 bits. -/
def doubleOfInt (i : Int) : Float :=
  if i < 0 then -i.natAbs.toUInt64.toFloat else i.natAbs.toUInt64.toFloat

/-- The number of 32 bits nearest to an integer of 64 bits. -/
def singleOfInt (i : Int) : Float32 :=
  if i < 0 then -i.natAbs.toUInt64.toFloat32 else i.natAbs.toUInt64.toFloat32

/-- Writes a double, unless it is infinite or a NaN. -/
def writeDouble (bits : UInt64) : Json :=
  if (BinaryFormat.double.decode bits.toNat).isFinite then .float bits else .null

/-- A double, by its bits. -/
def double : Codec UInt64 where
  write := writeDouble
  read p
    | .int i => .ok (doubleOfInt i).toBits
    | .float bits => .ok bits
    | j => p.wants "f64" j

/-- A floating point number of 32 bits, by its bits; it is written as the double of the same value. -/
def single : Codec UInt32 where
  write bits := writeDouble (Float32.ofBits bits).toFloat.toBits
  read p
    | .int i => .ok (singleOfInt i).toBits
    | .float bits => .ok (Float.ofBits bits).toFloat32.toBits
    | j => p.wants "f32" j

/-! ## Containers -/

def option {α : Type} (c : Codec α) : Codec (Option α) where
  write := Json.optional c.write
  read p
    | .null => .ok none
    | j => some <$> c.read p j

/-- Reads items one after the other, the first of which has the given index. -/
def readItems {α : Type} (c : Codec α) (p : Place) : Nat → List Json → Except ReadError (List α)
  | _, [] => .ok []
  | i, j :: js => do
    let a ← c.read (p.item i) j
    let as ← readItems c p (i + 1) js
    return a :: as

def list {α : Type} (c : Codec α) : Codec (List α) where
  write as := .array (as.map c.write)
  read p
    | .arr items stop => do
      let inner ← p.enter
      let as ← readItems c inner 0 items
      Place.leave stop
      return as
    | j => p.wants "a sequence" j

def readTable {α τ : Type} (insert : String → α → τ → τ) (c : Codec α) (p : Place) (table : τ) :
    List (Option String × Json) → Except ReadError τ
  | [] => .ok table
  | (none, _) :: _ => .error (.fault .malformed)
  | (some name, j) :: ms => do
    let a ← c.read (p.member name) j
    readTable insert c p (insert name a table) ms

/-- A table by name, given by its entries, the empty table and the way to put in an entry. -/
def table {α τ : Type} (entries : τ → List (String × α)) (empty : τ) (insert : String → α → τ → τ) (c : Codec α) :
    Codec τ where
  write t := .object ((entries t).map fun e => (e.1, c.write e.2))
  read p
    | .obj members stop => do
      let inner ← p.enter
      let t ← readTable insert c inner empty members
      Place.leave stop
      return t
    | j => p.wants "a map" j

/-- Texts that denote values of another type. A text that denotes none is rejected, with a reason. -/
def text {α : Type} (render : α → String) (parse : String → Except String α) : Codec α where
  write a := .str (render a)
  read p
    | .str s =>
      match parse s with
      | .ok a => .ok a
      | .error reason => p.misfit (.rejected reason)
    | j => p.wants "a string" j

end Codec

end NullCheck
