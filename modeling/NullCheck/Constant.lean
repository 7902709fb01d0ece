import NullCheck.Json.Variant

/-!
# Constants

The constants of a program. Floating point constants are kept as bit patterns, so that two constants are equal
exactly when they are the same pattern.
-/

namespace NullCheck

inductive Constant where
  | null
  | boolean (b : Bool)
  /-- An integer of 64 bits, signed. -/
  | integer (i : Int)
  /-- A number of 32 bits, by its bits. -/
  | float (bits : UInt32)
  /-- A number of 64 bits, by its bits. -/
  | double (bits : UInt64)
  | string (s : String)
  | enumeration (className name : String)
deriving DecidableEq, Repr, Ord, Hashable

namespace Constant

/-- The NaN that documents can name. -/
def nan : Constant := .double 0x7FF8000000000000

def isNull : Constant → Bool
  | .null => true
  | _ => false

/-- A floating point constant, read. -/
def binary? : Constant → Option BinaryNumber
  | .float bits => some (BinaryFormat.single.decode bits.toNat)
  | .double bits => some (BinaryFormat.double.decode bits.toNat)
  | _ => none

def isNaN (c : Constant) : Bool := c.binary?.any BinaryNumber.isNaN

/-- The constant after a cast to an integral type. Integers beyond 64 bits become the nearest limit; a floating
point constant with a fraction keeps its form. -/
def castToIntegral (c : Constant) : Constant :=
  match c.binary?.bind (BinaryNumber.clampedInteger? Codec.integerLow Codec.integerHigh) with
  | some i => .integer i
  | none => c

/-! ## Constants in documents -/

def enumerationRecord : Record Constant Constant :=
  Record.make (fun className name => Constant.enumeration className name)
    |>.field "class" (fun | .enumeration c _ => c | _ => "") .string
    |>.field "name" (fun | .enumeration _ n => n | _ => "") .string

def variants : List (Variant Constant) :=
  [.bare "null" .null,
   .bare "nan" nan,
   .holding "boolean" .boolean .bool,
   .holding "integer" .integer .integer,
   .holding "float" .float .single,
   .holding "double" .double .double,
   .holding "string" .string .string,
   .record "enum" "Literal::Enum" enumerationRecord]

/-- Writes a constant. Every NaN of 64 bits is written by the same name. -/
def write : Constant → Json
  | .null => .str "null"
  | .boolean b => .object [("boolean", Codec.bool.write b)]
  | .integer i => .object [("integer", Codec.integer.write i)]
  | .float bits => .object [("float", Codec.single.write bits)]
  | .double bits =>
    if (Constant.double bits).isNaN then .str "nan" else .object [("double", Codec.double.write bits)]
  | .string s => .object [("string", Codec.string.write s)]
  | .enumeration c n => .object [("enum", .object (enumerationRecord.write (.enumeration c n)))]

def codec : Codec Constant where
  write := write
  read := Variant.readByName variants

end Constant

end NullCheck
