import NullCheck.Decimal.Shortest
import NullCheck.Json.Basic
import NullCheck.Text.Shown

/-!
# What can go wrong when a document is read

A document is read into a value of a certain type. Either its text breaks off (`ReadError.fault`), or the tree has
not the shape that the type asks for (`ReadError.shape`): then the error says where in the tree, and what was wrong
there.
-/

namespace NullCheck

/-- A step from a value to one inside it. -/
inductive Step where
  | member (name : String)
  | item (index : Nat)
deriving DecidableEq, Repr

/-- A way from the document to a value inside it, outermost step first. -/
abbrev Path := List Step

namespace Path

def render.step (text : String) : Step → String
  | .member name => if text.isEmpty then name else text ++ "." ++ name
  | .item index => text ++ "[" ++ toString index ++ "]"

def render (p : Path) : String :=
  match p with
  | [] => "."
  | p => p.foldl render.step ""

end Path

/-- What stands where something else was wanted. -/
inductive Found where
  | null
  | bool (b : Bool)
  | int (i : Int)
  | float (bits : UInt64)
  | str (s : String)
  | sequence
  | map
  /-- The name of a variant, without the content that the variant has. -/
  | bareVariant
deriving DecidableEq, Repr

def Found.message : Found → String
  | .null => "null"
  | .bool b => "boolean " ++ Shown.name (if b then "true" else "false")
  | .int i => "integer " ++ Shown.name (toString i)
  | .float bits => "floating point " ++ Shown.name (DecimalLayout.message.ofDouble bits)
  | .str s => "string " ++ Shown.quoted s
  | .sequence => "sequence"
  | .map => "map"
  | .bareVariant => "unit variant"

/-- What is wrong with the shape of a value. -/
inductive Misfit where
  | missing (field : String)
  | duplicate (field : String)
  | unknownField (field : String) (known : List String)
  | unknownVariant (name : String) (known : List String)
  | kind (found : Found) (wanted : String)
  | range (found : Found) (wanted : String)
  | length (count : Nat) (wanted : String)
  /-- A text that does not denote what it should. -/
  | rejected (reason : String)
deriving DecidableEq, Repr

/-- Names between backquotes, with commas. -/
def Misfit.nameList (names : List String) : String := ", ".intercalate (names.map Shown.name)

def Misfit.message : Misfit → String
  | .missing field => "missing field " ++ Shown.name field
  | .duplicate field => "duplicate field " ++ Shown.name field
  | .unknownField field known =>
    "unknown field " ++ Shown.name field ++ ", expected one of " ++ nameList known
  | .unknownVariant name known =>
    "unknown variant " ++ Shown.name name ++ ", expected one of " ++ nameList known
  | .kind found wanted => "invalid type: " ++ found.message ++ ", expected " ++ wanted
  | .range found wanted => "invalid value: " ++ found.message ++ ", expected " ++ wanted
  | .length count wanted => "invalid length " ++ toString count ++ ", expected " ++ wanted
  | .rejected reason => reason

/-- Why a document cannot be read. -/
inductive ReadError where
  | fault (f : Fault)
  | shape (path : Path) (misfit : Misfit)
deriving DecidableEq, Repr

/-- What a value is, for a reader that wanted something else. Scalars are read to their end first. -/
def Json.found : Json → Except ReadError Found
  | .null => .ok .null
  | .bool b => .ok (.bool b)
  | .int i => .ok (.int i)
  | .float bits => .ok (.float bits)
  | .str s => .ok (.str s)
  | .arr .. => .ok .sequence
  | .obj .. => .ok .map
  | .unreadable => .error (.fault .malformed)
  | .broken b => .error (.fault b.read)

end NullCheck
