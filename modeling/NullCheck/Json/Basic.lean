/-!
# Documents

A JSON text is read into a tree. The tree of a faulty text goes as far as the text can be followed: the place
where it breaks off is part of the tree, so a reader that never looks there is not disturbed by it, and one that
does meets the fault in document order.

Two kinds of reader look at a value differently. One *reads* it, the other only *skims* over it to what comes
next. A number too large for a double and a string with an unpaired surrogate cannot be read, yet can be skimmed;
and a text that stops in the middle of a number is `truncated` to a reader and `malformed` to one that skims.
-/

namespace NullCheck

/-- What is wrong with a text that is no document. -/
inductive Fault where
  | malformed
  | truncated
deriving DecidableEq, Repr

/-- A place at which a text cannot be followed any further. -/
structure Break where
  /-- The fault met by one who reads on. -/
  read : Fault
  /-- The fault met by one who skims on. -/
  skim : Fault
deriving DecidableEq, Repr

namespace Break

/-- The same fault to either reader. -/
def both (f : Fault) : Break := ⟨f, f⟩

def malformed : Break := both .malformed

def truncated : Break := both .truncated

end Break

/-- The tree of a text. Integers are those of 64 bits, signed or not; every other number is a double, by its bits.
An array or object that breaks off after its last item says so in `stop`. -/
inductive Json where
  | null
  | bool (b : Bool)
  | int (i : Int)
  | float (bits : UInt64)
  | str (s : String)
  | arr (items : List Json) (stop : Option Break)
  /-- A member whose name has an unpaired surrogate has no name. -/
  | obj (members : List (Option String × Json)) (stop : Option Break)
  /-- A number or string that is well-formed and denotes nothing. -/
  | unreadable
  | broken (b : Break)
deriving Inhabited, Repr

namespace Json

def array (items : List Json) : Json := .arr items none

/-- An object that is complete, its members in order. -/
def object (members : List (String × Json)) : Json := .obj (members.map fun m => (some m.1, m.2)) none

def optional {α : Type} (f : α → Json) : Option α → Json
  | none => .null
  | some a => f a

/-- The value of a member, by name. -/
def get? (name : String) : Json → Option Json
  | .obj members _ => (members.find? fun m => m.1 = some name).map (·.2)
  | _ => none

/-! ## Skimming and reading a value to its end -/

mutual

/-- The fault one meets when skimming over a value. -/
def skim : Json → Option Fault
  | .arr items stop => skimItems items <|> stop.map Break.skim
  | .obj members stop => skimMembers members <|> stop.map Break.skim
  | .broken b => some b.skim
  | _ => none

def skimItems : List Json → Option Fault
  | [] => none
  | j :: js => skim j <|> skimItems js

def skimMembers : List (Option String × Json) → Option Fault
  | [] => none
  | (_, j) :: ms => skim j <|> skimMembers ms

end

/-- How many containers may be open at once in a value that is read. -/
def depthLimit : Nat := 127

mutual

/-- The fault one meets when reading a value through, inside `depth` open containers. -/
def readThrough (depth : Nat) : Json → Option Fault
  | .arr items stop =>
    if depthLimit ≤ depth then some .malformed
    else readThroughItems (depth + 1) items <|> stop.map Break.read
  | .obj members stop =>
    if depthLimit ≤ depth then some .malformed
    else readThroughMembers (depth + 1) members <|> stop.map Break.read
  | .broken b => some b.read
  | .unreadable => some .malformed
  | _ => none

def readThroughItems (depth : Nat) : List Json → Option Fault
  | [] => none
  | j :: js => readThrough depth j <|> readThroughItems depth js

/-- The first fault among members that are read through, names included. -/
def readThroughMembers (depth : Nat) : List (Option String × Json) → Option Fault
  | [] => none
  | (name, j) :: ms =>
    if name.isNone then some .malformed
    else readThrough depth j <|> readThroughMembers depth ms

end

/-! ## Changing the leaves -/

mutual

/-- Replaces every double by what `f` gives for its bits. -/
def mapFloats (f : UInt64 → Json) : Json → Json
  | .float bits => f bits
  | .arr items stop => .arr (mapFloatsItems f items) stop
  | .obj members stop => .obj (mapFloatsMembers f members) stop
  | j => j

/-- `mapFloats` on items. -/
def mapFloatsItems (f : UInt64 → Json) : List Json → List Json
  | [] => []
  | j :: js => mapFloats f j :: mapFloatsItems f js

/-- `mapFloats` on members. -/
def mapFloatsMembers (f : UInt64 → Json) : List (Option String × Json) → List (Option String × Json)
  | [] => []
  | (name, j) :: ms => (name, mapFloats f j) :: mapFloatsMembers f ms

end

end Json

end NullCheck
