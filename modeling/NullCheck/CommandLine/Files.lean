/-!
# Files

What the program finds under the names it is given, and what the operating system says where it finds nothing.
-/

namespace NullCheck

namespace CommandLine

inductive FileContent where
  /-- Nothing is there, for the given reason. -/
  | missing (reason : String)
  /-- What is there cannot be read, for the given reason. -/
  | unreadable (reason : String)
  | text (s : String)
deriving DecidableEq, Repr

def FileContent.exists : FileContent → Bool
  | .missing _ => false
  | _ => true

/-- What is said where a name leads nowhere. -/
def noSuchFile : String := "No such file or directory (os error 2)"

/-- What is said where a name leads through a file. -/
def notADirectory : String := "Not a directory (os error 20)"

/-- What is said where a directory is read or written as a file. -/
def isADirectory : String := "Is a directory (os error 21)"

/-- A directory with the files below it, by name. -/
structure Directory where
  path : String
  files : List (String × String)

namespace Directory

/-- The parts of a name between slashes. A single point names the directory itself. -/
def parts (name : String) : List String := (name.splitOn "/").filter fun part => part ≠ "" ∧ part ≠ "."

/-- Whether a name can only be that of a directory. -/
def isOfDirectory (name : String) : Bool := name.endsWith "/" || name.endsWith "/."

variable (d : Directory)

/-- The parts of a name below the directory; `none` for a name from the root that leads elsewhere. -/
def locate? (name : String) : Option (List String) :=
  if !name.startsWith "/" then some (parts name)
  else if (parts d.path).isPrefixOf (parts name) then some ((parts name).drop (parts d.path).length)
  else none

def file? (place : List String) : Option String := (d.files.find? fun f => parts f.1 = place).map (·.2)

def hasDirectory (place : List String) : Bool :=
  place.isEmpty || d.files.any fun f => place.isPrefixOf (parts f.1) ∧ place.length < (parts f.1).length

def isBelowFile (place : List String) : Bool :=
  (List.range place.length).any fun n => (d.file? (place.take n)).isSome

def absence (place : List String) : String := if d.isBelowFile place then notADirectory else noSuchFile

/-- What is found under a name. -/
def find (name : String) : FileContent :=
  match d.locate? name with
  | none => .missing noSuchFile
  | some place =>
    match d.file? place with
    | some s => if isOfDirectory name then .missing notADirectory else .text s
    | none => if d.hasDirectory place then .unreadable isADirectory else .missing (d.absence place)

/-- Why no file can be made under a name; `none` if one can. -/
def refusal? (name : String) : Option String :=
  match d.locate? name with
  | none => some noSuchFile
  | some place =>
    if (d.file? place).isSome then if isOfDirectory name then some notADirectory else none
    else if d.hasDirectory place then some isADirectory
    else if !d.hasDirectory place.dropLast then some (d.absence place)
    else if isOfDirectory name then some isADirectory
    else none

end Directory

end CommandLine

end NullCheck
