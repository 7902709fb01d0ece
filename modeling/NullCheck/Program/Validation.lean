import NullCheck.Json.Document
import NullCheck.Program.Basic

/-!
# Validation

A program is checked before it is analysed. Declarations of methods are completed from their descriptors and must
agree with them; instructions get their positions; jumps must lead to an instruction or right behind the last, and
anchors must be in the table. The first error ends the check, methods coming before procedures.
-/

namespace NullCheck

/-- What is wrong with the declaration of a method. -/
inductive MethodError where
  | descriptor (cause : DescriptorError)
  | parameterCount (declared expected : Nat)
  | returnType (declared : JvmType)
deriving DecidableEq, Repr

/-- The messages of an error, outermost first. -/
def MethodError.chain : MethodError → List String
  | .descriptor cause => cause.chain
  | .parameterCount declared expected =>
    ["declares " ++ toString declared ++ " parameters but descriptor has " ++ toString expected]
  | .returnType declared => ["return type " ++ declared.display ++ " does not match descriptor"]

/-- What is wrong with a procedure. -/
inductive ProcedureError where
  | unknownParent (anchor : Nat) (parent : AnchorId)
  | jumpPastEnd (instruction target length : Nat)
  | unknownAnchor (instruction : Nat) (anchor : AnchorId)
deriving DecidableEq, Repr

def ProcedureError.message : ProcedureError → String
  | .unknownParent anchor parent => "anchor " ++ toString anchor ++ " has unknown parent " ++ toString parent
  | .jumpPastEnd instruction target length =>
    "instruction " ++ toString instruction ++ " jumps to " ++ toString target ++ ", past the end (" ++
      toString length ++ ")"
  | .unknownAnchor instruction anchor =>
    "instruction " ++ toString instruction ++ " references unknown anchor " ++ toString anchor

/-- What is wrong with a program. -/
inductive ValidationError where
  | method (key : MethodKey) (cause : MethodError)
  | procedure (name : String) (cause : ProcedureError)
deriving DecidableEq, Repr

/-- The messages of an error, outermost first. -/
def ValidationError.chain : ValidationError → List String
  | .method key cause => ("method " ++ key.display) :: cause.chain
  | .procedure name cause => ["procedure " ++ name, cause.message]

namespace MethodDecl

/-- Reads what a descriptor says, as an error of the declaration if it cannot be read. -/
def readDescriptor {α : Type} : Except DescriptorError α → Except MethodError α
  | .ok a => .ok a
  | .error e => .error (.descriptor e)

def fillTypes (parameters : List ParameterDecl) (types : List JvmType) : List ParameterDecl :=
  match parameters, types with
  | p :: ps, t :: ts => { p with type := some (p.type.getD t) } :: fillTypes ps ts
  | ps, _ => ps

/-- Completes a declaration from its descriptor. A declared result must be of the kind that the descriptor has. -/
def normalize (m : MethodDecl) : Except MethodError MethodDecl := do
  let count ← readDescriptor (parameterCount m.descriptor)
  let signature ← readDescriptor (Signature.parse m.descriptor)
  let parameters := if m.parameters.isEmpty then List.replicate count ParameterDecl.blank else m.parameters
  if parameters.length ≠ count then .error (.parameterCount parameters.length count)
  let parameters := fillTypes parameters signature.parameters
  let kind ← readDescriptor (resultKind m.descriptor)
  match m.returnType with
  | none => return { m with parameters := parameters, returnType := some signature.result }
  | some declared =>
    if declared.kind ≠ kind then .error (.returnType declared)
    else return { m with parameters := parameters }

end MethodDecl

namespace Procedure

/-- Checks the parents of anchors, the first of which has the given position. -/
def checkParents (count : Nat) : Nat → List SourceAnchor → Except ProcedureError Unit
  | _, [] => .ok ()
  | position, a :: as =>
    match a.parent with
    | some parent =>
      if count ≤ parent then .error (.unknownParent position parent) else checkParents count (position + 1) as
    | none => checkParents count (position + 1) as

/-- Checks an instruction of a procedure with so many instructions and anchors, and gives it its position. -/
def checkInstruction (length anchors position : Nat) (i : Instruction) : Except ProcedureError Instruction := do
  match i.operation.jumpTarget? with
  | some target => if length < target then .error (.jumpPastEnd position target length)
  | none => pure ()
  match i.anchor with
  | some anchor => if anchors ≤ anchor then .error (.unknownAnchor position anchor)
  | none => pure ()
  return { i with index := position }

/-- Checks instructions, the first of which has the given position. -/
def checkInstructions (length anchors : Nat) : Nat → List Instruction → Except ProcedureError (List Instruction)
  | _, [] => .ok []
  | position, i :: is => do
    let i ← checkInstruction length anchors position i
    let is ← checkInstructions length anchors (position + 1) is
    return i :: is

/-- Checks a procedure and gives its instructions their positions. -/
def validate (p : Procedure) : Except ProcedureError Procedure := do
  checkParents p.anchors.length 0 p.anchors
  let instructions ← checkInstructions p.instructions.length p.anchors.length 0 p.instructions
  return { p with instructions := instructions }

end Procedure

namespace Program

def validateMethod (m : MethodDecl) : Except ValidationError MethodDecl :=
  match m.normalize with
  | .ok m => .ok m
  | .error e => .error (.method m.key e)

def validateProcedure (p : Procedure) : Except ValidationError Procedure :=
  match p.validate with
  | .ok p => .ok p
  | .error e => .error (.procedure p.name e)

/-- Checks a program and completes it. -/
def validate (p : Program) : Except ValidationError Program := do
  let methods ← p.methods.mapM validateMethod
  let procedures ← p.procedures.mapM validateProcedure
  return { p with methods := methods, procedures := procedures }

end Program

/-- Why a text is no valid program. -/
inductive ProgramError where
  | read (cause : ReadError)
  | invalid (cause : ValidationError)
deriving DecidableEq, Repr

def Program.ofJson (j : Json) : Except ProgramError Program :=
  match Program.codec.ofJson j with
  | .error e => .error (.read e)
  | .ok p =>
    match p.validate with
    | .error e => .error (.invalid e)
    | .ok p => .ok p

def Program.ofText (text : String) : Except ProgramError Program := ofJson (.ofText text)

end NullCheck
