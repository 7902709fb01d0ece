import NullCheck.Finding.Basic

/-!
# Collecting findings

While a procedure is run, instructions turn out to be defective. A collector makes findings of defects and keeps
them in the order in which they came.
-/

namespace NullCheck

/-- A defect that shows at an instruction while it is visited. -/
inductive Defect where
  | nullAssigned
  | nullReturned
  | fieldOfNull
  | callOnNull
  | unboxedNull
  /-- A value that may be null for a parameter that is not to be null. -/
  | nullArgument (position : Nat)
  /-- A value that is nullable for a parameter of which nothing is said. -/
  | nullArgumentUnannotated (position : Nat)
  | impossibleCast
deriving DecidableEq, Repr

namespace Defect

def kind : Defect → FindingKind
  | .nullAssigned => .nullAssignment
  | .nullReturned => .nullableReturn
  | .fieldOfNull => .fieldNpe
  | .callOnNull => .callNpe
  | .unboxedNull => .unboxingNpe
  | .nullArgument _ => .nullArgument
  | .nullArgumentUnannotated _ => .nullArgumentUnannotated
  | .impossibleCast => .invalidCast

def argument? : Defect → Option Nat
  | .nullArgument position | .nullArgumentUnannotated position => some position
  | _ => none

/-- Whether a defect is only reported on demand. -/
def isOptional : Defect → Bool
  | .nullArgumentUnannotated _ => true
  | _ => false

end Defect

namespace Instruction

/-- The anchor of an argument of a call; where it has none, the anchor of the call. -/
def argumentAnchor (i : Instruction) (position : Nat) : Option AnchorId :=
  match i.operation with
  | .methodCall call => (call.arguments[position]?.bind Argument.anchor) <|> i.anchor
  | _ => i.anchor

def finding (i : Instruction) (d : Defect) : Finding where
  kind := d.kind
  instruction := i.index
  anchor :=
    match d.argument? with
    | some position => i.argumentAnchor position
    | none => i.anchor
  argument := d.argument?

end Instruction

/-- Findings as they come. -/
structure Collector where
  reportUnannotated : Bool
  /-- The findings, last first. -/
  recorded : List Finding
deriving DecidableEq, Repr

namespace Collector

def new (reportUnannotated : Bool) : Collector := ⟨reportUnannotated, []⟩

variable (c : Collector)

def push (f : Finding) : Collector := { c with recorded := f :: c.recorded }

def takes (d : Defect) : Bool := c.reportUnannotated || !d.isOptional

/-- Adds the finding that a defect makes, if it makes one. -/
def report (i : Instruction) (d : Defect) : Collector := if c.takes d then c.push (i.finding d) else c

def reportAll (i : Instruction) (ds : List Defect) : Collector := ds.foldl (fun c d => c.report i d) c

/-- The findings in order, each once. -/
def findings : List Finding := Finding.inOrder c.recorded

end Collector

end NullCheck
