import NullCheck.Procedure.Instruction

/-!
# Procedures

A procedure is a list of instructions with a table of the variables it uses and a table of the anchors it was made
from. Anchors lie inside each other: every anchor may have a parent. The parents of an anchor are followed for at
most as many steps as there are anchors, so a cycle of parents is followed once around.
-/

namespace NullCheck

/-- Where a variable lives. -/
inductive VariableKind where
  | local
  | parameter
  | field
deriving DecidableEq, Repr

namespace VariableKind

def all : List VariableKind := [.local, .parameter, .field]

def name : VariableKind → String
  | .local => "local"
  | .parameter => "parameter"
  | .field => "field"

end VariableKind

structure VariableDecl where
  name : String
  type : JvmType
  kind : VariableKind
  volatile : Bool
  annotations : List String
deriving DecidableEq, Repr

/-- A volatile field may change without an assignment, so an assignment to it tells nothing about its value. -/
def VariableDecl.isUntracked (v : VariableDecl) : Bool := v.kind = .field && v.volatile

/-- A construct of the source text. -/
structure SourceAnchor where
  text : String
  line : Option Nat
  parent : Option AnchorId
deriving DecidableEq, Repr

structure Procedure where
  name : String
  sourceFile : Option String
  vars : List VariableDecl
  anchors : List SourceAnchor
  instructions : List Instruction
deriving DecidableEq, Repr

namespace Procedure

variable (p : Procedure)

def parent? (a : AnchorId) : Option AnchorId := p.anchors[a]?.bind SourceAnchor.parent

/-- An anchor and its parents, at most `count` in all. -/
def ancestors : Nat → AnchorId → List AnchorId
  | 0, _ => []
  | count + 1, a =>
    a ::
      match p.parent? a with
      | some b => ancestors count b
      | none => []

/-- An anchor and its parents, as many as the table has anchors. -/
def anchorChain (a : AnchorId) : List AnchorId := p.ancestors (max p.anchors.length 1) a

/-- The line of an anchor, or of the nearest parent that has one. -/
def anchorLine? (a : AnchorId) : Option Nat :=
  (p.anchorChain a).findSome? fun b => p.anchors[b]?.bind SourceAnchor.line

def isAncestor (ancestor descendant : AnchorId) : Bool := ancestor ∈ p.anchorChain descendant

end Procedure

end NullCheck
