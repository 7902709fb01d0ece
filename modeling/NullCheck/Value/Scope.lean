import NullCheck.ClassHierarchy
import NullCheck.Procedure.Basic
import NullCheck.Value.Basic

/-!
# Scopes

A scope is what values are interpreted in: the variables of a procedure and the class hierarchy. A variable that is
not declared has no value of its own and the type `java/lang/Object`.
-/

namespace NullCheck

/-- The variables and classes that values refer to. -/
structure Scope where
  vars : List VariableDecl
  hierarchy : ClassHierarchy

namespace Scope

variable (s : Scope)

/-- The value of a variable; unknown for one that is not declared. -/
def variableValue (id : VariableId) (viaMethods : Bool) : Value :=
  if id < s.vars.length then .var id viaMethods else .unknown

def valueOf : Operand → Value
  | .var id viaMethods => s.variableValue id viaMethods
  | .constant c => .constant c
  | .typed type nullness => .typed type nullness
  | .notNull type => .notNull type
  | .unknown => .unknown

def variableType (id : VariableId) : JvmType := (s.vars[id]?.map VariableDecl.type).getD .object

def staticType? : Value → Option JvmType
  | .var id _ => some (s.variableType id)
  | .typed type _ | .notNull type => some type
  | _ => none

/-- The variables that are fields, in order. -/
def fieldVariables : List VariableId :=
  (List.range s.vars.length).filter fun id => s.vars[id]?.any fun v => v.kind = .field

end Scope

end NullCheck
