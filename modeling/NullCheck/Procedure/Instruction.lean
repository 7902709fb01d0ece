import NullCheck.Annotation
import NullCheck.Constant
import NullCheck.Procedure.AnnotatedType

/-!
# Instructions

A procedure is a list of instructions for a machine with an operand stack. An instruction may name the *anchor* it
was made from, a construct of the source text, and variables by their position in the procedure's table.
-/

namespace NullCheck

/-- The position of a variable in its procedure's table. -/
abbrev VariableId := Nat

/-- The position of an anchor in its procedure's table. -/
abbrev AnchorId := Nat

/-- Describes a value that can be pushed. -/
inductive Operand where
  /-- The value of a variable, perhaps one that is read through a method. -/
  | var (id : VariableId) (viaMethods : Bool)
  | constant (value : Constant)
  /-- Some value of a type. -/
  | typed (type : JvmType) (nullness : Nullness)
  | notNull (type : JvmType)
  | unknown
deriving DecidableEq, Repr

inductive BinaryOperator where
  | eq
  | ne
  | lt
  | le
  | gt
  | ge
  | instanceOf
  | plus
  | minus
  | mul
  | div
  | rem
  | and
  | or
  | xor
deriving DecidableEq, Repr

namespace BinaryOperator

def all : List BinaryOperator :=
  [.eq, .ne, .lt, .le, .gt, .ge, .instanceOf, .plus, .minus, .mul, .div, .rem, .and, .or, .xor]

def name : BinaryOperator → String
  | .eq => "eq"
  | .ne => "ne"
  | .lt => "lt"
  | .le => "le"
  | .gt => "gt"
  | .ge => "ge"
  | .instanceOf => "instance_of"
  | .plus => "plus"
  | .minus => "minus"
  | .mul => "mul"
  | .div => "div"
  | .rem => "rem"
  | .and => "and"
  | .or => "or"
  | .xor => "xor"

def symbol : BinaryOperator → String
  | .eq => "=="
  | .ne => "!="
  | .lt => "<"
  | .le => "<="
  | .gt => ">"
  | .ge => ">="
  | .instanceOf => "instanceof"
  | .plus => "+"
  | .minus => "-"
  | .mul => "*"
  | .div => "/"
  | .rem => "%"
  | .and => "&"
  | .or => "|"
  | .xor => "^"

def isComparison : BinaryOperator → Bool
  | .eq | .ne | .lt | .le | .gt | .ge => true
  | _ => false

end BinaryOperator

/-- The coercion that a call stands for, if any. -/
inductive CallKind where
  | regular
  | boxing
  | unboxing
  | cast
deriving DecidableEq, Repr

namespace CallKind

def all : List CallKind := [.regular, .boxing, .unboxing, .cast]

def name : CallKind → String
  | .regular => "regular"
  | .boxing => "boxing"
  | .unboxing => "unboxing"
  | .cast => "cast"

end CallKind

/-- What a method goes by. -/
structure MethodKey where
  owner : String
  name : String
  descriptor : String
deriving DecidableEq, Repr

/-- The text of a key: the owner, the name and the descriptor. -/
def MethodKey.display (k : MethodKey) : String := k.owner ++ "." ++ k.name ++ k.descriptor

structure Argument where
  type : Option JvmType
  anchor : Option AnchorId
deriving DecidableEq, Repr

/-- A call. The qualifier and then the arguments are on the stack. -/
structure MethodCall where
  method : Option MethodKey
  arguments : List Argument
  resultType : Option JvmType
  kind : CallKind
  isConstructor : Bool
  /-- The result, where it is known beforehand. -/
  precalculated : Option Constant
  /-- Whether the call may change fields. -/
  flushFields : Bool
  /-- What the call makes of the type variables of the method. -/
  typeBindings : TypeBindings
deriving DecidableEq, Repr

/-- A cast to a type. The operand stays on the stack. -/
structure TypeCast where
  /-- What is cast, if it is to be checked. -/
  casted : Option Operand
  target : JvmType
deriving DecidableEq, Repr

inductive Operation where
  | push (value : Operand)
  | pop
  | dup
  | assign
  | checkReturnValue
  /-- Reads a field of the top of the stack, which is dereferenced if the access is `physical`. -/
  | fieldReference (physical : Bool)
  | typeCast (cast : TypeCast)
  | methodCall (call : MethodCall)
  | binop (operator : Option BinaryOperator)
  | goto (target : Nat)
  /-- Jumps if the top of the stack is true, or false for a negated jump. -/
  | conditionalGoto (target : Nat) (negated : Bool)
  | flushVariable (id : VariableId)
  | leave
deriving DecidableEq, Repr

namespace Operation

def name : Operation → String
  | .push _ => "push"
  | .pop => "pop"
  | .dup => "dup"
  | .assign => "assign"
  | .checkReturnValue => "check_return_value"
  | .fieldReference _ => "field_reference"
  | .typeCast _ => "type_cast"
  | .methodCall _ => "method_call"
  | .binop _ => "binop"
  | .goto _ => "goto"
  | .conditionalGoto .. => "conditional_goto"
  | .flushVariable _ => "flush_variable"
  | .leave => "return"

def jumpTarget? : Operation → Option Nat
  | .goto target | .conditionalGoto target _ => some target
  | _ => none

end Operation

structure Instruction where
  index : Nat
  anchor : Option AnchorId
  operation : Operation
deriving DecidableEq, Repr

end NullCheck
