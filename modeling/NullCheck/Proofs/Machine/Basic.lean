import Mathlib.Logic.Function.Basic
import Mathlib.Logic.Relation
import NullCheck.Visit.Basic

/-!
# Procedures as machines

What a procedure does when it runs: a machine with an environment of variables and an operand stack, which executes
one instruction after the other. It covers the operations on variables, comparisons, jumps and accesses to fields;
casts, calls, flushes and tests for types have no step.

Where the value of an operand is known by type only, a machine takes any value that is allowed; so a procedure has
many runs. A run ends where null is dereferenced or stored in a variable that is annotated not to be null, where an
ordering is to compare what are no integers, and where no instruction is left.

## The architecture

* **`Datum`**, **`Cell`**, **`Machine`**: values, stack cells and states. A cell knows the variable it was read from,
  as an assignment is made to what lies on the stack.
* **`Machine.Step`**: one constructor for each way to execute an instruction.
* **`Context.Runs`**: any number of steps.
-/

namespace NullCheck

/-- A value of a machine: a constant or some other object. -/
inductive Datum where
  | constant (c : Constant)
  | object (id : Nat)
deriving DecidableEq, Repr

namespace Datum

def null : Datum := .constant .null

def boolean (b : Bool) : Datum := .constant (.boolean b)

def integer (i : Int) : Datum := .constant (.integer i)

end Datum

abbrev Environment := VariableId → Datum

/-- A value on the stack, and the variable it was read from. -/
structure Cell where
  value : Datum
  origin : Option VariableId
deriving DecidableEq, Repr

/-- A value on the stack that was not read from a variable. -/
def Cell.fresh (d : Datum) : Cell := ⟨d, none⟩

/-- The state of a procedure that runs. -/
structure Machine where
  index : Nat
  env : Environment
  /-- The operand stack, its top first. -/
  stack : List Cell

def Machine.goOn (m : Machine) (stack : List Cell) : Machine := { m with index := m.index + 1, stack := stack }

/-- Goes on behind the instruction with a value that was stored in a variable, which is left on the stack. -/
def Machine.store (m : Machine) (id : VariableId) (d : Datum) (stack : List Cell) : Machine where
  index := m.index + 1
  env := Function.update m.env id d
  stack := ⟨d, some id⟩ :: stack

/-- Takes the top of a stack; an empty stack yields any value. -/
inductive Pop : List Cell → Cell → List Cell → Prop
  | top (a : Cell) (rest : List Cell) : Pop (a :: rest) a rest
  | empty (d : Datum) : Pop [] (.fresh d) []

/-- What an operand may be when it is pushed. -/
inductive Operand.Yields (vars : List VariableDecl) (env : Environment) : Operand → Cell → Prop
  | declared {id : VariableId} (h : id < vars.length) (viaMethods : Bool) :
      Yields vars env (.var id viaMethods) ⟨env id, some id⟩
  | undeclared {id : VariableId} (h : ¬id < vars.length) (viaMethods : Bool) (d : Datum) :
      Yields vars env (.var id viaMethods) (.fresh d)
  | constant (c : Constant) : Yields vars env (.constant c) (.fresh (.constant c))
  | typed (t : JvmType) {nullness : Nullness} {d : Datum} (h : nullness = .nonNull → d ≠ .null) :
      Yields vars env (.typed t nullness) (.fresh d)
  | notNull (t : JvmType) {d : Datum} (h : d ≠ .null) : Yields vars env (.notNull t) (.fresh d)
  | unknown (d : Datum) : Yields vars env .unknown (.fresh d)

/-- What a binary operation may make of two values. Equalities compare all values, orderings integers only; a sum is
a string or a number, and any value may come of what is not modelled. -/
inductive Computes : Option BinaryOperator → Datum → Datum → Datum → Prop
  | eq (a b : Datum) : Computes (some .eq) a b (.boolean (a = b))
  | ne (a b : Datum) : Computes (some .ne) a b (.boolean (a ≠ b))
  | lt (i j : Int) : Computes (some .lt) (.integer i) (.integer j) (.boolean (i < j))
  | le (i j : Int) : Computes (some .le) (.integer i) (.integer j) (.boolean (i ≤ j))
  | gt (i j : Int) : Computes (some .gt) (.integer i) (.integer j) (.boolean (j < i))
  | ge (i j : Int) : Computes (some .ge) (.integer i) (.integer j) (.boolean (j ≤ i))
  | plus (a b : Datum) {d : Datum} (h : d ≠ .null) : Computes (some .plus) a b d
  | other {operator : Option BinaryOperator} (hcomparison : operator.all fun o => !o.isComparison)
      (hplus : operator ≠ some .plus) (a b d : Datum) : Computes operator a b d

/-- A step of a machine that executes an instruction. -/
inductive Machine.Step (c : Context) (i : Instruction) (m : Machine) : Machine → Prop
  | push {operand : Operand} {a : Cell} (hi : i.operation = .push operand)
      (ha : operand.Yields c.procedure.vars m.env a) : Step c i m (m.goOn (a :: m.stack))
  | pop {a : Cell} {rest : List Cell} (hi : i.operation = .pop) (ha : Pop m.stack a rest) : Step c i m (m.goOn rest)
  /-- The top of the stack is doubled; on an empty stack comes any value. -/
  | dup {a : Cell} {rest : List Cell} (hi : i.operation = .dup) (ha : Pop m.stack a rest) :
      Step c i m (m.goOn (a :: m.stack))
  /-- The top of the stack is stored in the variable that the cell below it was read from. -/
  | assign {source target : Cell} {below rest : List Cell} {id : VariableId} {decl : VariableDecl}
      (hi : i.operation = .assign) (hsource : Pop m.stack source below) (htarget : Pop below target rest)
      (hid : target.origin = some id) (hdecl : c.procedure.vars[id]? = some decl)
      (hnull : c.resolver.isNotNull decl.annotations → source.value ≠ .null) :
      Step c i m (m.store id source.value rest)
  /-- What was not read from a variable cannot be assigned to. -/
  | assignElsewhere {source target : Cell} {below rest : List Cell} (hi : i.operation = .assign)
      (hsource : Pop m.stack source below) (htarget : Pop below target rest) (horigin : target.origin = none) :
      Step c i m (m.goOn (target :: rest))
  | checkReturnValue {a : Cell} {rest : List Cell} (hi : i.operation = .checkReturnValue)
      (ha : Pop m.stack a rest) : Step c i m (m.goOn rest)
  | fieldReference {physical : Bool} {a : Cell} {rest : List Cell} (hi : i.operation = .fieldReference physical)
      (ha : Pop m.stack a rest) (hnull : physical → a.value ≠ .null) : Step c i m (m.goOn rest)
  | binop {operator : Option BinaryOperator} {left right : Cell} {below rest : List Cell} {d : Datum}
      (hi : i.operation = .binop operator) (hright : Pop m.stack right below) (hleft : Pop below left rest)
      (hd : Computes operator left.value right.value d) : Step c i m (m.goOn (.fresh d :: rest))
  | goto {target : Nat} (hi : i.operation = .goto target) : Step c i m { m with index := target }
  /-- What is no truth value may decide either way. -/
  | conditionalGoto {target : Nat} {negated : Bool} {a : Cell} {rest : List Cell} (jumps : Bool)
      (hi : i.operation = .conditionalGoto target negated) (ha : Pop m.stack a rest)
      (hjumps : ∀ b, a.value = .boolean b → jumps = (b ^^ negated)) :
      Step c i m { m with index := if jumps then target else m.index + 1, stack := rest }

namespace Context

variable (c : Context)

def Executes (m m' : Machine) : Prop := ∃ i, c.procedure.instructions[m.index]? = some i ∧ Machine.Step c i m m'

/-- A machine comes to be another one by any number of steps. -/
def Runs : Machine → Machine → Prop := Relation.ReflTransGen c.Executes

/-- A machine that begins to run: the parameters that are declared not to be null are not. -/
structure Begins (m : Machine) : Prop where
  index : m.index = 0
  stack : m.stack = []
  notNull : ∀ (id : VariableId) (v : VariableDecl), c.procedure.vars[id]? = some v → v.kind = .parameter →
    v.type.isReference = true → c.resolver.elementNullness v.annotations [] = .nonNull → m.env id ≠ .null

end Context

end NullCheck
