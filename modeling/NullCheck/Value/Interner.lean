import Std.Data.HashMap
import NullCheck.Value.Scope
import NullCheck.Value.Table

/-!
# Values by number

Values are asked for one after the other. A request names the values that it is about by their numbers, which are the
answers to earlier requests. The table of values answers requests from the values themselves. An *interner* never looks
into a value: it keeps of each one a *node*, in which the parts of the value are named by number, and an index of the
nodes. So numbers are all that needs to be compared, as long as no value has two of them.
-/

namespace NullCheck

/-- A request for a value, which may be about values that were asked for before. -/
inductive ValueRequest where
  | operand (operand : Operand)
  | compare (left right : Nat) (operator : BinaryOperator) (negated : Bool)
  | negate (number : Nat)
  | box (number : Nat)
  | unbox (number : Nat)
deriving DecidableEq, Repr

namespace ValueRequest

/-- The values that a request is about. -/
def numbers : ValueRequest → List Nat
  | .operand _ => []
  | .compare left right _ _ => [left, right]
  | .negate n | .box n | .unbox n => [n]

/-- Makes requests in turn and collects the answers, as long as there are any. -/
def answerAll? {σ α : Type} (answer? : σ → ValueRequest → Option (α × σ)) : σ → List ValueRequest → Option (List α × σ)
  | t, [] => some ([], t)
  | t, r :: rs => do
    let (a, t) ← answer? t r
    let (as, t) ← answerAll? answer? t rs
    return (a :: as, t)

end ValueRequest

namespace ValueTable

variable (s : Scope) (t : ValueTable)

/-- The value with a number. -/
def value? (n : Nat) : Option Value := t.values[n]?

/-- The value that a request asks for, which may be no value at all. A number that names nothing has no answer. -/
def valueFor? : ValueRequest → Option (Option Value)
  | .operand o => some (some (s.valueOf o))
  | .compare left right operator negated => do
    let v ← t.value? left
    let w ← t.value? right
    return v.compare? w operator negated
  | .negate n => (t.value? n).map fun v => some v.negate
  | .box n => (t.value? n).map Value.box?
  | .unbox n => (t.value? n).map fun v => some v.unbox

def settle : Option Value → Option Nat × ValueTable
  | none => (none, t)
  | some v => ((t.insert v).number? v, t.insert v)

/-- The number of the value that a request asks for, and the table with it. -/
def answer? (r : ValueRequest) : Option (Option Nat × ValueTable) := (t.valueFor? s r).map t.settle

end ValueTable

/-! ## Nodes -/

/-- A symbolic value, the parts of which are named by number. -/
inductive ValueNode where
  | unknown
  | var (id : VariableId) (viaMethods : Bool)
  | constant (c : Constant)
  | relation (kind : RelationKind) (negated : Bool) (left right : Nat)
  | typed (type : JvmType) (nullness : Nullness)
  | notNull (type : JvmType)
  | boxed (wrapped : Nat)
  | unboxed (wrapper : Nat)
deriving DecidableEq, Repr, Hashable

/-- What is done about a request. -/
inductive ValueReply where
  /-- There is no such value. -/
  | none
  /-- The value has come up before, under this number. -/
  | kept (number : Nat)
  /-- The value has this node. -/
  | made (node : ValueNode)
deriving DecidableEq, Repr

/-- Nodes in the order in which they came up, and an index of them. -/
structure Interner where
  nodes : Array ValueNode
  numbers : Std.HashMap ValueNode Nat

namespace Interner

def empty : Interner := ⟨#[], ∅⟩

/-- The node of the value with a number. -/
def node? (t : Interner) (n : Nat) : Option ValueNode := t.nodes[n]?

/-- The number of a node, and the interner with it. A node that is new gets the next number. -/
def intern (t : Interner) (v : ValueNode) : Nat × Interner :=
  match t.numbers[v]? with
  | some n => (n, t)
  | none => (t.nodes.size, ⟨t.nodes.push v, t.numbers.insert v t.nodes.size⟩)

/-- The nodes that every interner begins with. -/
def reserved : List ValueNode :=
  [.unknown, .constant .null, .constant (.boolean true), .constant (.boolean false)]

def initial : Interner := reserved.foldl (fun t v => (t.intern v).2) empty

/-- The number of the unknown value. -/
def unknown : Nat := 0

/-- The number of a truth value. -/
def boolean (b : Bool) : Nat := if b then 2 else 3

end Interner

namespace ValueNode

/-- Whether a node is that of the value of a variable. -/
def isVar : ValueNode → Bool
  | .var .. => true
  | _ => false

def isBoxed : ValueNode → Bool
  | .boxed _ => true
  | _ => false

/-- Whether a value follows a variable or a coercion. -/
def isTracked : ValueNode → Bool
  | .var .. | .boxed _ | .unboxed _ => true
  | _ => false

/-- Whether two untracked values can be compared: something known not to be null, and a constant. -/
def isComparablePair : ValueNode → ValueNode → Bool
  | .notNull _, .constant _ => true
  | _, _ => false

/-- Compares two values, the nodes and numbers of which are given. -/
def compare (v w : ValueNode) (left right : Nat) (operator : BinaryOperator) (negated : Bool) : ValueReply :=
  match Value.canonical? operator with
  | none => .none
  | some (kind, flip) =>
    let negated := negated ^^ flip
    if v.isTracked then .made (.relation kind negated left right)
    else if w.isTracked then
      if kind = .instanceOf then .none else .made (.relation kind.flipped negated right left)
    else if kind = .instanceOf then .none
    else if isComparablePair v w then .made (.relation kind negated left right)
    else if isComparablePair w v then .made (.relation kind.flipped negated right left)
    else .none

/-- The opposite of a condition with the given number. What is no condition stays as it is. -/
def negate (n : Nat) : ValueNode → ValueReply
  | .relation kind negated left right => .made (.relation kind (!negated) left right)
  | .constant (.boolean b) => .kept (Interner.boolean !b)
  | _ => .kept n

/-- The boxed form of the value with the given number, if it has one. -/
def box (n : Nat) : ValueNode → ValueReply
  | .unboxed wrapper => .kept wrapper
  | .var .. => .made (.boxed n)
  | .constant c => if c.isNull then .none else .made (.boxed n)
  | _ => .none

def unbox (n : Nat) : ValueNode → ValueReply
  | .boxed wrapped => .kept wrapped
  | .constant _ => .kept n
  | .var .. => .made (.unboxed n)
  | _ => .kept Interner.unknown

end ValueNode

/-! ## Requests to an interner -/

/-- The value of an operand; unknown for a variable that is not declared. -/
def Scope.replyTo (s : Scope) : Operand → ValueReply
  | .var id viaMethods => if id < s.vars.length then .made (.var id viaMethods) else .kept Interner.unknown
  | .constant c => .made (.constant c)
  | .typed type nullness => .made (.typed type nullness)
  | .notNull type => .made (.notNull type)
  | .unknown => .kept Interner.unknown

namespace Interner

variable (s : Scope) (t : Interner)

/-- What is done about a request. A number that names nothing has no answer. -/
def reply? : ValueRequest → Option ValueReply
  | .operand o => some (s.replyTo o)
  | .compare left right operator negated => do
    let v ← t.node? left
    let w ← t.node? right
    return v.compare w left right operator negated
  | .negate n => (t.node? n).map (ValueNode.negate n)
  | .box n => (t.node? n).map (ValueNode.box n)
  | .unbox n => (t.node? n).map (ValueNode.unbox n)

def settle : ValueReply → Option Nat × Interner
  | .none => (none, t)
  | .kept n => (some n, t)
  | .made v => (some (t.intern v).1, (t.intern v).2)

/-- The number of the value that a request asks for, and the interner with it. -/
def answer? (r : ValueRequest) : Option (Option Nat × Interner) := (t.reply? s r).map t.settle

/-- The variable from which a value is made by boxing and unboxing, if it takes no more than so many nodes to tell. -/
def base? : Nat → Nat → Option (Option VariableId)
  | 0, _ => none
  | depth + 1, n =>
    match t.node? n with
    | some (.var id _) => some (some id)
    | some (.boxed wrapped) => base? depth wrapped
    | some (.unboxed wrapper) => base? depth wrapper
    | some _ => some none
    | none => none

end Interner

end NullCheck
