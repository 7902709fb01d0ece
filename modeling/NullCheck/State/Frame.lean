import NullCheck.State.Partition
import NullCheck.Value.Scope

/-!
# Frames

A frame is the state of a procedure between two instructions, as far as it is known: the operand stack, what was
last assigned to each variable, which atoms are equal or differ, which types variables have or have not, and which
may be null. Two frames are equal when all of that is.

Conditions are *applied* to a frame: the frame takes on what the condition says, and an outcome tells whether the
condition can hold at all. A frame to which a condition was applied in vain is still a frame, and may be used on.
-/

namespace NullCheck

/-- What is known of a variable's value beside equalities. -/
structure Facts where
  /-- Whether the value was said to be nullable. -/
  nullable : Bool
  /-- Types that the value has unless it is null, in order. -/
  instanceOf : List JvmType
  /-- Types that the value has not, in order. -/
  notInstanceOf : List JvmType
deriving DecidableEq, Repr, Hashable

/-- The state of a procedure between two instructions. -/
structure Frame where
  /-- The operand stack, its top first. -/
  stack : List Value
  partition : Partition
  /-- Facts by variable value, in order. -/
  facts : List (Value × Facts)
  /-- What was last assigned, by variable, in order. -/
  bindings : List (VariableId × Value)
  fieldReferenced : Bool
deriving DecidableEq, Repr

namespace Frame

def hashedDepth : Nat := 16

/-- The hash of a frame looks at the stack's height and its topmost values, as stacks may become high. -/
instance : Hashable Frame where
  hash f :=
    mixHash (mixHash (hash f.stack.length) (hash (f.stack.take hashedDepth)))
      (hash (f.partition, f.facts, f.bindings, f.fieldReferenced))

/-- The frame of which nothing is known. -/
def empty : Frame := ⟨[], .empty, [], [], false⟩

variable (f : Frame)

/-! ## The stack and the bindings -/

def push (v : Value) : Frame := { f with stack := v :: f.stack }

def peek? : Option Value := f.stack.head?

/-- Takes the top of the stack; nothing is known of what an empty stack yields. -/
def pop : Value × Frame := (f.stack.headD .unknown, { f with stack := f.stack.tail })

def binding? (id : VariableId) : Option Value := Sorted.get? id f.bindings

def withFieldReferenced : Frame := { f with fieldReferenced := true }

/-! ## What is known of a value -/

def isNull (v : Value) : Bool :=
  v = .null ||
    -- nothing but an atom has a class
    v.isAtom &&
      match f.partition.slot? v, f.partition.slot? .null with
      | some a, some b => a = b
      | _, _ => false

def isNotNull : Value → Bool
  | .notNull _ | .boxed _ | .typed _ .nonNull => true
  | .constant c => !c.isNull
  | .var id viaMethods => (f.partition.slot? (.var id viaMethods)).any f.partition.isNotNull
  | .unboxed v => (f.partition.slot? (.unboxed v)).any f.partition.isNotNull
  | _ => false

def canBeNaN : Value → Bool
  | .constant c => c.isNaN
  | .boxed v => canBeNaN v
  | .var id viaMethods => inClass (.var id viaMethods)
  | .unboxed v => inClass (.unboxed v)
  | _ => false
where
  /-- Whether NaN is in the class of an atom. -/
  inClass (v : Value) : Bool := (f.partition.slot? v).any fun slot => (f.partition.members slot).any Value.isNaN

def constant? (v : Value) : Option Value :=
  if v.isConstant then some v else (f.partition.slot? v).bind f.partition.constant?

def hasNullableMark (v : Value) : Bool := (Sorted.get? v f.facts).any Facts.nullable

/-- Whether a value was said to be nullable, itself or as an equal one. -/
def isMarkedNullable (v : Value) : Bool :=
  match f.partition.slot? v with
  | some slot => (f.partition.members slot).any f.hasNullableMark
  | none => f.hasNullableMark v

/-- Whether a value may be used where null is not expected: it is not known to be null, and was not said to be
nullable without a proof to the contrary. -/
def checkNotNullable (v : Value) : Bool :=
  if f.isNull v then false
  else
    match v with
    | .typed _ .nullable => false
    | .var id viaMethods => f.isNotNull (.var id viaMethods) || !f.isMarkedNullable (.var id viaMethods)
    | _ => true

/-! ## Facts -/

/-- The facts of a variable value of which none are noted: its declared type. -/
def initialFacts (s : Scope) (v : Value) : Facts :=
  ⟨false, ((s.staticType? v).filter JvmType.isReference).toList, []⟩

def factsOf (s : Scope) (v : Value) : Facts := (Sorted.get? v f.facts).getD (initialFacts s v)

def withFacts (v : Value) (facts : Facts) : Frame := { f with facts := Sorted.put v facts f.facts }

/-- Notes that a value has a type, as long as it is a reference type. -/
def recordType (s : Scope) (v : Value) (t : JvmType) : Frame :=
  if t.isReference then
    let facts := f.factsOf s v
    f.withFacts v { facts with instanceOf := Sorted.insert t facts.instanceOf }
  else f

def markNullable (s : Scope) (v : Value) : Frame := f.withFacts v { f.factsOf s v with nullable := true }

/-- Takes the nullable marks from a class that is known not to be null. -/
def refreshNullableMarks (slot : Nat) : Frame :=
  if f.partition.isNotNull slot then
    let members := f.partition.members slot
    { f with facts := f.facts.map fun e => if e.1 ∈ members then (e.1, { e.2 with nullable := false }) else e }
  else f

end Frame

end NullCheck
