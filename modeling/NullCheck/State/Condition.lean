import NullCheck.State.Frame

/-!
# Conditions on frames

Applying a condition to a frame makes it take on what the condition says. The outcome is `false` when the condition
contradicts what is known; what was noted up to then stays noted.

Equalities merge classes or tell them apart. Orderings decide between integers and are not remembered. An
`instanceof` that holds tells that the value is not null and has the type; one that fails tells that the value has
not the type, or else that it is null.
-/

namespace NullCheck

/-- The outcome of applying a condition, and the frame as it was left. -/
structure Applied where
  holds : Bool
  frame : Frame
deriving DecidableEq, Repr

namespace Frame

variable (f : Frame)

/-! ## Equality -/

/-- Whether one of two values is known to be null and the other known not to be. -/
def nullnessContradicts (left right : Value) : Bool :=
  (f.isNotNull left && f.isNull right) || (f.isNull left && f.isNotNull right)

/-- The slots of two atoms, each made if need be. -/
def ensureSlots (left right : Value) : Nat × Nat × Frame :=
  let (a, p) := f.partition.ensure left
  let (b, p) := p.ensure right
  (a, b, { f with partition := p })

/-- Notes that the classes of two slots differ, unless that shows without a note. -/
def separate (a b : Nat) : Frame :=
  let f := if f.partition.inConflict a b then f else { f with partition := f.partition.separate a b }
  (f.refreshNullableMarks a).refreshNullableMarks b

/-- Makes one class of those of two slots. -/
def unite (a b : Nat) : Frame :=
  let (slot, p) := f.partition.merge a b
  { f with partition := p }.refreshNullableMarks slot

/-- Applies an equality of two values, or an inequality if `negated`. Between values of which one is no atom only
nullness is decided. -/
def applyEquality (left right : Value) (negated : Bool) : Applied :=
  if !left.isAtom || !right.isAtom then ⟨!f.nullnessContradicts left right || negated, f⟩
  else
    -- the classes that are made stay, however the condition turns out
    let (a, b, f) := f.ensureSlots left right
    if negated then
      if a = b then ⟨false, f⟩ else ⟨true, f.separate a b⟩
    else if a = b then ⟨true, f⟩
    else if f.partition.areDistinct a b || f.partition.inConflict a b then ⟨false, f⟩
    else ⟨true, f.unite a b⟩

/-! ## Order -/

/-- Decides an ordering of two constants; what are no integers may stand in any order. -/
def ordered (kind : RelationKind) (negated : Bool) (left right : Option Value) : Bool :=
  match left, right with
  | some (.constant (.integer a)), some (.constant (.integer b)) =>
    match kind with
    | .lt => decide (a < b) != negated
    | .gt => decide (b < a) != negated
    | _ => true
  | _, _ => true

/-- Applies an ordering. Nothing is before or behind itself. -/
def applyOrdering (kind : RelationKind) (negated : Bool) (left right : Value) : Applied :=
  match f.partition.slot? left, f.partition.slot? right with
  | some a, some b =>
    if a = b then ⟨negated, f⟩
    else ⟨ordered kind negated (f.partition.constant? a) (f.partition.constant? b), f⟩
  | _, _ => ⟨ordered kind negated (f.constant? left) (f.constant? right), f⟩

/-! ## Types -/

/-- Notes that a variable value has a type. Types it is known not to have, and types it is known to have that
exclude the new one, contradict. -/
def addInstanceOf (s : Scope) (v : Value) (t : JvmType) : Applied :=
  -- the facts are noted even where the condition contradicts them
  let facts := f.factsOf s v
  let f := f.withFacts v facts
  if t ∈ facts.instanceOf then ⟨true, f⟩
  else if facts.notInstanceOf.any fun excluded => s.hierarchy.isAssignable excluded t then ⟨false, f⟩
  else if facts.instanceOf.any fun known => !s.hierarchy.isConvertible t known then ⟨false, f⟩
  else ⟨true, f.withFacts v { facts with instanceOf := Sorted.insert t facts.instanceOf }⟩

/-- Notes that a variable value has not a type. A type below it that the value has contradicts. -/
def addNotInstanceOf (s : Scope) (v : Value) (t : JvmType) : Applied :=
  let facts := f.factsOf s v
  let f := f.withFacts v facts
  if t ∈ facts.notInstanceOf then ⟨true, f⟩
  else if facts.instanceOf.any fun known => s.hierarchy.isAssignable t known then ⟨false, f⟩
  else ⟨true, f.withFacts v { facts with notInstanceOf := Sorted.insert t facts.notInstanceOf }⟩

/-- Applies an `instanceof`. Only variables on the left and types on the right tell anything. -/
def applyInstanceOf (s : Scope) (negated : Bool) (left right : Value) : Applied :=
  match left.varId?, right.typeOperand? with
  | some _, some t =>
    if negated then
      -- a value that has the type fails the test only as null
      let r := f.addNotInstanceOf s left t
      if r.holds then r else r.frame.applyEquality left .null false
    else
      let r := f.applyEquality left .null true
      if r.holds then r.frame.addInstanceOf s left t else r
  | _, _ => ⟨true, f⟩

/-! ## Conditions -/

def applyRelation (s : Scope) (kind : RelationKind) (negated : Bool) (left right : Value) : Applied :=
  match kind with
  | .eq => f.applyEquality left right negated
  | .lt | .gt => f.applyOrdering kind negated left right
  | .instanceOf => f.applyInstanceOf s negated left right

/-- Applies a condition. What is neither a comparison nor a truth value tells nothing. -/
def applyCondition (s : Scope) : Value → Applied
  | .constant (.boolean b) => ⟨b, f⟩
  | .relation kind negated left right => f.applyRelation s kind negated left right
  | _ => ⟨true, f⟩

/-- Applies a cast, given as an `instanceof`: it also succeeds on null, and to a primitive type always. -/
def applyCast (s : Scope) : Value → Applied
  | .relation _ _ left right =>
    match left.varId?, right.typeOperand? with
    | some _, some t =>
      if t.isPrimitive then ⟨true, f⟩
      else if f.isNull left then ⟨true, f⟩
      else f.addInstanceOf s left t
    | _, _ => ⟨true, f⟩
  | _ => ⟨true, f⟩

/-- Demands that a value is not null. -/
def applyNotNull (v : Value) : Applied :=
  if f.checkNotNullable v then f.applyEquality v .null true else ⟨false, f⟩

/-! ## Assignments -/

/-- Forgets all that is known of a variable. -/
def flushVariable (id : VariableId) : Frame :=
  let forgotten (v : Value) : Bool := v.base? = some id
  { f with
    partition := f.partition.forget forgotten
    facts := f.facts.filter fun e => !forgotten e.1
    bindings := f.bindings.filter fun e => e.1 ≠ id }

/-- Forgets all that is known of fields. -/
def flushFields (s : Scope) : Frame := s.fieldVariables.foldl flushVariable f

/-- Notes what a value that was assigned tells about the variable. -/
def adopt (s : Scope) (target value : Value) : Frame :=
  match value with
  | .notNull t => (f.applyEquality target .null true).frame.recordType s target t
  | .typed t nullness =>
    let f :=
      match nullness with
      | .nonNull => (f.applyEquality target .null true).frame
      | .nullable => f.markNullable s target
      | .unknown => f
    f.recordType s target t
  | .unknown | .relation .. => f
  | value => (f.applyEquality target value false).frame

/-- Assigns to a variable. All that was known of it is forgotten; assigning it to itself changes nothing. -/
def assign (s : Scope) (target value : Value) : Frame :=
  match target.varId? with
  | none => f
  | some id =>
    if value = target then f
    else
      -- what was known is forgotten first, also what `value` shares with the variable
      let f := f.flushVariable id
      { f with bindings := Sorted.put id value f.bindings }.adopt s target value

end Frame

end NullCheck
