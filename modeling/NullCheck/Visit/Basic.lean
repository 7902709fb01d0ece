import NullCheck.Finding.Collector
import NullCheck.State.Condition
import NullCheck.Visit.Context

/-!
# Visiting an instruction

To visit an instruction in a frame is to find out in which frames the procedure may go on, and where. A visit is a
function of instruction and frame alone; all else that it finds is part of its result:

- the defects that show, in order;
- the values that come up, in order;
- what it observes about a comparison (`Observation`);
- how many outcomes of a condition it ruled out, and whether it went on both ways.
-/

namespace NullCheck

/-- Where a procedure may go on, and in which frame. -/
structure Successor where
  index : Nat
  frame : Frame
deriving DecidableEq, Repr, Hashable

/-- What visits observe about a binary operation. -/
structure Observation where
  reached : Bool
  canBeTrue : Bool
  canBeFalse : Bool
  /-- Its operand may be null. -/
  possiblyNull : Bool
  /-- As an `instanceof` it may fail on a value that is not null. -/
  useful : Bool
  /-- Nothing is to be said about its outcome. -/
  silenced : Bool
deriving DecidableEq, Repr

namespace Observation

def none : Observation := ⟨false, false, false, false, false, false⟩

def outcome (b : Bool) : Observation := { none with reached := true, canBeTrue := b, canBeFalse := !b }

def either : Observation := { none with reached := true, canBeTrue := true, canBeFalse := true }

/-- What two visits observe together. -/
def join (a b : Observation) : Observation where
  reached := a.reached || b.reached
  canBeTrue := a.canBeTrue || b.canBeTrue
  canBeFalse := a.canBeFalse || b.canBeFalse
  possiblyNull := a.possiblyNull || b.possiblyNull
  useful := a.useful || b.useful
  silenced := a.silenced || b.silenced

/-- Whether at most one outcome was seen. -/
def isConstant (o : Observation) : Bool := !o.canBeTrue || !o.canBeFalse

theorem join_comm (a b : Observation) : a.join b = b.join a := by
  simp [join, Bool.or_comm]

theorem join_assoc (a b c : Observation) : (a.join b).join c = a.join (b.join c) := by
  simp [join, Bool.or_assoc]

@[simp] theorem join_self (a : Observation) : a.join a = a := by
  simp [join]

@[simp] theorem none_join (a : Observation) : none.join a = a := by
  simp [join, none]

end Observation

structure Visit where
  next : List Successor
  defects : List Defect
  built : List Value
  observation : Observation
  /-- How many outcomes of a condition were ruled out. -/
  pruned : Nat
  /-- How many conditions went both ways. -/
  forks : Nat
deriving DecidableEq, Repr

namespace Visit

/-- A visit that goes on as told and finds nothing. -/
def goOn (next : List Successor) : Visit := ⟨next, [], [], .none, 0, 0⟩

def advance (i : Instruction) (f : Frame) : Visit := goOn [⟨i.index + 1, f⟩]

/-- A frame after a check, with what the check found. -/
structure Checked where
  frame : Frame
  defects : List Defect
  built : List Value

def Checked.clean (f : Frame) : Checked := ⟨f, [], []⟩

variable (c : Context)

/-- Notes that a variable that failed a check is not null from now on, so that a path reports it once. -/
def rebindNotNull (f : Frame) (v : Value) : Frame × List Value :=
  match v.varId? with
  | some id =>
    let notNull := Value.notNull (c.scope.variableType id)
    (f.assign c.scope v notNull, [notNull])
  | none => (f, [])

/-- Demands that a value is not null; if it may be, that is the given defect. -/
def demandNotNull (k : Checked) (v : Value) (d : Defect) : Checked :=
  let r := k.frame.applyNotNull v
  if r.holds then { k with frame := r.frame }
  else
    let (f, built) := rebindNotNull c r.frame v
    ⟨f, k.defects ++ [d], k.built ++ built⟩

/-! ## Assignments, casts and calls -/

/-- Assigns the top of the stack to what lies below it, and leaves the latter. -/
def assign (i : Instruction) (f : Frame) : Visit :=
  let (source, f) := f.pop
  let (target, f) := f.pop
  match target.varId?.bind fun id => c.procedure.vars[id]? with
  | none => advance i (f.push target)
  | some decl =>
    -- null that is stored in spite of an annotation is reported, and stored all the same
    let r := if c.resolver.isNotNull decl.annotations then f.applyNotNull source else ⟨true, f⟩
    let f := if decl.isUntracked then r.frame else r.frame.assign c.scope target source
    { advance i (f.push target) with defects := if r.holds then [] else [.nullAssigned] }

/-- Checks a cast, if its operand is known. -/
def checkCast (cast : TypeCast) (f : Frame) : Checked :=
  match cast.casted with
  | none => .clean f
  | some operand =>
    let v := c.scope.valueOf operand
    let t := Value.typed cast.target .unknown
    match v.compare? t .instanceOf false with
    | none => ⟨f, [], [v, t]⟩
    | some condition =>
      let r := f.applyCast c.scope condition
      ⟨r.frame, if r.holds then [] else [.impossibleCast], [v, t, condition]⟩

/-- Checks a cast, and unboxes the top of the stack for a primitive type. -/
def typeCast (i : Instruction) (cast : TypeCast) (f : Frame) : Visit :=
  let checked := checkCast c cast f
  if cast.target.isPrimitive then
    let (top, f) := checked.frame.pop
    let v := top.unbox
    { advance i (f.push v) with defects := checked.defects, built := checked.built ++ [v] }
  else
    { advance i checked.frame with defects := checked.defects, built := checked.built }

/-- Takes the argument at a position from the stack and checks it. -/
def checkArgument (nullness : List Nullness) (k : Checked) (position : Nat) : Checked :=
  let (argument, f) := k.frame.pop
  let k := { k with frame := f }
  match nullness[position]? with
  | some .nonNull => demandNotNull c k argument (.nullArgument position)
  | some .unknown =>
    if f.checkNotNullable argument then k
    else { k with defects := k.defects ++ [.nullArgumentUnannotated position] }
  | _ => k

/-- Takes the arguments of a call from the stack, the last one first, and checks them. -/
def checkArguments (call : MethodCall) (f : Frame) : Checked :=
  let nullness := c.argumentNullness call
  (List.range call.arguments.length).reverse.foldl (checkArgument c nullness) (.clean f)

/-- Calls a method: checks the arguments and the qualifier and leaves the result. -/
def methodCall (i : Instruction) (call : MethodCall) (f : Frame) : Visit :=
  let k := checkArguments c call f
  let (qualifier, f) := k.frame.pop
  let k := demandNotNull c { k with frame := f } qualifier
    (if call.kind = .unboxing then .unboxedNull else .callOnNull)
  let result := c.resultValue call qualifier
  let f := k.frame.push result
  let f := if call.flushFields then f.flushFields c.scope else f
  { advance i f with defects := k.defects, built := k.built ++ [result] }

/-! ## Comparisons -/

/-- Whether a value is one that, compared equal to another, shows the other not to be null. -/
def showsNotNull (f : Frame) : Value → Bool
  | .var id viaMethods => f.isNotNull (.var id viaMethods)
  | .constant (.enumeration ..) => true
  | _ => false

/-- Of two values that are equal, notes one not to be null when the other is not. -/
def shareNotNull (f : Frame) (left right : Value) : Frame × List Value :=
  let other : Option Value :=
    if showsNotNull f left then some right
    else if showsNotNull f right then some left
    else none
  match other.bind fun v => v.compare? .null .eq true with
  | some condition => ((f.applyCondition c.scope condition).frame, [condition])
  | none => (f, [])

/-- Compares two constants. NaN is not even equal to itself. -/
def compareConstants (i : Instruction) (f : Frame) (operator : BinaryOperator) (left right : Value) : Visit :=
  let nan := f.canBeNaN left || f.canBeNaN right
  let negated := (operator = .ne) ^^ nan
  let b := (left = right) ^^ negated
  { advance i (f.push (.boolean b)) with observation := .outcome b }

/-- One outcome of a comparison, if it is possible: `equal` tells that the operands are alike then. -/
def follow (f : Frame) (condition : Value) (equal : Bool) (left right : Value) : Option (Frame × List Value) :=
  let r := f.applyCondition c.scope condition
  if r.holds then some (if equal then shareNotNull c r.frame left right else (r.frame, [])) else none

/-- Goes on with the outcomes that are possible for a comparison. -/
def fork (i : Instruction) (operator : BinaryOperator) (f : Frame) (left right relation : Value) : Visit :=
  let negated := match relation with | .relation _ negated _ _ => negated | _ => false
  let opposite := relation.negate
  -- both outcomes are followed from the same frame
  let yes := follow c f relation (!negated) left right
  let no := follow c f opposite negated left right
  let successor (b : Bool) (r : Frame × List Value) : Successor := ⟨i.index + 1, r.1.push (.boolean b)⟩
  let builtBy (r : Option (Frame × List Value)) : List Value := (r.map Prod.snd).getD []
  { next := (yes.map (successor true)).toList ++ (no.map (successor false)).toList
    defects := []
    built := [relation, opposite] ++ builtBy yes ++ builtBy no
    observation :=
      { reached := true
        canBeTrue := yes.isSome
        canBeFalse := no.isSome
        possiblyNull := true
        useful := operator = .instanceOf && no.any fun r => !r.1.isNull left
        silenced := left.isViaMethods || right.isViaMethods }
    pruned := yes.isNone.toNat + no.isNone.toNat
    forks := (yes.isSome && no.isSome).toNat }

/-- What shows at an `instanceof` whose operand is known by type alone. -/
def observeTypes (left right : Value) : Observation :=
  let operand : Option JvmType :=
    match left with
    | .notNull t | .typed t _ => some t
    | _ => none
  match right with
  | .typed checked _ =>
    let possiblyNull := match left with | .typed .. => true | _ => false
    let redundant := operand.any fun t => c.hierarchy.isAssignable checked t
    { Observation.either with possiblyNull := possiblyNull, useful := !redundant }
  | _ => { Observation.either with useful := true }

/-- Replaces the two topmost values of the stack by the outcome of an operation on them. -/
def binop (i : Instruction) (operator : Option BinaryOperator) (f : Frame) : Visit :=
  let (right, f) := f.pop
  let (left, f) := f.pop
  match operator with
  | none => { advance i (f.push .unknown) with observation := .either }
  | some operator =>
    -- two constants are compared at once, all others by a relation that is applied
    if (operator = .eq ∨ operator = .ne) ∧ left.isConstant ∧ right.isConstant then
      compareConstants i f operator left right
    else
      let negated := f.canBeNaN left || f.canBeNaN right
      match left.compare? right operator negated with
      | some relation => fork c i operator f left right relation
      | none =>
        match operator with
        | .plus =>
          let v := Value.notNull .string
          { advance i (f.push v) with built := [v], observation := .either }
        | .instanceOf => { advance i (f.push .unknown) with observation := observeTypes c left right }
        | _ => { advance i (f.push .unknown) with observation := .either }

/-! ## Jumps -/

/-- Jumps or goes on, as the top of the stack says. -/
def conditionalGoto (i : Instruction) (target : Nat) (negated : Bool) (f : Frame) : Visit :=
  let (condition, f) := f.pop
  match condition with
  | .constant (.boolean b) => goOn [⟨if b ≠ negated then target else i.index + 1, f⟩]
  | .relation .. =>
    let jump := if negated then condition.negate else condition
    let stay := jump.negate
    let taken := f.applyCondition c.scope jump
    let passed := f.applyCondition c.scope stay
    { goOn ((if taken.holds then [⟨target, taken.frame⟩] else []) ++
        (if passed.holds then [⟨i.index + 1, passed.frame⟩] else [])) with
      built := [jump, stay]
      pruned := (!taken.holds).toNat + (!passed.holds).toNat
      forks := (taken.holds && passed.holds).toNat }
  -- what is no condition may go either way
  | _ => goOn [⟨target, f⟩, ⟨i.index + 1, f⟩]

end Visit

/-! ## All instructions -/

def visit (c : Context) (i : Instruction) (f : Frame) : Visit :=
  match i.operation with
  | .push operand =>
    let v := c.scope.valueOf operand
    { Visit.advance i (f.push v) with built := [v] }
  | .pop => .advance i f.pop.2
  | .dup => .advance i (f.push (f.peek?.getD .unknown))
  | .assign => .assign c i f
  | .checkReturnValue =>
    let (v, f) := f.pop
    { Visit.advance i f with defects := if f.checkNotNullable v then [] else [.nullReturned] }
  | .fieldReference physical =>
    let (qualifier, f) := f.withFieldReferenced.pop
    if physical then
      let k := Visit.demandNotNull c (.clean f) qualifier .fieldOfNull
      { Visit.advance i k.frame with defects := k.defects, built := k.built }
    else .advance i f
  | .typeCast cast => .typeCast c i cast f
  | .methodCall call => .methodCall c i call f
  | .binop operator => .binop c i operator f
  | .goto target => .goOn [⟨target, f⟩]
  | .conditionalGoto target negated => .conditionalGoto c i target negated f
  | .flushVariable id => .advance i (f.flushVariable id)
  | .leave => .goOn []

end NullCheck
