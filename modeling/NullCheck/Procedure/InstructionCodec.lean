import NullCheck.Json.Variant
import NullCheck.Procedure.Instruction

/-!
# Instructions in documents

An instruction is an object with its position and anchor, a member `op` that names the operation, and the members
of the operation beside it. Position and anchor are read as they come; everything else is read through first and
given a meaning when the object has ended, so a misfit in it is reported where the instruction stands.
-/

namespace NullCheck

def Nullness.codec : Codec Nullness := Variant.namesCodec Nullness.name Nullness.all

def BinaryOperator.codec : Codec BinaryOperator := Variant.namesCodec BinaryOperator.name BinaryOperator.all

def CallKind.codec : Codec CallKind := Variant.namesCodec CallKind.name CallKind.all

namespace Operand

def variableRecord : Record (VariableId × Bool) (VariableId × Bool) :=
  Record.make Prod.mk
    |>.field "variable" Prod.fst .index
    |>.fieldOr false "via_methods" Prod.snd .bool

def constantRecord : Record Constant Constant := Record.make id |>.field "value" id Constant.codec

def typedRecord : Record (JvmType × Nullness) (JvmType × Nullness) :=
  Record.make Prod.mk
    |>.field "ty" Prod.fst JvmType.codec
    |>.fieldOr .unknown "nullness" Prod.snd Nullness.codec

def notNullRecord : Record JvmType JvmType := Record.make id |>.field "ty" id JvmType.codec

def variants : List (Tagged Operand) :=
  [.record "variable" "struct variant Operand::Variable" (fun v => .var v.1 v.2) variableRecord,
   .record "constant" "struct variant Operand::Constant" .constant constantRecord,
   .record "type" "struct variant Operand::Type" (fun t => .typed t.1 t.2) typedRecord,
   .record "not_null" "struct variant Operand::NotNull" .notNull notNullRecord,
   .bare "unknown" .unknown]

/-- The members of an operand, the kind first. -/
def members : Operand → List (String × Json)
  | .var id viaMethods => ("kind", .str "variable") :: variableRecord.write (id, viaMethods)
  | .constant value => ("kind", .str "constant") :: constantRecord.write value
  | .typed type nullness => ("kind", .str "type") :: typedRecord.write (type, nullness)
  | .notNull type => ("kind", .str "not_null") :: notNullRecord.write type
  | .unknown => [("kind", .str "unknown")]

def codec : Codec Operand where
  write o := .object o.members
  read := Tagged.read "kind" "internally tagged enum Operand" variants

end Operand

def MethodKey.codec : Codec MethodKey :=
  Record.make MethodKey.mk
    |>.field "owner" owner .string
    |>.field "name" name .string
    |>.field "descriptor" descriptor .string
    |>.codec "MethodKey"

def Argument.codec : Codec Argument :=
  Record.make Argument.mk
    |>.fieldOr none "ty" type (.option JvmType.codec)
    |>.fieldOr none "anchor" anchor (.option .index)
    |>.codec "Argument"

def MethodCall.record : Record MethodCall MethodCall :=
  Record.make MethodCall.mk
    |>.fieldOr none "method" method (.option MethodKey.codec)
    |>.fieldOr [] "args" arguments (.list Argument.codec)
    |>.fieldOr none "result_type" resultType (.option JvmType.codec)
    |>.fieldOr .regular "method_type" kind CallKind.codec
    |>.fieldOr false "is_constructor" isConstructor .bool
    |>.fieldOr none "precalculated" precalculated (.option Constant.codec)
    |>.fieldOr false "flush_fields" flushFields .bool
    |>.fieldOr .empty "type_bindings" typeBindings TypeBindings.codec

def TypeCast.record : Record TypeCast TypeCast :=
  Record.make TypeCast.mk
    |>.fieldOr none "casted" casted (.option Operand.codec)
    |>.field "cast_to" target JvmType.codec

namespace Operation

def pushRecord : Record Operand Operand := Record.make id |>.field "value" id Operand.codec

/-- The member of a field access, which is physical unless it is said otherwise. -/
def fieldReferenceRecord : Record Bool Bool := Record.make id |>.fieldOr true "physical" id .bool

def binopRecord : Record (Option BinaryOperator) (Option BinaryOperator) :=
  Record.make id |>.fieldOr none "operator" id (.option BinaryOperator.codec)

/-- The member of a jump. -/
def gotoRecord : Record Nat Nat := Record.make id |>.field "target" id .index

/-- The members of a conditional jump. -/
def conditionalGotoRecord : Record (Nat × Bool) (Nat × Bool) :=
  Record.make Prod.mk
    |>.field "target" Prod.fst .index
    |>.fieldOr false "negated" Prod.snd .bool

def flushVariableRecord : Record VariableId VariableId := Record.make id |>.field "variable" id .index

def variants : List (Tagged Operation) :=
  [.record "push" "struct variant InstructionKind::Push" .push pushRecord,
   .bare "pop" .pop,
   .bare "dup" .dup,
   .bare "assign" .assign,
   .bare "check_return_value" .checkReturnValue,
   .record "field_reference" "struct variant InstructionKind::FieldReference" .fieldReference fieldReferenceRecord,
   .record "type_cast" "struct TypeCastInstruction" .typeCast TypeCast.record,
   .record "method_call" "struct MethodCallInstruction" .methodCall MethodCall.record,
   .record "binop" "struct BinopInstruction" .binop binopRecord,
   .record "goto" "struct variant InstructionKind::Goto" .goto gotoRecord,
   .record "conditional_goto" "struct variant InstructionKind::ConditionalGoto" (fun g => .conditionalGoto g.1 g.2)
     conditionalGotoRecord,
   .record "flush_variable" "struct variant InstructionKind::FlushVariable" .flushVariable flushVariableRecord,
   .bare "return" .leave]

/-- The members of an operation beside its name. -/
def content : Operation → List (String × Json)
  | .push value => pushRecord.write value
  | .fieldReference physical => fieldReferenceRecord.write physical
  | .typeCast cast => TypeCast.record.write cast
  | .methodCall call => MethodCall.record.write call
  | .binop operator => binopRecord.write operator
  | .goto target => gotoRecord.write target
  | .conditionalGoto target negated => conditionalGotoRecord.write (target, negated)
  | .flushVariable id => flushVariableRecord.write id
  | .pop | .dup | .assign | .checkReturnValue | .leave => []

end Operation

namespace Instruction

/-- What is known of an instruction while its members are read. -/
structure Gathered where
  index : Option Nat
  anchor : Option (Option AnchorId)
  /-- The members of the operation, last first. -/
  others : List (Option String × Json)

/-- Takes a member. -/
def Gathered.push (p : Place) (g : Gathered) : Option String × Json → Except ReadError Gathered
  | (none, _) => .error (.fault .malformed)
  | (some name, j) => do
    if name = "index" then
      return { g with index := ← Record.fill name .index p j g.index }
    else if name = "anchor" then
      return { g with anchor := ← Record.fill name (.option .index) p j g.anchor }
    else
      match j.readThrough p.depth with
      | some f => .error (.fault f)
      | none => return { g with others := (some name, j) :: g.others }

def read (p : Place) : Json → Except ReadError Instruction
  | .obj members stop => do
    let inner ← p.enter
    let g ← members.foldlM (Gathered.push inner) ⟨none, none, []⟩
    Place.leave stop
    let operation ← Tagged.readMembers "op" Operation.variants inner.settle g.others.reverse
    return ⟨g.index.getD 0, g.anchor.getD none, operation⟩
  | j => p.wants "struct Instruction" j

def members (i : Instruction) : List (String × Json) :=
  ("index", Codec.index.write i.index) :: ("anchor", (Codec.option Codec.index).write i.anchor) ::
    ("op", .str i.operation.name) :: i.operation.content

def codec : Codec Instruction where
  write i := .object i.members
  read := read

end Instruction

end NullCheck
