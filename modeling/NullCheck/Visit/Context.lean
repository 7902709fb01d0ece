import NullCheck.Program.MethodIndex
import NullCheck.Value.Scope

/-!
# What visits refer to

Instructions are visited in the context of their procedure: its variables and anchors, the methods and classes of
the program, and the annotations that are understood. Calls are resolved here, and the nullness that declarations
give to arguments and results is read off.
-/

namespace NullCheck

/-- What the instructions of a procedure refer to. -/
structure Context where
  procedure : Procedure
  methods : MethodIndex
  resolver : AnnotationResolver
  hierarchy : ClassHierarchy

namespace Context

variable (c : Context)

/-- The variables and classes that values refer to. -/
def scope : Scope := ⟨c.procedure.vars, c.hierarchy⟩

/-- The method that a call refers to. -/
def resolve? (call : MethodCall) : Option MethodDecl := call.method.bind c.methods.resolve?

/-- Whether the last arguments of a call are packed into the last parameter of its method: there are more of them
than parameters, or the last one has a type that the last parameter does not take. -/
def packsArguments (m : MethodDecl) (call : MethodCall) : Bool :=
  m.varArgs &&
    if m.parameters.length < call.arguments.length then true
    else if call.arguments.length ≠ m.parameters.length then false
    else
      match m.parameters.getLast?, call.arguments.getLast?.bind Argument.type with
      | some p, some t => !c.hierarchy.isAssignable (p.annotatedType.substitute call.typeBindings).type t
      | _, _ => false

def parameterNullness (call : MethodCall) (p : ParameterDecl) : Nullness :=
  c.resolver.elementNullness p.annotations (p.annotatedType.substitute call.typeBindings).annotations

/-- The nullness of the parameters that arguments of a call are checked against, by position. -/
def argumentNullness (call : MethodCall) : List Nullness :=
  match c.resolve? call with
  | none => []
  | some m =>
    let checked := min call.arguments.length m.parameters.length - (c.packsArguments m call).toNat
    (m.parameters.take checked).map (c.parameterNullness call)

/-- The nullness of a call's result. What a constructor makes is not null. -/
def returnNullness (call : MethodCall) : Nullness :=
  if call.isConstructor then .nonNull
  else
    match c.resolve? call with
    | some m =>
      c.resolver.elementNullness m.annotations
        (m.annotatedReturnType.substitute call.typeBindings).annotations
    | none => .unknown

def resultValue (call : MethodCall) (qualifier : Value) : Value :=
  match call.precalculated, call.resultType.filter JvmType.isReference with
  | some constant, _ => .constant constant
  | none, some t =>
    match c.returnNullness call with
    | .nonNull => .notNull t
    | .nullable => .typed t .nullable
    | .unknown => .typed t .unknown
  | none, none =>
    match call.kind with
    | .unboxing => qualifier.unbox
    | .boxing => qualifier.box?.getD .unknown
    | .cast =>
      match qualifier with
      | .constant constant => .constant constant.castToIntegral
      | v => v
    | .regular => .unknown

end Context

end NullCheck
