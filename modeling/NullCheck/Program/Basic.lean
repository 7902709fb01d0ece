import NullCheck.ClassHierarchy
import NullCheck.Procedure.ProcedureCodec

/-!
# Programs

A program is a document with declarations of classes and methods, and procedures to be analysed.
-/

namespace NullCheck

structure ParameterDecl where
  name : String
  /-- The type, perhaps generic. What is left out comes from the method's descriptor. -/
  type : Option JvmType
  annotations : List String
  typeAnnotations : List String
deriving DecidableEq, Repr

/-- A parameter of which nothing is declared. -/
def ParameterDecl.blank : ParameterDecl := ⟨"", none, [], []⟩

def ParameterDecl.annotatedType (p : ParameterDecl) : AnnotatedType := ⟨p.type.getD .object, p.typeAnnotations⟩

/-- The declaration of a method that calls may refer to. -/
structure MethodDecl where
  owner : String
  name : String
  descriptor : String
  parameters : List ParameterDecl
  returnType : Option JvmType
  returnTypeAnnotations : List String
  annotations : List String
  varArgs : Bool
deriving DecidableEq, Repr

namespace MethodDecl

def key (m : MethodDecl) : MethodKey := ⟨m.owner, m.name, m.descriptor⟩

def annotatedReturnType (m : MethodDecl) : AnnotatedType := ⟨m.returnType.getD .object, m.returnTypeAnnotations⟩

end MethodDecl

structure Program where
  classes : List ClassDecl
  methods : List MethodDecl
  procedures : List Procedure
deriving DecidableEq, Repr

/-! ## Programs in documents -/

def ClassDecl.codec : Codec ClassDecl :=
  Record.make ClassDecl.mk
    |>.field "name" name .string
    |>.fieldOr none "super_name" superclass (.option .string)
    |>.fieldOr [] "interfaces" interfaces (.list .string)
    |>.fieldOr false "is_interface" isInterface .bool
    |>.codec "ClassDecl"

def ParameterDecl.codec : Codec ParameterDecl :=
  Record.make ParameterDecl.mk
    |>.fieldOr "" "name" name .string
    |>.fieldOr none "ty" type (.option JvmType.codec)
    |>.fieldOr [] "annotations" annotations (.list .string)
    |>.fieldOr [] "type_annotations" typeAnnotations (.list .string)
    |>.codec "ParameterDecl"

def MethodDecl.codec : Codec MethodDecl :=
  Record.make MethodDecl.mk
    |>.field "owner" owner .string
    |>.field "name" name .string
    |>.field "descriptor" descriptor .string
    |>.fieldOr [] "parameters" parameters (.list ParameterDecl.codec)
    |>.fieldOr none "return_type" returnType (.option JvmType.codec)
    |>.fieldOr [] "return_type_annotations" returnTypeAnnotations (.list .string)
    |>.fieldOr [] "annotations" annotations (.list .string)
    |>.fieldOr false "var_args" varArgs .bool
    |>.codec "MethodDecl"

def Program.codec : Codec Program :=
  Record.make Program.mk
    |>.fieldOr [] "classes" classes (.list ClassDecl.codec)
    |>.fieldOr [] "methods" methods (.list MethodDecl.codec)
    |>.fieldOr [] "procedures" procedures (.list Procedure.codec)
    |>.codec "Program"

end NullCheck
