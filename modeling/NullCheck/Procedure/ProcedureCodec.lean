import NullCheck.Procedure.Basic
import NullCheck.Procedure.InstructionCodec

/-!
# Procedures in documents
-/

namespace NullCheck

def VariableKind.codec : Codec VariableKind := Variant.namesCodec VariableKind.name VariableKind.all

def VariableDecl.codec : Codec VariableDecl :=
  Record.make VariableDecl.mk
    |>.field "name" name .string
    |>.field "ty" type JvmType.codec
    |>.field "kind" kind VariableKind.codec
    |>.fieldOr false "volatile" volatile .bool
    |>.fieldOr [] "annotations" annotations (.list .string)
    |>.codec "VariableDecl"

def SourceAnchor.codec : Codec SourceAnchor :=
  Record.make SourceAnchor.mk
    |>.field "text" text .string
    |>.fieldOr none "line" line (.option .line)
    |>.fieldOr none "parent" parent (.option .index)
    |>.codec "SourceAnchor"

def Procedure.codec : Codec Procedure :=
  Record.make Procedure.mk
    |>.field "name" name .string
    |>.fieldOr none "source_file" sourceFile (.option .string)
    |>.fieldOr [] "variables" vars (.list VariableDecl.codec)
    |>.fieldOr [] "anchors" anchors (.list SourceAnchor.codec)
    |>.field "instructions" instructions (.list Instruction.codec)
    |>.codec "Procedure"

end NullCheck
