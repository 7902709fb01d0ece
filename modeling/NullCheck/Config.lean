import NullCheck.Annotation
import NullCheck.Json.Document
import NullCheck.Json.Record

/-!
# Settings of an analysis

Settings come from a JSON document, in which every setting may be left out and no other member may stand.
-/

namespace NullCheck

structure AnalysisConfig where
  /-- How many states of a procedure may be visited before it is given up. -/
  maxStates : Nat
  /-- Whether nullable arguments to parameters without annotation are reported. -/
  reportUnannotated : Bool
  nullableAnnotations : List String
  notNullAnnotations : List String
deriving DecidableEq, Repr

namespace AnalysisConfig

/-- The settings that hold when none are given. -/
def standard : AnalysisConfig where
  maxStates := 50000
  reportUnannotated := false
  nullableAnnotations := AnnotationResolver.defaultNullable
  notNullAnnotations := AnnotationResolver.defaultNotNull

/-- The settings in a document. -/
def codec : Codec AnalysisConfig :=
  Record.make AnalysisConfig.mk
    |>.fieldOr standard.maxStates "max_states" maxStates .index
    |>.fieldOr standard.reportUnannotated "report_unannotated" reportUnannotated .bool
    |>.fieldOr standard.nullableAnnotations "nullable_annotations" nullableAnnotations (.list .string)
    |>.fieldOr standard.notNullAnnotations "not_null_annotations" notNullAnnotations (.list .string)
    |>.closedCodec "AnalysisConfig"

def ofText (text : String) : Except ReadError AnalysisConfig := codec.ofJson (.ofText text)

def resolver (c : AnalysisConfig) : AnnotationResolver := ⟨c.nullableAnnotations, c.notNullAnnotations⟩

end AnalysisConfig

end NullCheck
