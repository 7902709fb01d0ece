import NullCheck.Finding.Basic
import NullCheck.Json.Basic
import NullCheck.Procedure.Basic

/-!
# Results

Findings are reported as results of the SARIF format: the rule, a message, and where the finding lies. A result
names the procedure; it also names the place in the source file, where the file is known. Without a file there is no
place, and the line is dropped even if it is known.
-/

namespace NullCheck

/-- A place in a source file, with the line if it is known. -/
structure SourcePlace where
  file : String
  line : Option Nat
deriving DecidableEq, Repr

namespace SourcePlace

def region (line : Nat) : Json := .object [("startLine", .int line)]

def toJson (place : SourcePlace) : Json :=
  .object (("artifactLocation", .object [("uri", .str place.file)]) ::
    (place.line.map fun line => ("region", region line)).toList)

end SourcePlace

structure SarifResult where
  ruleId : String
  level : Level
  message : String
  procedure : String
  place : Option SourcePlace
deriving DecidableEq, Repr

namespace SarifResult

def location (r : SarifResult) : Json :=
  .object (("logicalLocations", .array [.object [("name", .str r.procedure), ("kind", .str "function")]]) ::
    (r.place.map fun place => ("physicalLocation", place.toJson)).toList)

def toJson (r : SarifResult) : Json :=
  .object
    [("ruleId", .str r.ruleId),
     ("level", .str r.level.name),
     ("message", .object [("text", .str r.message)]),
     ("locations", .array [r.location])]

/-- Whether a result may stand before another: results are in order by rule and then by message. -/
def atMost (a b : SarifResult) : Bool := a.ruleId < b.ruleId || (a.ruleId = b.ruleId && a.message ≤ b.message)

end SarifResult

namespace Finding

variable (f : Finding)

/-- The number of the argument at fault, counted from one. -/
def argumentNumber : Nat := (f.argument.map (· + 1)).getD 0

def summary : String :=
  match f.kind with
  | .nullAssignment => "null may be assigned to a not-null variable"
  | .nullableReturn => "method may return null"
  | .fieldNpe => "field access may produce NullPointerException"
  | .callNpe => "method invocation may produce NullPointerException"
  | .unboxingNpe => "unboxing may produce NullPointerException"
  | .nullArgument => "argument " ++ toString f.argumentNumber ++ " might be null but the parameter is not-null"
  | .nullArgumentUnannotated =>
    "argument " ++ toString f.argumentNumber ++ " might be null but the parameter is not annotated"
  | .invalidCast => "cast may produce ClassCastException"
  | .constantCondition value => "condition is always " ++ (if value then "true" else "false")
  | .redundantInstanceof false => "instanceof is always true"
  | .redundantInstanceof true => "instanceof can be replaced with a null check"
  | .analysisTooComplex => "procedure is too complex to analyze"

/-- The source text at a finding, unless there is none. -/
def anchorText? (p : Procedure) : Option String :=
  (f.anchor.bind fun a => p.anchors[a]?.map SourceAnchor.text).filter fun text => !text.isEmpty

def message (p : Procedure) : String :=
  "Nullness issue in " ++ p.name ++ ": " ++ f.summary ++
    match f.anchorText? p with
    | some text => " at `" ++ text ++ "`"
    | none => ""

/-- The place of a finding, if the source file of the procedure is known. The line is that of the anchor. -/
def place? (p : Procedure) : Option SourcePlace := p.sourceFile.map fun file => ⟨file, f.anchor.bind p.anchorLine?⟩

def result (p : Procedure) : SarifResult where
  ruleId := f.kind.ruleId
  level := f.kind.level
  message := f.message p
  procedure := p.name
  place := f.place? p

end Finding

namespace FindingKind

def rule (k : FindingKind) : Json :=
  .object
    [("id", .str k.ruleId),
     ("name", .str k.name),
     ("shortDescription", .object [("text", .str k.description)])]

/-- One kind for every rule, in order of the rules' identifiers. -/
def byRuleId : List FindingKind := all.mergeSort fun a b => a.ruleId ≤ b.ruleId

/-- The rules of all findings, in order of their identifiers. -/
def rules : List Json := byRuleId.map rule

end FindingKind

end NullCheck
