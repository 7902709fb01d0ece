import NullCheck.Analysis

/-!
# The report

The report of a run is a SARIF log with a single run in it: the tool with its rules, the way it was invoked, the
document that was analysed, and the results.
-/

namespace NullCheck

namespace CommandLine

/-- How long the parts of a run took, in milliseconds. -/
structure Timings where
  load : Nat
  analysis : Nat
deriving DecidableEq, Repr

/-- How the program was invoked. -/
structure Invocation where
  program : String
  arguments : List String
  /-- The directory that paths are relative to. -/
  directory : String
deriving DecidableEq, Repr

/-- The name of the program in reports. -/
def toolName : String := "nullflow"

def toolVersion : String := "0.1.0"

def schema : String := "https://schemastore.azurewebsites.net/schemas/json/sarif-2.1.0.json"

namespace Invocation

variable (i : Invocation)

/-- A path from the root of the file system. -/
def absolute (path : String) : String :=
  if path.startsWith "/" then path
  else if i.directory.endsWith "/" then i.directory ++ path
  else i.directory ++ "/" ++ path

/-- The document that was analysed. -/
def artifact (input : String) : Json :=
  .object
    [("location", .object [("uri", .str ("file://" ++ i.absolute input))]),
     ("roles", .array [.str "analysisTarget"])]

/-- Figures about a run, by name. -/
def properties (t : Timings) (s : AnalysisSummary) : Json :=
  .object
    [(toolName ++ ".analysis_ms", .int t.analysis),
     (toolName ++ ".load_ms", .int t.load),
     (toolName ++ ".procedure_count", .int s.procedures),
     (toolName ++ ".states_visited", .int s.states),
     (toolName ++ ".too_complex_count", .int s.tooComplex)]

def toJson (t : Timings) (s : AnalysisSummary) : Json :=
  let all := i.program :: i.arguments
  .object
    [("arguments", .array (all.map Json.str)),
     ("commandLine", .str (" ".intercalate all)),
     ("executionSuccessful", .bool true),
     ("properties", properties t s)]

def report (input : String) (a : Analysis) (t : Timings) : Json :=
  let driver := Json.object
    [("name", .str toolName), ("rules", .array FindingKind.rules), ("version", .str toolVersion)]
  let run := Json.object
    [("artifacts", .array [i.artifact input]),
     ("invocations", .array [i.toJson t a.summary]),
     ("results", .array (a.results.map SarifResult.toJson)),
     ("tool", .object [("driver", driver)])]
  .object [("$schema", .str schema), ("runs", .array [run]), ("version", .str "2.1.0")]

end Invocation

end CommandLine

end NullCheck
