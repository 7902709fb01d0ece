import NullCheck.CommandLine.Endpoint
import NullCheck.CommandLine.Files
import NullCheck.CommandLine.Options
import NullCheck.CommandLine.SarifLog

/-!
# A run of the program

A run goes through four stages: the settings, the program document, the analysis and the report. Each stage may
fail with a chain of messages, the outermost first; the first failure ends the run. Where a file cannot be made for
the report is for the caller to find out; `Outcome.refused` is what the run comes to then.
-/

namespace NullCheck

/-- The message of a document that cannot be read. -/
def ReadError.message : ReadError → String
  | .fault .malformed => "the text is malformed"
  | .fault .truncated => "the text ends too early"
  | .shape path misfit => Path.render path ++ ": " ++ misfit.message

namespace CommandLine

/-- Messages of an error, the outermost first. -/
structure Failure where
  chain : List String
deriving DecidableEq, Repr

namespace Failure

/-- A message below the first line of a failure, later lines of it indented by `width`. -/
def indented (width : Nat) (message : String) : String :=
  ("\n" ++ String.ofList (List.replicate width ' ')).intercalate (message.splitOn "\n")

/-- The causes of a failure, each on a line of its own. Several causes are numbered. -/
def causes : List String → String
  | [] => ""
  | [cause] => "\nCaused by:\n    " ++ indented 4 cause ++ "\n"
  | many =>
    let line (c : String × Nat) : String := "    " ++ toString c.2 ++ ": " ++ indented 7 c.1 ++ "\n"
    "\nCaused by:\n" ++ String.join (many.zipIdx.map line)

def text (f : Failure) : String := "Error: " ++ f.chain.headD "" ++ "\n" ++ causes f.chain.tail

end Failure

/-- Where a report goes. -/
inductive Destination where
  | standardOutput
  | file (path : String)
deriving DecidableEq, Repr

inductive Outcome where
  | said (text : String)
  | misused (e : UsageError)
  | failed (f : Failure)
  | reported (report : Json) (destination : Destination)

namespace Outcome

def exitCode : Outcome → Nat
  | .said _ | .reported .. => 0
  | .failed _ => 1
  | .misused _ => 2

/-- The outcome of a run whose report cannot be written to a file. -/
def refused (path reason : String) : Outcome := .failed ⟨["failed to open " ++ path, reason]⟩

end Outcome

/-- The text of a file, or why it cannot be read. `reading` says what the file is read as. -/
def textOf (find : String → FileContent) (path reading : String) : Except Failure String :=
  match find path with
  | .text s => .ok s
  | .missing reason => .error ⟨["open " ++ path, reason]⟩
  | .unreadable reason => .error ⟨[reading ++ path, reason]⟩

def loadConfig (find : String → FileContent) (path : String) : Except Failure AnalysisConfig := do
  let text ← textOf find path "parse config "
  match AnalysisConfig.ofText text with
  | .ok config => return config
  | .error e => .error ⟨["parse config " ++ path, e.message]⟩

def loadProgram (find : String → FileContent) (path : String) : Except Failure Program := do
  let text ← textOf find path "parse "
  match Program.ofText text with
  | .ok p => return p
  | .error (.read e) => .error ⟨["parse " ++ path, e.message]⟩
  | .error (.invalid e) => .error ⟨e.chain⟩

namespace Options

variable (o : Options)

/-- The settings of a run: those of the file, overridden by those of the command line. -/
def settings (find : String → FileContent) : Except Failure AnalysisConfig := do
  if !(find o.input).exists then .error ⟨["input not found: " ++ o.input]⟩
  let config ←
    match o.config with
    | some path => loadConfig find path
    | none => pure .standard
  if o.endpoint.any fun url => !isEndpoint url then .error ⟨["parse OTLP endpoint"]⟩
  return { config with
    maxStates := o.maxStates.getD config.maxStates
    reportUnannotated := o.reportUnannotated || config.reportUnannotated }

def analysis (config : AnalysisConfig) (p : Program) : Except Failure Analysis :=
  (p.analyze config).mapError fun e => ⟨e.chain⟩

/-- Whether a path is that of standard output: a hyphen, and no more than slashes and points behind it. -/
def isStandardOutput (path : String) : Bool := path.startsWith "-" && Directory.parts path = ["-"]

/-- Where the report goes. -/
def destination : Destination :=
  match o.output with
  | none => .standardOutput
  | some path => if isStandardOutput path then .standardOutput else .file path

end Options

/-- What is said about the time that a run took, `total` milliseconds in all. -/
def Timings.text (t : Timings) (total : Nat) (s : AnalysisSummary) : String :=
  "timing: total_ms=" ++ toString total ++ " load_ms=" ++ toString t.load ++ " analysis_ms=" ++ toString t.analysis ++
    " procedures=" ++ toString s.procedures ++ " too_complex=" ++ toString s.tooComplex

/-- What is said when the version is asked for. -/
def versionText : String := toolName ++ " " ++ toolVersion ++ "\n"

/-- What is said when help is asked for. -/
def helpText : String :=
  "Symbolic nullness, cast and instanceof analysis with SARIF output.\n\n" ++
  "Usage: " ++ toolName ++ " [OPTIONS] --input <PATH>\n\n" ++
  "Options:\n" ++
  "      --input <PATH>        Program document (JSON) to analyze\n" ++
  "      --config <PATH>       Analysis settings (JSON)\n" ++
  "      --output <PATH>       SARIF destination; `-` or omitted writes to stdout\n" ++
  "      --max-states <N>      Overrides the configured state budget per procedure\n" ++
  "      --report-unannotated  Report nullable arguments passed to unannotated parameters\n" ++
  "      --otel <URL>          OTLP HTTP endpoint receiving trace spans\n" ++
  "      --quiet\n" ++
  "      --timing\n" ++
  "  -h, --help                Print help\n" ++
  "  -V, --version             Print version\n"

def run (find : String → FileContent) (i : Invocation) : Outcome :=
  match Request.ofArguments i.arguments with
  | .error e => .misused e
  | .ok .version => .said versionText
  | .ok .help => .said helpText
  | .ok (.run o) =>
    let stages : Except Failure Json := do
      let config ← o.settings find
      let p ← loadProgram find o.input
      let a ← Options.analysis config p
      return i.report o.input a ⟨0, 0⟩
    match stages with
    | .ok report => .reported report o.destination
    | .error f => .failed f

/-- Runs the program in a directory. The report becomes a file of it, if it can. -/
def runIn (d : Directory) (i : Invocation) : Outcome :=
  match run d.find i with
  | .reported report (.file path) =>
    match d.refusal? path with
    | some reason => .refused path reason
    | none => .reported report (.file path)
  | outcome => outcome

end CommandLine

end NullCheck
