/-!
# Arguments of the program

Arguments are taken from left to right, and the first that is wrong ends the reading. An option's value follows in
the next argument or behind an equals sign. No argument may be given twice.
-/

namespace NullCheck

namespace CommandLine

/-- What the program is told to do with its input. -/
structure Options where
  input : String
  config : Option String
  /-- Where the report goes; nowhere or `-` is standard output. -/
  output : Option String
  maxStates : Option Nat
  reportUnannotated : Bool
  /-- Where traces are sent. -/
  endpoint : Option String
  quiet : Bool
  timing : Bool
deriving DecidableEq, Repr

/-- What the program is asked for. -/
inductive Request where
  | run (o : Options)
  | version
  | help
deriving DecidableEq, Repr

/-- Why arguments are wrong. -/
inductive UsageError where
  | unexpected (argument : String)
  | repeated (option : String)
  | noValue (option : String)
  | badValue (option value : String)
  /-- A value for an option that takes none. -/
  | needlessValue (option : String)
  | noInput
deriving DecidableEq, Repr

def UsageError.message : UsageError → String
  | .unexpected argument => "unexpected argument '" ++ argument ++ "' found"
  | .repeated option => "the argument '" ++ option ++ "' cannot be used multiple times"
  | .noValue option => "a value is required for '" ++ option ++ "' but none was supplied"
  | .badValue option value => "invalid value '" ++ value ++ "' for '" ++ option ++ "'"
  | .needlessValue option => "unexpected value for '" ++ option ++ "' found"
  | .noInput => "the required argument '--input' was not provided"

/-- Options as far as they were given. -/
structure Draft where
  input : Option String
  config : Option String
  output : Option String
  maxStates : Option Nat
  reportUnannotated : Bool
  endpoint : Option String
  quiet : Bool
  timing : Bool

def Draft.blank : Draft := ⟨none, none, none, none, false, none, false, false⟩

/-- A count: decimal digits, perhaps behind a plus sign, of a number of 64 bits. -/
def count? (text : String) : Option Nat :=
  let digits := match text.toList with | '+' :: cs => cs | cs => cs
  if digits.isEmpty ∨ !digits.all Char.isDigit then none
  else
    let n := digits.foldl (fun n c => 10 * n + (c.toNat - '0'.toNat)) 0
    if n < UInt64.size then some n else none

def valued : List String := ["--input", "--config", "--output", "--max-states", "--otel"]

def flags : List String := ["--report-unannotated", "--quiet", "--timing"]

/-- Fills in an option that must not have been given before. -/
def once {α : Type} (option : String) (a : α) : Option α → Except UsageError (Option α)
  | none => .ok (some a)
  | some _ => .error (.repeated option)

/-- A path must not be empty. -/
def pathOf (option value : String) : Except UsageError String :=
  if value.isEmpty then .error (.badValue option value) else .ok value

def Draft.value (d : Draft) (option value : String) : Except UsageError Draft :=
  match option with
  | "--input" => do return { d with input := ← once option (← pathOf option value) d.input }
  | "--config" => do return { d with config := ← once option (← pathOf option value) d.config }
  | "--output" => do return { d with output := ← once option (← pathOf option value) d.output }
  | "--otel" => do return { d with endpoint := ← once option value d.endpoint }
  | "--max-states" =>
    match count? value with
    | some n => do return { d with maxStates := ← once option n d.maxStates }
    | none => .error (.badValue option value)
  | option => .error (.unexpected option)

/-- Sets a flag that must not have been set before. -/
def Draft.flag (d : Draft) (option : String) : Except UsageError Draft :=
  match option with
  | "--report-unannotated" =>
    if d.reportUnannotated then .error (.repeated option) else .ok { d with reportUnannotated := true }
  | "--quiet" => if d.quiet then .error (.repeated option) else .ok { d with quiet := true }
  | "--timing" => if d.timing then .error (.repeated option) else .ok { d with timing := true }
  | option => .error (.unexpected option)

/-- The request of a complete list of arguments. -/
def Draft.finish (d : Draft) : Except UsageError Request :=
  match d.input with
  | some input =>
    .ok (.run ⟨input, d.config, d.output, d.maxStates, d.reportUnannotated, d.endpoint, d.quiet, d.timing⟩)
  | none => .error .noInput

/-- An argument up to its first equals sign, and what is behind it. -/
def splitValue (argument : String) : String × Option String :=
  let cs := argument.toList
  match cs.dropWhile (· ≠ '=') with
  | [] => (argument, none)
  | _ :: value => (String.ofList (cs.takeWhile (· ≠ '=')), some (String.ofList value))

/-- Whether an argument can be the value of the option before it. -/
def canBeValue (argument : String) : Bool := argument = "-" || !argument.startsWith "-"

def takeArguments (d : Draft) : List String → Except UsageError Request
  | [] => d.finish
  | argument :: rest =>
    if argument = "--" then
      match rest with
      | [] => d.finish
      | next :: _ => .error (.unexpected next)
    else if argument.startsWith "--" then
      match splitValue argument with
      | (option, some value) =>
        if option ∈ valued then do
          let d ← d.value option value
          takeArguments d rest
        else if option ∈ flags ∨ option = "--version" ∨ option = "--help" then .error (.needlessValue option)
        else .error (.unexpected option)
      | (option, none) =>
        if option = "--version" then .ok .version
        else if option = "--help" then .ok .help
        else if option ∈ valued then
          match rest with
          | [] => .error (.noValue option)
          | value :: rest =>
            if canBeValue value then do
              let d ← d.value option value
              takeArguments d rest
            else .error (.noValue option)
        else do
          let d ← d.flag option
          takeArguments d rest
    else if argument.startsWith "-V" then .ok .version
    else if argument.startsWith "-h" then .ok .help
    else .error (.unexpected argument)

def Request.ofArguments (arguments : List String) : Except UsageError Request := takeArguments .blank arguments

end CommandLine

end NullCheck
