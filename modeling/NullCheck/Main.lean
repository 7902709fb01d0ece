import NullCheck.CommandLine.Run
import NullCheck.Json.Printer

/-!
# The program

The program reads the files that its arguments name, does its run, and writes what the run comes to. All decisions
are those of `NullCheck.CommandLine`; here are only the files, the clock and the streams.
-/

namespace NullCheck

namespace CommandLine

/-- What the operating system says about a file that cannot be used. -/
def reasonOf : IO.Error → String
  | .noFileOrDirectory .. => noSuchFile
  | .inappropriateType _ code _ => if code = 21 then isADirectory else notADirectory
  | e => toString e

/-- What is found under a name. -/
def readContent (path : String) : IO FileContent := do
  try
    return .text (← IO.FS.readFile path)
  catch e =>
    let reason := reasonOf e
    return if reason ∈ [noSuchFile, notADirectory] then .missing reason else .unreadable reason

/-- Says why a run failed. -/
def reportFailure (f : Failure) : IO UInt32 := do
  IO.eprint f.text
  return 1

def writeReport (o : Options) (report : Json) : IO UInt32 := do
  let text := report.pretty ++ "\n"
  match o.destination with
  | .standardOutput =>
    IO.print text
    return 0
  | .file path =>
    try
      IO.FS.writeFile path text
      return 0
    catch e => reportFailure ⟨["failed to open " ++ path, reasonOf e]⟩

/-- Does a run, with the files that its options name. -/
def perform (o : Options) (i : Invocation) : IO UInt32 := do
  let contents ← (o.input :: o.config.toList).mapM fun path => return (path, ← readContent path)
  let find (path : String) : FileContent := (contents.lookup path).getD (.missing noSuchFile)
  let started ← IO.monoMsNow
  match ← IO.lazyPure fun _ => (do return (← o.settings find, ← loadProgram find o.input)) with
  | .error f => reportFailure f
  | .ok (config, p) =>
    let loaded ← IO.monoMsNow
    match ← IO.lazyPure fun _ => Options.analysis config p with
    | .error f => reportFailure f
    | .ok a =>
      let analysed ← IO.monoMsNow
      let timings : Timings := ⟨loaded - started, analysed - loaded⟩
      let code ← writeReport o (i.report o.input a timings)
      if o.timing && !o.quiet && code = 0 then
        let finished ← IO.monoMsNow
        IO.eprintln (timings.text (finished - started) a.summary)
      return code

end CommandLine

end NullCheck

open NullCheck.CommandLine in
/-- Runs the program with its arguments. -/
def main (arguments : List String) : IO UInt32 := do
  match Request.ofArguments arguments with
  | .error e =>
    IO.eprintln ("error: " ++ e.message)
    return 2
  | .ok .version =>
    IO.print versionText
    return 0
  | .ok .help =>
    IO.print helpText
    return 0
  | .ok (.run o) =>
    let program ← IO.appPath
    let directory ← IO.currentDir
    perform o ⟨program.toString, arguments, directory.toString⟩
