import NullCheck.Config
import NullCheck.Exploration
import NullCheck.Program.Validation
import NullCheck.Report

/-!
# Analysing a program

Every procedure of a program is explored by itself. A complete exploration yields the findings of its survey; one
that was given up yields nothing but the finding that it was. The results of all procedures are put in order.
-/

namespace NullCheck

structure ProcedureAnalysis where
  exploration : Exploration
  findings : List Finding

def Context.analyze (c : Context) (config : AnalysisConfig) : ProcedureAnalysis :=
  let e := c.run config
  let findings :=
    if e.complete then e.survey.findings c.procedure else [⟨.analysisTooComplex, 0, none, none⟩]
  ⟨e, findings⟩

/-- Figures about the analysis of a program. -/
structure AnalysisSummary where
  procedures : Nat
  /-- How many procedures were given up. -/
  tooComplex : Nat
  states : Nat
deriving DecidableEq, Repr

structure Analysis where
  procedures : List (Procedure × ProcedureAnalysis)
  results : List SarifResult
  summary : AnalysisSummary

/-- Why a program cannot be analysed. -/
inductive AnalysisError where
  | classes (cause : DuplicateClasses)
  | methods (cause : DuplicateMethod)
deriving DecidableEq, Repr

/-- The messages of an error, outermost first. -/
def AnalysisError.chain : AnalysisError → List String
  | .classes cause => ["build class hierarchy", cause.message]
  | .methods cause => ["index methods", cause.message]

namespace Program

def analyzeProcedures (p : Program) (config : AnalysisConfig) (hierarchy : ClassHierarchy) (methods : MethodIndex) :
    List (Procedure × ProcedureAnalysis) :=
  p.procedures.map fun procedure => (procedure, (Context.mk procedure methods config.resolver hierarchy).analyze config)

def results (analyses : List (Procedure × ProcedureAnalysis)) : List SarifResult :=
  (analyses.flatMap fun a => a.2.findings.map fun f => f.result a.1).mergeSort SarifResult.atMost

def summarize (analyses : List (Procedure × ProcedureAnalysis)) : AnalysisSummary where
  procedures := analyses.length
  tooComplex := (analyses.filter fun a => !a.2.exploration.complete).length
  states := analyses.foldr (fun a n => a.2.exploration.states + n) 0

def analyze (p : Program) (config : AnalysisConfig) : Except AnalysisError Analysis := do
  let hierarchy ← (ClassHierarchy.ofList p.classes).mapError .classes
  let methods ← (MethodIndex.ofList p.methods).mapError .methods
  let analyses := p.analyzeProcedures config hierarchy methods
  return ⟨analyses, results analyses, summarize analyses⟩

end Program

end NullCheck
