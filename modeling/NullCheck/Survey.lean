import NullCheck.Value.Table
import NullCheck.Visit.Basic

/-!
# What visits add up to

A survey adds up the results of visits: the values that came up, what was observed at each instruction, counts, and
the findings. It does not influence any visit.
-/

namespace NullCheck

/-- The results of visits, added up. -/
structure Survey where
  values : ValueTable
  /-- Observations by position of the instruction, in order. -/
  observations : List (Nat × Observation)
  /-- Anchors of comparisons about whose outcome nothing is to be said. -/
  silenced : List AnchorId
  /-- Visits by name of the operation, in order. -/
  visits : List (String × Nat)
  forks : Nat
  pruned : Nat
  collector : Collector

namespace Survey

def start (reportUnannotated : Bool) : Survey := ⟨.initial, [], [], [], 0, 0, .new reportUnannotated⟩

variable (s : Survey)

def observation (index : Nat) : Observation := (Sorted.get? index s.observations).getD .none

def observe (i : Instruction) (o : Observation) : Survey :=
  if o.reached then
    { s with
      observations := Sorted.put i.index ((s.observation i.index).join o) s.observations
      silenced := if o.silenced then Sorted.insertAll i.anchor.toList s.silenced else s.silenced }
  else s

def count (operation : Operation) : Survey :=
  let n := (Sorted.get? operation.name s.visits).getD 0
  { s with visits := Sorted.put operation.name (n + 1) s.visits }

def withValues (vs : List Value) : Survey := { s with values := s.values.insertAll vs }

def add (i : Instruction) (v : Visit) : Survey :=
  let s := ((s.count i.operation).withValues v.built).observe i v.observation
  { s with
    forks := s.forks + v.forks
    pruned := s.pruned + v.pruned
    collector := s.collector.reportAll i v.defects }

def totalVisits : Nat := s.visits.foldr (fun v n => v.2 + n) 0

/-! ## What a survey tells -/

/-- Whether a comparison was reached and had at most one outcome. -/
def isConditionConstant (index : Nat) : Bool := (s.observation index).reached && (s.observation index).isConstant

/-- Whether an `instanceof` was reached, had both outcomes, and failed on nothing but null. -/
def isInstanceofRedundant (index : Nat) : Bool :=
  (s.observation index).reached && !s.isConditionConstant index && !(s.observation index).useful

/-- Whether nothing is to be said about comparisons with an anchor: it is a parent of a silenced one, or silenced
itself. -/
def isSilenced (p : Procedure) : Option AnchorId → Bool
  | none => false
  | some anchor => s.silenced.any fun a => p.isAncestor anchor a

/-- The finding about a comparison, if it had at most one outcome. -/
def constantCondition? (p : Procedure) (i : Instruction) : Option Finding :=
  if s.isConditionConstant i.index && !s.isSilenced p i.anchor then
    some ⟨.constantCondition (s.observation i.index).canBeTrue, i.index, i.anchor, none⟩
  else none

/-- What the survey of a complete run tells about an instruction. -/
def finding? (p : Procedure) (i : Instruction) : Option Finding :=
  match i.operation with
  | .binop (some operator) =>
    if operator = .instanceOf then
      if s.isInstanceofRedundant i.index then
        some ⟨.redundantInstanceof (s.observation i.index).possiblyNull, i.index, i.anchor, none⟩
      else s.constantCondition? p i
    else if operator.isComparison then s.constantCondition? p i
    else none
  | _ => none

/-- The findings of a complete run over a procedure, in order. -/
def findings (p : Procedure) : List Finding :=
  Finding.inOrder ((p.instructions.filterMap (s.finding? p)).reverse ++ s.collector.recorded)

end Survey

end NullCheck
