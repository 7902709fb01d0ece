import NullCheck.Config
import Std.Data.HashSet
import NullCheck.Survey

/-!
# Exploring a procedure

A procedure is explored breadth first: from the first instruction in the entry frame, every pair of an instruction
and a frame that is reached is visited, each pair once. Pairs behind the last instruction end a path. A budget
bounds the number of visits; when it is used up and another pair is left, the exploration is given up.
-/

namespace NullCheck

/-- A pair with its hash in front, by which different pairs are mostly told apart without a look at the frames. -/
structure MarkedPair where
  mark : UInt64
  pair : Successor
deriving DecidableEq

instance : Hashable MarkedPair := ⟨MarkedPair.mark⟩

def Successor.marked (p : Successor) : MarkedPair := ⟨hash p, p⟩

@[simp] theorem Successor.marked_inj {p q : Successor} : p.marked = q.marked ↔ p = q :=
  ⟨fun h => congrArg MarkedPair.pair h, fun h => h ▸ rfl⟩

structure Exploration where
  survey : Survey
  /-- How many pairs were reached, as far as they were counted. -/
  states : Nat
  /-- Whether every pair that was reached was visited. -/
  complete : Bool

/-- What the declaration of a parameter tells about its value when the procedure begins. -/
def VariableDecl.entryValue? (r : AnnotationResolver) (v : VariableDecl) : Option Value :=
  if v.kind = .parameter ∧ v.type.isReference then
    match r.elementNullness v.annotations [] with
    | .nonNull => some (.notNull v.type)
    | .nullable => some (.typed v.type .nullable)
    | .unknown => none
  else none

namespace Context

variable (c : Context)

/-- The frame in which the procedure begins, and the values that come up in it, for the variables from `id` on. -/
def enter (id : VariableId) (f : Frame) : List VariableDecl → Frame × List Value
  | [] => (f, [])
  | v :: vs =>
    match v.entryValue? c.resolver with
    | none => enter (id + 1) f vs
    | some value =>
      let target := c.scope.variableValue id false
      let (f, built) := enter (id + 1) (f.assign c.scope target value) vs
      (f, value :: target :: built)

/-- The frame in which the procedure begins, and the values that come up in it. -/
def entry : Frame × List Value := c.enter 0 .empty c.procedure.vars

/-- Visits the pairs in `front` and then those in `back`, which is in reverse, and all that are reached from
them. -/
def explore (budget : Nat) (seen : Std.HashSet MarkedPair) (visited : Nat) (s : Survey)
    (front back : List Successor) : Exploration :=
  match front with
  | [] =>
    match back with
    | [] => ⟨s, visited, true⟩
    -- one level is done, and the next was gathered in reverse
    | p :: back => explore budget seen visited s (p :: back).reverse []
  | p :: front =>
    match c.procedure.instructions[p.index]? with
    | none => explore budget seen visited s front back
    | some i =>
      let m := p.marked
      if m ∈ seen then explore budget seen visited s front back
      -- the pair that is one too many is counted, but not visited
      else if _h : budget ≤ visited then ⟨s, visited + 1, false⟩
      else
        let v := visit c i p.frame
        explore budget (seen.insert m) (visited + 1) (s.add i v) front (v.next.reverse ++ back)
termination_by (budget - visited, front.length + back.length, back.length)
decreasing_by
  all_goals simp_wf
  · exact Prod.Lex.right _ (by simpa using Prod.Lex.right _ (by omega))
  · exact Prod.Lex.right _ (Prod.Lex.left _ _ (by omega))
  · exact Prod.Lex.right _ (Prod.Lex.left _ _ (by omega))
  · exact Prod.Lex.left _ _ (by omega)

def run (config : AnalysisConfig) : Exploration :=
  let (f, built) := c.entry
  c.explore config.maxStates ∅ 0 ((Survey.start config.reportUnannotated).withValues built) [⟨0, f⟩] []

end Context

end NullCheck
