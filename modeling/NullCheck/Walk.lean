import NullCheck.Survey

/-!
# Walking through a procedure

A walk visits pairs of an instruction and a frame from a queue, first in, first out, and keeps what each visit came
to. Unlike an exploration it visits a pair as often as it is reached, so it needs a bound on its steps. Pairs behind
the last instruction are dropped without a step.
-/

namespace NullCheck

structure WalkStep where
  index : Nat
  next : List Successor
  found : List Finding

namespace Context

variable (c : Context)

/-- Walks at most so many steps from the pairs in a queue. -/
def walk : Nat → List Successor → Survey → List WalkStep × Survey
  | 0, _, s => ([], s)
  | steps + 1, queue, s =>
    match queue.dropWhile fun p => c.procedure.instructions.length ≤ p.index with
    | [] => ([], s)
    | p :: rest =>
      match c.procedure.instructions[p.index]? with
      | none => ([], s)
      | some i =>
        let v := visit c i p.frame
        let found := (v.defects.filter s.collector.takes).map i.finding
        let (later, s) := walk steps (rest ++ v.next) (s.add i v)
        (⟨p.index, v.next, found⟩ :: later, s)

def variableValues : List Value := (List.range c.procedure.vars.length).map fun id => .var id false

end Context

end NullCheck
