import NullCheck.Proofs.State.Reachable
import NullCheck.Proofs.Visit.Invariant

/-!
# Runs keep to reachable frames

A visit works on its frame by nothing but the operations on frames. So whatever holds of every reachable frame holds
in every state of a run.
-/

namespace NullCheck

/-- To be reachable is kept by all operations on frames, whatever they work on. -/
theorem Frame.Reachable.invariant (s : Scope) :
    Frame.Invariant s (fun _ => True) (fun _ => True) (Frame.Reachable s) where
  push hf _ := hf.push _
  pop hf := ⟨trivial, hf.pop⟩
  referenceField hf := hf.referenceField
  assign hf _ _ _ := hf.assign _ _
  flushVariable hf _ := hf.flushVariable _
  applyRelation hf _ _ := hf.applyCondition (.relation _ _ _ _)
  applyNotNull hf _ := hf.applyNotNull _
  applyCast hf _ _ := hf.applyCast _

/-- **All frames that come up in a run are reachable.** -/
theorem Context.Reaches.reachable {c : Context} {p : Successor} (h : c.Reaches p) : p.frame.Reachable c.scope :=
  h.keeps (Frame.Reachable.invariant c.scope) c.isClosed_true .empty

end NullCheck
