import NullCheck.Proofs.State.Persistence
import NullCheck.Proofs.Visit.Reachable

/-!
# Variables stay known not to be null

A variable that is known not to be null stays so until an instruction assigns to it, flushes it or rebinds it. There
is one exception: nothing but a boxed value may have shown it, and the variable that was boxed is changed. Then the
boxed value is forgotten with it, and what it showed of others is not noted in any other way, not even if it was
tested in between.

## The architecture

* **`Frame.RestsOnBoxed`**: the exception.
* **`Context.shows_invariant`**: what shows that a variable is not null, and does not depend on variables that a visit
  changes, is kept by the operations on frames.
* **`Context.notNull_persists`**: the headline.
* **`Context.notNull_not_persistent`**: the exception arises.
-/

namespace NullCheck

namespace Frame

variable {f : Frame} {v : Value}

/-- A boxed form of a variable in `lost` shows that an atom is not null, and nothing else does. -/
structure RestsOnBoxed (f : Frame) (lost : VariableId → Prop) (v : Value) : Prop where
  boxed : ∃ w id, f.partition.Same v w ∧ w.isBoxed = true ∧ w.base? = some id ∧ lost id
  nothingElse : ¬f.partition.ShowsNotNull lost v

theorem shows_or_restsOnBoxed (lost : VariableId → Prop) (h : f.partition.ShowsNotNull (fun _ => False) v) :
    f.partition.ShowsNotNull lost v ∨ f.RestsOnBoxed lost v := by
  by_cases hshows : f.partition.ShowsNotNull lost v
  · exact Or.inl hshows
  · refine Or.inr ⟨?_, hshows⟩
    rcases h with hd | hc | ⟨w, hw, hb, -⟩
    · exact absurd (Or.inl hd) hshows
    · exact absurd (Or.inr (Or.inl hc)) hshows
    · by_contra hnone
      exact hshows (Or.inr (Or.inr ⟨w, hw, hb, fun id hbase hlost => hnone ⟨w, id, hw, hb, hbase, hlost⟩⟩))

end Frame

namespace Context

variable {c : Context}

/-- What shows a variable not to be null, and does not depend on others that change, is kept. -/
theorem shows_invariant (s : Scope) {changed : VariableId → Prop} {y : VariableId} (hy : ¬changed y) (viaMethods : Bool) :
    Frame.Invariant s (fun _ => True) changed
      fun f => f.partition.WellFormed ∧ f.partition.ShowsNotNull changed (.var y viaMethods) := by
  refine ⟨fun hf _ => hf, fun hf => ⟨trivial, hf⟩, id, ?_, ?_, ?_, ?_, ?_⟩
  · exact fun hf _ _ hid => ⟨Frame.assign_wellFormed hf.1 _ _, Frame.shows_assign hf.2 hy s hid _⟩
  · exact fun hf hid => ⟨Frame.flushVariable_wellFormed hf.1 _, Frame.shows_flushVariable hf.2 hy hid⟩
  · exact fun hf _ _ => ⟨Frame.applyRelation_wellFormed hf.1 _ _ _ _, hf.2.mono (Frame.grows_applyRelation _ s _ _ _ _)⟩
  · exact fun hf _ => ⟨Frame.applyNotNull_wellFormed hf.1 _, hf.2.mono (Frame.grows_applyNotNull _ _)⟩
  · intro f kind negated left right hf _ _
    rwa [Frame.partition_applyCast]

/-- **A variable that is known not to be null stays so.** If a state of a procedure knows a variable not to be null,
and the instruction there does not assign to it, flush it or rebind it, then every successor knows it too, unless it
was known from nothing but the boxed forms of variables that the instruction changes. -/
theorem notNull_persists {p : Successor} (hp : p ∈ c.stateSpace) {i : Instruction}
    (hi : c.procedure.instructions[p.index]? = some i) {y : VariableId} {viaMethods : Bool}
    (hnotNull : p.frame.isNotNull (.var y viaMethods) = true) (hy : ¬c.Changes i p.frame y) :
    (∀ q ∈ (visit c i p.frame).next, q.frame.isNotNull (.var y viaMethods) = true) ∨
      p.frame.RestsOnBoxed (c.Changes i p.frame) (.var y viaMethods) := by
  have hwellFormed : p.frame.partition.WellFormed := hp.1.reachable.wellFormed
  have hshows := (Frame.isNotNull_iff_shows hwellFormed).mp hnotNull
  refine (Frame.shows_or_restsOnBoxed (c.Changes i p.frame) hshows).imp_left fun hkept q hq => ?_
  obtain ⟨hwellFormed', hkept'⟩ := visit_keeps (shows_invariant c.scope hy viaMethods) c.isClosed_true
    (List.mem_of_getElem? hi) ⟨hwellFormed, hkept⟩ (fun _ h => h) hq
  exact (Frame.isNotNull_iff_shows hwellFormed').mpr (hkept'.of_imp fun _ h => h.elim)

/-- A procedure that makes a new value `z`, boxes a parameter `x` as `y`, finds that `y` is not null, and then forgets
`x`. -/
def boxedCopy : Procedure where
  name := "m"
  sourceFile := none
  vars :=
    [⟨"x", .primitive .int, .parameter, false, []⟩, ⟨"y", .classType "java/lang/Integer", .local, false, []⟩,
     ⟨"z", .object, .local, false, []⟩]
  anchors := []
  instructions :=
    [⟨0, none, .push (.var 2 false)⟩,
     ⟨1, none, .push (.notNull .object)⟩,
     ⟨2, none, .assign⟩,
     ⟨3, none, .pop⟩,
     ⟨4, none, .push (.var 1 false)⟩,
     ⟨5, none, .push (.var 0 false)⟩,
     ⟨6, none, .methodCall ⟨none, [], none, .boxing, false, none, false, .empty⟩⟩,
     ⟨7, none, .assign⟩,
     ⟨8, none, .pop⟩,
     ⟨9, none, .push (.var 1 false)⟩,
     ⟨10, none, .push (.constant .null)⟩,
     ⟨11, none, .binop (some .ne)⟩,
     ⟨12, none, .pop⟩,
     ⟨13, none, .flushVariable 0⟩,
     ⟨14, none, .leave⟩]

/-- The last visit of that procedure but one forgets `x`, and no other variable. -/
theorem changes_boxedCopy {c : Context} {f : Frame} {id : VariableId} (h : c.Changes ⟨13, none, .flushVariable 0⟩ f id) :
    id = 0 := by
  cases h with
  | assigned h => cases h
  | flushed h => exact (Operation.flushVariable.inj h).symm
  | flushedField h => cases h
  | rebound hd => cases hd

/-- That `z` is not null is known on. -/
theorem notNull_persists_for_new_value :
    let c : Context := ⟨boxedCopy, .empty, AnalysisConfig.standard.resolver, .empty⟩
    ∃ p ∈ c.stateSpace, c.procedure.instructions[p.index]? = some ⟨13, none, .flushVariable 0⟩ ∧
      p.frame.isNotNull (.var 2 false) = true ∧ ¬c.Changes ⟨13, none, .flushVariable 0⟩ p.frame 2 ∧
      ∀ q ∈ (visit c ⟨13, none, .flushVariable 0⟩ p.frame).next, q.frame.isNotNull (.var 2 false) = true := by
  intro c
  have hstate : ∃ p ∈ c.wave 13, p.index = 13 ∧ p.frame.isNotNull (.var 2 false) = true ∧
      p.frame.partition.slot? (.var 2 false) = some 0 ∧ p.frame.partition.slot? .null = some 1 ∧
      p.frame.partition.areDistinct 0 1 = true := by decide +kernel
  obtain ⟨p, hp, hindex, hnotNull, hz, hnull, hdistinct⟩ := hstate
  have hat : c.procedure.instructions[p.index]? = some ⟨13, none, .flushVariable 0⟩ := by
    rw [hindex]
    rfl
  have hspace : p ∈ c.stateSpace := mem_stateSpace_of_mem_wave hp hat
  have hunchanged : ¬c.Changes ⟨13, none, .flushVariable 0⟩ p.frame 2 := fun h => by cases changes_boxedCopy h
  refine ⟨p, hspace, hat, hnotNull, hunchanged, ?_⟩
  -- that `z` is not null rests on a note, so the exception does not arise
  refine (notNull_persists hspace hat hnotNull hunchanged).resolve_right fun h => h.nothingElse (Or.inl ?_)
  exact ⟨0, 1, Partition.mem_members_of_slot? hz, Partition.mem_members_of_slot? hnull, hdistinct⟩

/-- That `y` is not null is known until `x` is forgotten, and not any more then. -/
theorem notNull_not_persistent :
    let c : Context := ⟨boxedCopy, .empty, AnalysisConfig.standard.resolver, .empty⟩
    boxedCopy.validate = .ok boxedCopy ∧ ∃ p ∈ c.stateSpace, ∃ i, c.procedure.instructions[p.index]? = some i ∧
      p.frame.isNotNull (.var 1 false) = true ∧ ¬c.Changes i p.frame 1 ∧
      ∃ q ∈ (visit c i p.frame).next, q.frame.isNotNull (.var 1 false) = false := by
  intro c
  have hstate : ∃ p ∈ c.wave 13, p.index = 13 ∧ p.frame.isNotNull (.var 1 false) = true ∧
      ∃ q ∈ (visit c ⟨13, none, .flushVariable 0⟩ p.frame).next, q.frame.isNotNull (.var 1 false) = false := by
    decide +kernel
  obtain ⟨p, hp, hindex, hnotNull, hnext⟩ := hstate
  have hat : c.procedure.instructions[p.index]? = some ⟨13, none, .flushVariable 0⟩ := by
    rw [hindex]
    rfl
  have hspace : p ∈ c.stateSpace := mem_stateSpace_of_mem_wave hp hat
  have hunchanged : ¬c.Changes ⟨13, none, .flushVariable 0⟩ p.frame 1 := fun h => by cases changes_boxedCopy h
  exact ⟨by decide +kernel, p, hspace, _, hat, hnotNull, hunchanged, hnext⟩

end Context

end NullCheck
