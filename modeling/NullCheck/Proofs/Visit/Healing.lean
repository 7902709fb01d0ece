import NullCheck.Proofs.State.Healing
import NullCheck.Proofs.Visit.Check
import NullCheck.Proofs.Visit.Persistence

/-!
# A variable is reported once

A variable that is reported to be null where it may not be is noted not to be null after all. From then on nothing
speaks against it, until it is changed: no path reports it again, through whatever instructions it goes on.

## The architecture

* **`Visit.Checks.spares`**: a variable against which nothing speaks passes all checks of a visit, whatever is rebound
  between them.
* **`Visit.Checks.heals`**: a variable that was reported is healed after the checks of the visit; none of its forms is
  reported a second time among them.
* **`Context.Keeps`**: a step that leaves a variable as it is.
* **`Context.shows_of_keeps`**: what shows the variable not to be null stays along a path of such steps.
* **`Context.reported_once`**: the headline.
-/

namespace NullCheck

/-! ## The checks of one visit -/

namespace Visit.Checks

variable {c : Context} {f : Frame} {n : Nat} {k : Checked} {id : VariableId} {m : Bool}

theorem wellFormed (h : Checks c f n k) (hf : f.partition.WellFormed) : k.frame.partition.WellFormed := by
  induction h with
  | start | field => exact hf
  | pop _ ih | warn _ _ _ _ ih => exact ih
  | @demand k v d _ _ ih =>
    obtain ⟨-, heq⟩ | ⟨-, -, t, -, heq⟩ := demandNotNull_cases c k v d
    · rw [heq]
      exact Frame.applyNotNull_wellFormed ih v
    · rw [heq]
      exact Frame.assign_wellFormed (Frame.applyNotNull_wellFormed ih v) _ _

/-- **Where nothing speaks against a variable, no check reports it.** -/
theorem spares (h : Checks c f n k) (hf : f.partition.WellFormed) (hcleared : f.Cleared id m) :
    k.frame.Cleared id m ∧
      ∀ d ∈ k.defects, ∀ depth, d.subject? n = some depth → f.operand depth ≠ .var id m := by
  induction h with
  | start | field => exact ⟨hcleared, fun d hd => by cases hd⟩
  | pop _ ih => exact ih
  | @demand k v d hk hsubject ih =>
    have hwellFormed := hk.wellFormed hf
    have hnoted := ih.1.applyNotNull hwellFormed v
    obtain ⟨-, heq⟩ | ⟨hfails, hdefects, t, -, heq⟩ := demandNotNull_cases c k v d
    · rw [heq]
      exact ⟨hnoted, ih.2⟩
    · rw [heq, hdefects]
      refine ⟨hnoted.assign (Frame.applyNotNull_wellFormed hwellFormed v) v t, fun e he depth hdepth hx => ?_⟩
      rcases List.mem_append.mp he with he | he
      · exact ih.2 e he depth hdepth hx
      · -- the defect of this demand would be about `id`, for which it cannot fail
        rw [List.mem_singleton.mp he] at hdepth
        rw [← hsubject depth hdepth, hx, ih.1.holds_applyNotNull hwellFormed] at hfails
        cases hfails
  | @warn k v d hk hsubject _ hcheck ih =>
    refine ⟨ih.1, fun e he depth hdepth hx => ?_⟩
    rcases List.mem_append.mp he with he | he
    · exact ih.2 e he depth hdepth hx
    · rw [List.mem_singleton.mp he] at hdepth
      rw [← hsubject depth hdepth, hx, ih.1.checkNotNullable (hk.wellFormed hf)] at hcheck
      cases hcheck

/-- **A variable that was reported is healed,** and the checks that follow leave it so. -/
theorem heals (h : Checks c f n k) (hf : f.partition.WellFormed) :
    ∀ d ∈ k.defects, ∀ depth, d.depth? n = some depth → f.operand depth = .var id m → k.frame.Healed id m := by
  induction h with
  | start | field => exact fun d hd => by cases hd
  | pop _ ih =>
    intro d hd depth hdepth hx
    have hhealed := ih d hd depth hdepth hx
    exact ⟨hhealed.shows, hhealed.cleared⟩
  | @demand k v d hk hsubject ih =>
    have hwellFormed := hk.wellFormed hf
    have hnoted := Frame.applyNotNull_wellFormed hwellFormed v
    obtain ⟨-, heq⟩ | ⟨hfails, hdefects, t, -, heq⟩ := demandNotNull_cases c k v d
    · rw [heq]
      exact fun e he depth hdepth hx => (ih e he depth hdepth hx).applyNotNull hwellFormed v
    · rw [heq, hdefects]
      intro e he depth hdepth hx
      rcases List.mem_append.mp he with he | he
      · have hhealed := ih e he depth hdepth hx
        refine (hhealed.applyNotNull hwellFormed v).assign hnoted (fun hv => ?_) t
        -- no other form of the variable fails either
        cases v with
        | var x m' =>
          rw [Option.some.inj hv, (hhealed.cleared m').holds_applyNotNull hwellFormed] at hfails
          cases hfails
        | _ => cases hv
      · rw [List.mem_singleton.mp he] at hdepth
        rw [← hsubject depth (Defect.subject?_of_depth? hdepth), hx] at hnoted ⊢
        exact .of_assign hnoted c.scope id m t
  | @warn k v d _ _ hwarning _ ih =>
    intro e he depth hdepth hx
    rcases List.mem_append.mp he with he | he
    · exact ih e he depth hdepth hx
    · rw [List.mem_singleton.mp he, hwarning] at hdepth
      cases hdepth

end Visit.Checks

/-! ## Paths -/

namespace Context

variable {c : Context} {f : Frame} {i : Instruction} {p q r : Successor} {id : VariableId} {m : Bool}

/-- A pair goes on to another one, and the visit does not change the variable. -/
def Keeps (c : Context) (id : VariableId) (p q : Successor) : Prop :=
  ∃ i, c.procedure.instructions[p.index]? = some i ∧ q ∈ (visit c i p.frame).next ∧ ¬c.Changes i p.frame id

/-- What shows a variable not to be null, and does not rest on others, is known along a path that does not change the
variable. -/
theorem shows_of_keeps (hr : Relation.ReflTransGen (c.Keeps id) q r) (hf : q.frame.partition.WellFormed)
    (hshows : q.frame.partition.ShowsNotNull (· ≠ id) (.var id m)) :
    r.frame.partition.WellFormed ∧ r.frame.partition.ShowsNotNull (· ≠ id) (.var id m) := by
  induction hr with
  | refl => exact ⟨hf, hshows⟩
  | tail _ hstep ih =>
    obtain ⟨i, hi, hnext, hkept⟩ := hstep
    exact visit_keeps (shows_invariant c.scope (fun hne => hne rfl) m) c.isClosed_true (List.mem_of_getElem? hi) ih
      (fun x hx heq => hkept (heq ▸ hx)) hnext

/-- After a visit that reports a variable it shows not to be null. -/
theorem shows_of_reported (hf : f.partition.WellFormed) {d : Defect} {depth : Nat} (hd : d ∈ (visit c i f).defects)
    (hdepth : d.depth? i.operation.arguments = some depth) (hx : f.operand depth = .var id m)
    (hflush : ∀ call, i.operation = .methodCall call → call.flushFields = true → id ∉ c.scope.fieldVariables)
    (hq : q ∈ (visit c i f).next) :
    q.frame.partition.WellFormed ∧ q.frame.partition.ShowsNotNull (· ≠ id) (.var id m) := by
  have hfound := Visit.mem_defects_checked hd (Defect.subject?_of_depth? hdepth)
  -- the check that reported bound the variable to what is not null
  have hchecked : (Visit.checked c i f).frame.partition.WellFormed ∧
      (Visit.checked c i f).frame.partition.ShowsNotNull (· ≠ id) (.var id m) :=
    ⟨Visit.checks_checked.wellFormed hf, (Visit.checks_checked.heals hf d hfound depth hdepth hx).shows⟩
  obtain heq | ⟨call, v, hoperation, heq⟩ := Visit.frame_of_reported hd hdepth hq
  · rwa [heq]
  · rw [heq]
    split
    · -- a flush of the fields spares a variable that is none of them
      rename_i hflushes
      exact Visit.flushFields_keeps (shows_invariant c.scope (fun hne => hne rfl) m) hchecked
        fun x hxfield hne => hflush call hoperation hflushes (hne ▸ hxfield)
    · exact hchecked

/-- **A variable is reported once on each path.** If a visit reports a variable as the qualifier of a field or of a
call, as what is unboxed, or as an argument, then it is known not to be null in every successor, unless the visit
flushes it as a field. It stays so on every path from there that does not change it, and none of the instructions on
the path finds a defect of it. -/
theorem reported_once (hf : f.Reachable c.scope) {d : Defect} {depth : Nat} (hd : d ∈ (visit c i f).defects)
    (hdepth : d.depth? i.operation.arguments = some depth) (hx : f.operand depth = .var id m)
    (hflush : ∀ call, i.operation = .methodCall call → call.flushFields = true → id ∉ c.scope.fieldVariables)
    (hq : q ∈ (visit c i f).next) (hr : Relation.ReflTransGen (c.Keeps id) q r) :
    r.frame.isNotNull (.var id m) = true ∧
      ∀ j, c.procedure.instructions[r.index]? = some j → ∀ e ∈ (visit c j r.frame).defects,
        ∀ depth, e.subject? j.operation.arguments = some depth → r.frame.operand depth ≠ .var id m := by
  obtain ⟨hwellFormed, hshows⟩ := shows_of_reported hf.wellFormed hd hdepth hx hflush hq
  obtain ⟨hwellFormed', hshows'⟩ := shows_of_keeps hr hwellFormed hshows
  refine ⟨Frame.isNotNull_of_shows hwellFormed' hshows', fun j _ e he depth' hdepth' => ?_⟩
  exact (Visit.checks_checked.spares hwellFormed' (Or.inl hshows')).2 e (Visit.mem_defects_checked he hdepth') depth'
    hdepth'

/-- A procedure that reads two fields of a parameter that may be null. -/
def twoReads : Procedure where
  name := "m"
  sourceFile := none
  vars := [⟨"x", .object, .parameter, false, ["org.jetbrains.annotations.Nullable"]⟩]
  anchors := []
  instructions :=
    [⟨0, none, .push (.var 0 false)⟩,
     ⟨1, none, .fieldReference true⟩,
     ⟨2, none, .push (.var 0 false)⟩,
     ⟨3, none, .fieldReference true⟩,
     ⟨4, none, .leave⟩]

/-- The first read reports the parameter. The path goes on to the second one, which reports nothing of it. -/
theorem reported_once_in_twoReads :
    let c : Context := ⟨twoReads, .empty, AnalysisConfig.standard.resolver, .empty⟩
    let i : Instruction := ⟨1, none, .fieldReference true⟩
    ∃ p ∈ c.stateSpace, p.frame.Reachable c.scope ∧ .fieldOfNull ∈ (visit c i p.frame).defects ∧
      p.frame.operand 0 = .var 0 false ∧ ∃ q ∈ (visit c i p.frame).next, ∃ r, Relation.ReflTransGen (c.Keeps 0) q r ∧
        r.index = 3 ∧ r.frame.operand 0 = .var 0 false ∧ r.frame.isNotNull (.var 0 false) = true ∧
        .fieldOfNull ∉ (visit c ⟨3, none, .fieldReference true⟩ r.frame).defects := by
  intro c i
  have hstate : ∃ p ∈ c.wave 1, p.index = 1 ∧ .fieldOfNull ∈ (visit c i p.frame).defects ∧
      p.frame.operand 0 = .var 0 false ∧ ∃ q ∈ (visit c i p.frame).next, q.index = 2 ∧
        ∃ r ∈ (visit c ⟨2, none, .push (.var 0 false)⟩ q.frame).next, r.index = 3 ∧
          r.frame.operand 0 = .var 0 false := by decide +kernel
  obtain ⟨p, hp, hindex, hd, hx, q, hq, hqindex, r, hr, hrindex, hoperand⟩ := hstate
  have hat : c.procedure.instructions[p.index]? = some i := by
    rw [hindex]
    rfl
  have hspace : p ∈ c.stateSpace := mem_stateSpace_of_mem_wave hp hat
  -- a push changes no variable
  have hkeeps : c.Keeps 0 q r := by
    refine ⟨⟨2, none, .push (.var 0 false)⟩, by rw [hqindex]; rfl, hr, fun hchanges => ?_⟩
    cases hchanges with
    | assigned h => cases h
    | flushed h => cases h
    | flushedField h => cases h
    | rebound h => cases h
  have hpath : Relation.ReflTransGen (c.Keeps 0) q r := .single hkeeps
  obtain ⟨hnotNull, hspared⟩ :=
    reported_once hspace.1.reachable hd rfl hx (fun call hoperation => by cases hoperation) hq hpath
  have hat' : c.procedure.instructions[r.index]? = some ⟨3, none, .fieldReference true⟩ := by
    rw [hrindex]
    rfl
  exact ⟨p, hspace, hspace.1.reachable, hd, hx, q, hq, r, hpath, hrindex, hoperand, hnotNull,
    fun hdefect => hspared _ hat' _ hdefect 0 rfl hoperand⟩

end Context

end NullCheck
