import NullCheck.Proofs.Visit.Invariant

/-!
# The checks of a visit

A visit checks the values that it takes from the stack, one after the other: the arguments of a call from the last one
on, then what lies below them. Whatever is to be said of all that it finds is shown by induction on these checks.

## The architecture

* **`Defect.subject?`**: which value of the frame a defect is one of.
* **`Visit.Checks`**: all that comes about by checks. Every defect is put down to the value that was checked.
* **`checks_checkCall`**: the arguments of a call and what it is called on are checked in this way.
* **`Visit.checked`**, **`checks_checked`**: what is left after the checks of a visit.
* **`mem_defects_checked`**: no defect of such a value is found elsewhere.
* **`frame_of_reported`**: where a variable is rebound, the visit goes on with what is left after its checks.
-/

namespace NullCheck

/-- How deep the value lies of which a defect is one, below so many arguments. -/
def Defect.subject? (arguments : Nat) : Defect → Option Nat
  | .fieldOfNull | .callOnNull | .unboxedNull => some arguments
  | .nullArgument position | .nullArgumentUnannotated position => some (arguments - 1 - position)
  | .nullReturned => some 0
  | _ => none

/-- What is rebound for a defect is what it is one of. -/
theorem Defect.subject?_of_depth? {d : Defect} {n depth : Nat} (h : d.depth? n = some depth) :
    d.subject? n = some depth := by
  cases d <;> first | exact h | cases h

namespace Visit

variable {c : Context} {f : Frame} {i : Instruction} {n : Nat} {k : Checked} {v : Value} {d : Defect}

variable (c f n) in
/-- What comes about when values of a frame are taken from its stack and checked. Some defects make that a variable is
rebound, others are only warnings. -/
inductive Checks : Checked → Prop
  | start : Checks (.clean f)
  | field : Checks (.clean f.withFieldReferenced)
  | pop {k : Checked} (h : Checks k) : Checks { k with frame := k.frame.pop.2 }
  | demand {k : Checked} {v : Value} {d : Defect} (h : Checks k)
      (hsubject : ∀ depth, d.subject? n = some depth → f.operand depth = v) : Checks (demandNotNull c k v d)
  | warn {k : Checked} {v : Value} {d : Defect} (h : Checks k)
      (hsubject : ∀ depth, d.subject? n = some depth → f.operand depth = v) (hdepth : d.depth? n = none)
      (hcheck : k.frame.checkNotNullable v = false) : Checks { k with defects := k.defects ++ [d] }

/-- A value that may not be null is noted not to be, and if it is a variable that fails, it is rebound. -/
theorem demandNotNull_cases (c : Context) (k : Checked) (v : Value) (d : Defect) :
    (k.frame.applyNotNull v).holds = true ∧
        demandNotNull c k v d = { k with frame := (k.frame.applyNotNull v).frame } ∨
      (k.frame.applyNotNull v).holds = false ∧ (demandNotNull c k v d).defects = k.defects ++ [d] ∧
        ∃ t, (∀ id, v.varId? = some id → t = c.scope.variableType id) ∧
          (demandNotNull c k v d).frame = (k.frame.applyNotNull v).frame.assign c.scope v (.notNull t) := by
  unfold demandNotNull
  simp only
  split
  · rename_i hholds
    exact Or.inl ⟨hholds, rfl⟩
  · rename_i hholds
    refine Or.inr ⟨Bool.eq_false_iff.mpr hholds, rfl, ?_⟩
    unfold rebindNotNull
    split
    · -- a variable is bound anew, to its own type
      rename_i id hid
      exact ⟨_, fun j hj => by rw [Option.some.inj (hid.symm.trans hj)], rfl⟩
    · rename_i hid
      refine ⟨.object, fun j hj => ?_, ?_⟩
      · rw [hid] at hj
        cases hj
      · unfold Frame.assign
        rw [hid]

/-! ## Calls -/

/-- An argument is popped, and then demanded not to be null, warned about or left alone. -/
theorem checks_checkArgument (h : Checks c f n k) {nullness : List Nullness} {position : Nat}
    (htop : k.frame.pop.1 = f.operand (n - 1 - position)) : Checks c f n (checkArgument c nullness k position) := by
  have hsubject : ∀ depth, some (n - 1 - position) = some depth → f.operand depth = k.frame.pop.1 := by
    intro depth hdepth
    rw [htop, Option.some.inj hdepth]
  unfold checkArgument
  simp only
  split
  · -- the parameter must not be null
    exact h.pop.demand hsubject
  · split
    · exact h.pop
    · rename_i hcheck
      exact h.pop.warn hsubject rfl (Bool.eq_false_iff.mpr hcheck)
  · exact h.pop

/-- The last argument is on top, so that `m` arguments are left when the others were taken from above them. -/
theorem checks_takeArguments (h : Checks c f n k) {nullness : List Nullness} {m : Nat} (hm : m ≤ n)
    (hstack : k.frame.stack = f.stack.drop (n - m)) : Checks c f n (takeArguments c nullness m k) := by
  induction m generalizing k with
  | zero => exact h
  | succ m ih =>
    rw [takeArguments_succ]
    -- the argument on top is the last one that was not taken yet
    have htop : k.frame.pop.1 = f.operand (n - 1 - m) := by
      rw [← Frame.operand_zero, Frame.operand_of_drop hstack]
      congr 1
      omega
    refine ih (checks_checkArgument h htop) (by omega) ?_
    rw [stack_checkArgument, hstack, List.tail_drop]
    congr 1
    omega

variable (c) in
/-- The checks of a call. -/
def checkCall (call : MethodCall) (f : Frame) : Checked :=
  let k := takeArguments c (c.argumentNullness call) call.arguments.length (.clean f)
  demandNotNull c { k with frame := k.frame.pop.2 } k.frame.pop.1
    (if call.kind = .unboxing then .unboxedNull else .callOnNull)

/-- A call checks its arguments. -/
theorem checks_checkCall (call : MethodCall) : Checks c f call.arguments.length (checkCall c call f) := by
  have htaken : Checks c f call.arguments.length
      (takeArguments c (c.argumentNullness call) call.arguments.length (.clean f)) :=
    checks_takeArguments .start le_rfl (by simp [Checked.clean])
  refine htaken.pop.demand fun depth hdepth => ?_
  have hlies : depth = call.arguments.length := by
    split at hdepth <;> exact (Option.some.inj hdepth).symm
  rw [pop_takeArguments, hlies]

/-! ## All instructions -/

variable (c) in
/-- What is left of a frame after the checks of a visit. -/
def checked (i : Instruction) (f : Frame) : Checked :=
  match i.operation with
  | .fieldReference true =>
    demandNotNull c (.clean f.withFieldReferenced.pop.2) f.withFieldReferenced.pop.1 .fieldOfNull
  | .methodCall call => checkCall c call f
  | .checkReturnValue =>
    { Checked.clean f.pop.2 with defects := if f.pop.2.checkNotNullable f.pop.1 then [] else [.nullReturned] }
  | _ => .clean f

/-- Each instruction that checks something does so by these steps. -/
theorem checks_checked : Checks c f i.operation.arguments (checked c i f) := by
  have htop : ∀ depth, some 0 = some depth → f.operand depth = f.pop.1 := by
    intro depth hdepth
    rw [← Option.some.inj hdepth, Frame.operand_zero]
  unfold checked
  split
  · rename_i hoperation
    rw [hoperation]
    exact Checks.field.pop.demand htop
  · -- a call checks its arguments and its qualifier
    rename_i call hoperation
    rw [hoperation]
    exact checks_checkCall call
  · rename_i hoperation
    rw [hoperation]
    split
    · exact Checks.start.pop
    · rename_i hcheck
      exact Checks.start.pop.warn htop rfl (Bool.eq_false_iff.mpr hcheck)
  · exact .start

theorem mem_defects_assign (hd : d ∈ (assign c i f).defects) : d = .nullAssigned := by
  unfold assign at hd
  simp only at hd
  split at hd
  · cases hd
  · simp only [List.mem_ite_nil_left, List.mem_singleton] at hd
    exact hd.2

theorem mem_defects_typeCast {cast : TypeCast} (hd : d ∈ (typeCast c i cast f).defects) : d = .impossibleCast := by
  -- only the check of the cast reports
  have hchecked : d ∈ (checkCast c cast f).defects := by
    unfold typeCast at hd
    simp only at hd
    split at hd <;> exact hd
  unfold checkCast at hchecked
  split at hchecked
  · cases hchecked
  · simp only at hchecked
    split at hchecked
    · cases hchecked
    · split at hchecked
      · cases hchecked
      · exact List.mem_singleton.mp hchecked

/-- An operator reports no defect when it is visited; what is constant shows at the end of a run. -/
theorem defects_binop (operator : Option BinaryOperator) : (binop c i operator f).defects = [] := by
  unfold binop
  simp only
  split
  · rfl
  · split
    · rfl
    · split
      · rfl
      · split <;> rfl

theorem defects_conditionalGoto (target : Nat) (negated : Bool) :
    (conditionalGoto c i target negated f).defects = [] := by
  unfold conditionalGoto
  simp only
  split <;> rfl

/-- **A defect of a value of the frame is found by the checks.** -/
theorem mem_defects_checked {depth : Nat} (hd : d ∈ (visit c i f).defects)
    (hsubject : d.subject? i.operation.arguments = some depth) : d ∈ (checked c i f).defects := by
  unfold checked
  cases hoperation : i.operation with
  | fieldReference physical =>
    cases physical with
    | true =>
      simp only [visit, hoperation, if_true] at hd
      exact hd
    | false =>
      simp only [visit, hoperation] at hd
      cases hd
  | methodCall call =>
    simp only [visit, hoperation] at hd
    exact hd
  | checkReturnValue =>
    simp only [visit, hoperation] at hd
    exact hd
  -- the defects of assignments and casts are of no such value
  | assign =>
    simp only [visit, hoperation] at hd
    rw [mem_defects_assign hd] at hsubject
    cases hsubject
  | typeCast cast =>
    simp only [visit, hoperation] at hd
    rw [mem_defects_typeCast hd] at hsubject
    cases hsubject
  | binop operator =>
    simp only [visit, hoperation, defects_binop] at hd
    cases hd
  | conditionalGoto target negated =>
    simp only [visit, hoperation, defects_conditionalGoto] at hd
    cases hd
  | push operand | pop | dup | goto target | flushVariable id | leave =>
    simp only [visit, hoperation] at hd
    cases hd

/-- **After a defect for which a variable is rebound a visit goes on with what its checks left,** and a call beside that
pushes its result and flushes the fields. -/
theorem frame_of_reported {depth : Nat} (hd : d ∈ (visit c i f).defects)
    (hdepth : d.depth? i.operation.arguments = some depth) {q : Successor} (hq : q ∈ (visit c i f).next) :
    q.frame = (checked c i f).frame ∨ ∃ call v, i.operation = .methodCall call ∧
      q.frame = if call.flushFields then ((checked c i f).frame.push v).flushFields c.scope
        else (checked c i f).frame.push v := by
  have hfound := mem_defects_checked hd (Defect.subject?_of_depth? hdepth)
  unfold checked at hfound ⊢
  split at hfound
  · rename_i hoperation
    simp only [visit, hoperation, if_true] at hq
    exact Or.inl (congrArg Successor.frame (mem_next_advance.mp hq))
  · rename_i call hoperation
    simp only [visit, hoperation] at hq
    exact Or.inr ⟨call, _, hoperation, congrArg Successor.frame (mem_next_advance.mp hq)⟩
  · -- what is returned is not rebound
    rename_i hoperation
    simp only [List.mem_ite_nil_left, List.mem_singleton] at hfound
    rw [hfound.2] at hdepth
    cases hdepth
  · cases hfound

end Visit

end NullCheck
