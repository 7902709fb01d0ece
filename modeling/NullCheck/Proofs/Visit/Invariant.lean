import NullCheck.Proofs.Exploration
import NullCheck.Proofs.State.Stack

/-!
# What visits keep

A visit works on its frame by nothing but the operations on frames. So whatever these keep holds of all frames that
the visit goes on with, and if it holds of the empty frame, of all frames that come up in a run.

Two things are told along with it, for those who want to know more than that: of which kind all values are that come
to stand on the stack, and which variables a visit changes.

## The architecture

* **`Frame.Invariant`**: what the operations on frames keep.
* **`Context.Supplies`**: what a visit puts into frames is of a kind.
* **`Context.IsClosed`**: the values of a kind come up from nothing but each other, in all visits.
* **`Context.Changes`**: a visit assigns to a variable, flushes it, or notes that it is not null after all.
* **`…_keeps`**, one lemma for each part of a visit.
* **`visit_keeps_of_supplies`**, **`visit_keeps`**, **`Context.Reaches.keeps`**: the headlines, for a visit and for a
  run.
-/

namespace NullCheck

/-- Something that is kept by the operations on frames, as long as they work on values of a kind `U` and change none
but the variables in `A`. -/
structure Frame.Invariant (s : Scope) (U : Value → Prop) (A : VariableId → Prop) (I : Frame → Prop) : Prop where
  push : ∀ {f v}, I f → U v → I (f.push v)
  pop : ∀ {f}, I f → U f.pop.1 ∧ I f.pop.2
  referenceField : ∀ {f}, I f → I f.withFieldReferenced
  assign : ∀ {f target value}, I f → U target → U value → (∀ id, target.varId? = some id → A id) →
    I (f.assign s target value)
  flushVariable : ∀ {f id}, I f → A id → I (f.flushVariable id)
  applyRelation : ∀ {f kind negated left right}, I f → U left → U right →
    I (f.applyRelation s kind negated left right).frame
  applyNotNull : ∀ {f v}, I f → U v → I (f.applyNotNull v).frame
  applyCast : ∀ {f kind negated left right}, I f → U left → U right →
    I (f.applyCast s (.relation kind negated left right)).frame

/-- The value at a depth of the stack; nothing is known of what lies below the last one. -/
def Frame.operand (f : Frame) (depth : Nat) : Value := f.stack.getD depth .unknown

theorem Frame.operand_zero (f : Frame) : f.operand 0 = f.pop.1 := by
  unfold operand pop
  cases f.stack <;> rfl

/-- After so many values were taken from the stack, those below lie less deep. -/
theorem Frame.operand_of_drop {f g : Frame} {n : Nat} (h : g.stack = f.stack.drop n) (depth : Nat) :
    g.operand depth = f.operand (n + depth) := by
  unfold operand
  rw [h, List.getD_eq_getElem?_getD, List.getElem?_drop, List.getD_eq_getElem?_getD]

theorem Frame.operand_one (f : Frame) : f.operand 1 = f.pop.2.pop.1 := by
  rw [← operand_zero, operand_of_drop (g := f.pop.2) List.drop_one.symm]

/-- How deep the value lies that is rebound for a defect, below so many arguments. -/
def Defect.depth? (arguments : Nat) : Defect → Option Nat
  | .fieldOfNull | .callOnNull | .unboxedNull => some arguments
  | .nullArgument position => some (arguments - 1 - position)
  | _ => none

/-- How many arguments an operation takes from above the value that it works on. -/
def Operation.arguments : Operation → Nat
  | .methodCall call => call.arguments.length
  | _ => 0

namespace Context

/-- A kind of values to which belongs whatever comes up from the instructions of a procedure and values of that
kind. -/
structure IsClosed (c : Context) (U : Value → Prop) : Prop where
  unknown : U .unknown
  null : U .null
  boolean : ∀ b, U (.boolean b)
  string : U (.notNull .string)
  notNull : ∀ {id viaMethods}, U (.var id viaMethods) → U (.notNull (c.scope.variableType id))
  unbox : ∀ {v}, U v → U v.unbox
  operands : ∀ {kind negated left right}, U (.relation kind negated left right) → U left ∧ U right
  push : ∀ {i operand}, i ∈ c.procedure.instructions → i.operation = .push operand → U (c.scope.valueOf operand)
  cast : ∀ {i cast}, i ∈ c.procedure.instructions → i.operation = .typeCast cast →
    U (.typed cast.target .unknown) ∧ ∀ operand, cast.casted = some operand → U (c.scope.valueOf operand)
  result : ∀ {i call v}, i ∈ c.procedure.instructions → i.operation = .methodCall call → U v → U (c.resultValue call v)
  entry : ∀ {decl value}, decl ∈ c.procedure.vars → decl.entryValue? c.resolver = some value → U value
  declared : ∀ {id}, id < c.procedure.vars.length → U (.var id false)

/-- Of a kind is what a visit puts into frames beside what stands in them: truth values and others that come up
everywhere, and what comes up from the instruction and from the operands. -/
structure Supplies (c : Context) (i : Instruction) (f : Frame) (U : Value → Prop) : Prop where
  unknown : U .unknown
  null : U .null
  boolean : ∀ b, U (.boolean b)
  operands : ∀ {kind negated left right}, U (.relation kind negated left right) → U left ∧ U right
  string : i.operation = .binop (some .plus) → U (.notNull .string)
  push : ∀ {operand}, i.operation = .push operand → U (c.scope.valueOf operand)
  cast : ∀ {cast operand}, i.operation = .typeCast cast → cast.casted = some operand →
    U (.typed cast.target .unknown) ∧ U (c.scope.valueOf operand)
  unbox : ∀ {cast}, i.operation = .typeCast cast → cast.target.isPrimitive = true → U (f.operand 0).unbox
  result : ∀ {call}, i.operation = .methodCall call → U (c.resultValue call (f.operand call.arguments.length))
  rebound : ∀ {d depth id}, d ∈ (visit c i f).defects → d.depth? i.operation.arguments = some depth →
    (f.operand depth).varId? = some id → U (.notNull (c.scope.variableType id))

/-- What comes up from values of a closed kind is of the kind. -/
theorem IsClosed.supplies {c : Context} {U : Value → Prop} (hU : c.IsClosed U) {i : Instruction}
    (hi : i ∈ c.procedure.instructions) {f : Frame} (hf : ∀ depth, U (f.operand depth)) : c.Supplies i f U where
  unknown := hU.unknown
  null := hU.null
  boolean := hU.boolean
  operands := hU.operands
  string _ := hU.string
  push := hU.push hi
  cast hoperation hcasted := ⟨(hU.cast hi hoperation).1, (hU.cast hi hoperation).2 _ hcasted⟩
  unbox _ _ := hU.unbox (hf 0)
  result hoperation := hU.result hi hoperation (hf _)
  rebound {d depth id} _ _ hid := by
    have hoperand : U (f.operand depth) := hf depth
    cases hv : f.operand depth with
    | var id' viaMethods =>
      rw [hv] at hid hoperand
      exact Option.some.inj hid ▸ hU.notNull hoperand
    | _ => simp [hv, Value.varId?] at hid

/-- All values are a kind of values. -/
theorem isClosed_true (c : Context) : c.IsClosed fun _ => True := by
  constructor <;> intros <;> simp

/-- A visit changes a variable. -/
inductive Changes (c : Context) (i : Instruction) (f : Frame) (id : VariableId) : Prop
  | assigned (h : i.operation = .assign) (hid : (f.operand 1).varId? = some id)
  | flushed (h : i.operation = .flushVariable id)
  | flushedField {call : MethodCall} (h : i.operation = .methodCall call) (hflush : call.flushFields = true)
      (hid : id ∈ c.scope.fieldVariables)
  | rebound {d : Defect} {depth : Nat} (hd : d ∈ (visit c i f).defects)
      (hdepth : d.depth? i.operation.arguments = some depth) (hid : (f.operand depth).varId? = some id)

end Context

namespace Visit

variable {c : Context} {f g : Frame} {i : Instruction} {q : Successor} {U : Value → Prop} {A : VariableId → Prop}
  {I : Frame → Prop}

theorem mem_next_advance : q ∈ (advance i f).next ↔ q = ⟨i.index + 1, f⟩ := List.mem_singleton

/-- A visit that advances goes on with its own frame. -/
theorem keeps_of_mem_advance (hf : I f) (hq : q ∈ (advance i f).next) : I q.frame := by
  rw [mem_next_advance] at hq
  subst hq
  exact hf

/-! ## Checks -/

/-- A demand takes nothing from the stack: what was popped for it is gone already. -/
theorem stack_demandNotNull (k : Checked) (v : Value) (d : Defect) :
    (demandNotNull c k v d).frame.stack = k.frame.stack := by
  unfold demandNotNull
  simp only
  split
  · exact Frame.stack_applyNotNull k.frame v
  · unfold rebindNotNull
    split
    · simp only [Frame.stack_assign, Frame.stack_applyNotNull]
    · exact Frame.stack_applyNotNull k.frame v

/-- A demand keeps the defects that were found before it. -/
theorem mem_defects_demandNotNull {k : Checked} {e : Defect} (he : e ∈ k.defects) (v : Value) (d : Defect) :
    e ∈ (demandNotNull c k v d).defects := by
  unfold demandNotNull
  simp only
  split
  · exact he
  · exact List.mem_append_left _ he

variable (c U A) in
/-- A variable may be rebound: it may be changed, and the value that it gets is of the kind. -/
def MayRebind (v : Value) : Prop := ∀ id, v.varId? = some id → A id ∧ U (.notNull (c.scope.variableType id))

/-- If a variable fails the check, that is the defect. -/
theorem demandNotNull_keeps (hI : Frame.Invariant c.scope U A I) {k : Checked} {v : Value} {d : Defect} (hk : I k.frame)
    (hv : U v) (ha : d ∈ (demandNotNull c k v d).defects → MayRebind c U A v) :
    I (demandNotNull c k v d).frame := by
  have hr : I (k.frame.applyNotNull v).frame := hI.applyNotNull hk hv
  unfold demandNotNull at ha ⊢
  simp only at ha ⊢
  split at ha
  · rename_i hholds
    rw [if_pos hholds]
    exact hr
  · rename_i hholds
    rw [if_neg hholds]
    -- the demand failed, so a defect was found and the value is bound to what is not null
    have hrebound : MayRebind c U A v := ha (List.mem_append_right _ (List.mem_singleton_self d))
    cases v with
    | var id viaMethods => exact hI.assign hr hv (hrebound id rfl).2 fun j hj => (hrebound j hj).1
    | _ => exact hr

/-- To check an argument takes it from the stack. -/
theorem stack_checkArgument (nullness : List Nullness) (k : Checked) (position : Nat) :
    (checkArgument c nullness k position).frame.stack = k.frame.stack.tail := by
  unfold checkArgument
  simp only
  split
  · exact stack_demandNotNull _ _ _
  · split <;> rfl
  · rfl

theorem mem_defects_checkArgument {nullness : List Nullness} {k : Checked} {e : Defect} (he : e ∈ k.defects)
    (position : Nat) : e ∈ (checkArgument c nullness k position).defects := by
  unfold checkArgument
  simp only
  split
  · exact mem_defects_demandNotNull (k := { k with frame := k.frame.pop.2 }) he _ _
  · split
    · exact he
    · exact List.mem_append_left _ he
  · exact he

/-- What one argument's check does to a frame keeps the invariant, if what it binds anew may be. -/
theorem checkArgument_keeps (hI : Frame.Invariant c.scope U A I) {nullness : List Nullness} {k : Checked}
    {position : Nat} (hk : I k.frame)
    (ha : .nullArgument position ∈ (checkArgument c nullness k position).defects → MayRebind c U A k.frame.pop.1) :
    I (checkArgument c nullness k position).frame := by
  obtain ⟨hv, hpop⟩ := hI.pop hk
  unfold checkArgument at ha ⊢
  simp only at ha ⊢
  split at ha
  · exact demandNotNull_keeps hI (k := ⟨_, _, _⟩) hpop hv ha
  · split <;> exact hpop
  · exact hpop

variable (c) in
/-- Takes so many arguments from the stack, the last one first, and checks them. -/
def takeArguments (nullness : List Nullness) (n : Nat) (k : Checked) : Checked :=
  (List.range n).reverse.foldl (checkArgument c nullness) k

/-- The last argument lies on top and is checked first. -/
theorem takeArguments_succ (nullness : List Nullness) (n : Nat) (k : Checked) :
    takeArguments c nullness (n + 1) k = takeArguments c nullness n (checkArgument c nullness k n) := by
  unfold takeArguments
  rw [List.range_succ, List.reverse_append, List.reverse_singleton, List.singleton_append, List.foldl_cons]

theorem stack_takeArguments (nullness : List Nullness) (n : Nat) (k : Checked) :
    (takeArguments c nullness n k).frame.stack = k.frame.stack.drop n := by
  induction n generalizing k with
  | zero => rfl
  | succ n ih => rw [takeArguments_succ, ih, stack_checkArgument, List.drop_tail]

/-- Below the arguments lies what the operation works on. -/
theorem pop_takeArguments (nullness : List Nullness) (n : Nat) (f : Frame) :
    (takeArguments c nullness n (.clean f)).frame.pop.1 = f.operand n := by
  rw [← Frame.operand_zero, Frame.operand_of_drop (stack_takeArguments nullness n (.clean f))]
  rfl

theorem mem_defects_takeArguments {nullness : List Nullness} {k : Checked} {e : Defect} (he : e ∈ k.defects) (n : Nat) :
    e ∈ (takeArguments c nullness n k).defects := by
  induction n generalizing k with
  | zero => exact he
  | succ n ih =>
    rw [takeArguments_succ]
    exact ih (mem_defects_checkArgument he n)

/-- The last argument is on top, so that at a position lies below those behind it. -/
theorem takeArguments_keeps (hI : Frame.Invariant c.scope U A I) {nullness : List Nullness} {n : Nat} {k : Checked}
    (hk : I k.frame)
    (ha : ∀ position < n, .nullArgument position ∈ (takeArguments c nullness n k).defects →
      MayRebind c U A (k.frame.operand (n - 1 - position))) :
    I (takeArguments c nullness n k).frame := by
  induction n generalizing k with
  | zero => exact hk
  | succ n ih =>
    rw [takeArguments_succ] at ha ⊢
    -- the argument on top is checked, then those below it, which are one place nearer
    refine ih (checkArgument_keeps hI hk fun hd id hid => ?_) fun position hlt hd id hid => ?_
    · refine ha n (Nat.lt_succ_self n) (mem_defects_takeArguments hd n) id ?_
      rwa [show n + 1 - 1 - n = 0 by omega, Frame.operand_zero]
    · refine ha position (Nat.lt_succ_of_lt hlt) hd id ?_
      rw [show n + 1 - 1 - position = n - 1 - position + 1 by omega]
      rwa [Nat.add_comm, ← Frame.operand_of_drop (g := (checkArgument c nullness k n).frame)
        (by rw [stack_checkArgument, List.drop_one])]

/-! ## Instructions -/

/-- An assignment checks its source, binds its target and pushes it. -/
theorem assign_keeps (hI : Frame.Invariant c.scope U A I) (hf : I f)
    (ha : ∀ id, (f.operand 1).varId? = some id → A id) (hq : q ∈ (assign c i f).next) : I q.frame := by
  obtain ⟨hsource, hpop⟩ := hI.pop hf
  obtain ⟨htarget, hrest⟩ := hI.pop hpop
  have htop : f.operand 1 = f.pop.2.pop.1 := f.operand_one
  unfold assign at hq
  simp only at hq
  split at hq
  · exact keeps_of_mem_advance (hI.push hrest htarget) hq
  · -- the target is declared: its annotation may demand that the source is not null
    rename_i decl hdecl
    rw [show q = _ from mem_next_advance.mp hq]
    have hchecked : I (if c.resolver.isNotNull decl.annotations then f.pop.2.pop.2.applyNotNull f.pop.1
        else ⟨true, f.pop.2.pop.2⟩).frame := by
      split
      · exact hI.applyNotNull hrest hsource
      · exact hrest
    refine hI.push ?_ htarget
    split
    · exact hchecked
    · exact hI.assign hchecked htarget hsource fun id hid => ha id (htop ▸ hid)

theorem stack_checkCast (c : Context) (cast : TypeCast) (f : Frame) : (checkCast c cast f).frame.stack = f.stack := by
  unfold checkCast
  split
  · rfl
  · simp only
    split
    · rfl
    · exact Frame.stack_applyCast f c.scope _

theorem pop_checkCast (c : Context) (cast : TypeCast) (f : Frame) : (checkCast c cast f).frame.pop.1 = f.operand 0 := by
  rw [← Frame.operand_zero]
  exact Frame.operand_of_drop (n := 0) (stack_checkCast c cast f) 0

/-- A cast of a variable notes the type in the frame; any other one only looks at it. -/
theorem checkCast_keeps (hI : Frame.Invariant c.scope U A I) (hf : I f) {cast : TypeCast}
    (hcasted : ∀ operand, cast.casted = some operand →
      U (.typed cast.target .unknown) ∧ U (c.scope.valueOf operand)) : I (checkCast c cast f).frame := by
  unfold checkCast
  split
  · exact hf
  · rename_i operand hoperand
    simp only
    split
    · exact hf
    · rename_i condition hcondition
      -- the condition is a test of the operand against the type of the cast, in either order
      obtain ⟨kind, flip, -, rfl | ⟨-, rfl⟩⟩ := Value.exists_of_compare? hcondition
      · exact hI.applyCast hf (hcasted operand hoperand).2 (hcasted operand hoperand).1
      · exact hI.applyCast hf (hcasted operand hoperand).1 (hcasted operand hoperand).2

/-- A cast leaves its operand on the stack, or unboxes it. -/
theorem typeCast_keeps (hI : Frame.Invariant c.scope U A I) (hf : I f) {cast : TypeCast}
    (hcasted : ∀ operand, cast.casted = some operand → U (.typed cast.target .unknown) ∧ U (c.scope.valueOf operand))
    (hunbox : cast.target.isPrimitive = true → U (f.operand 0).unbox)
    (hq : q ∈ (typeCast c i cast f).next) : I q.frame := by
  have hchecked : I (checkCast c cast f).frame := checkCast_keeps hI hf hcasted
  unfold typeCast at hq
  simp only at hq
  split at hq
  · rename_i hprimitive
    exact keeps_of_mem_advance (hI.push (hI.pop hchecked).2 (pop_checkCast c cast f ▸ hunbox hprimitive)) hq
  · exact keeps_of_mem_advance hchecked hq

/-- The induction is on the fields, each of which may be flushed. -/
theorem flushFields_keeps (hI : Frame.Invariant c.scope U A I) (hf : I f) (ha : ∀ id ∈ c.scope.fieldVariables, A id) :
    I (f.flushFields c.scope) := by
  unfold Frame.flushFields
  generalize c.scope.fieldVariables = ids at ha
  induction ids generalizing f with
  | nil => exact hf
  | cons id ids ih =>
    rw [List.foldl_cons]
    exact ih (hI.flushVariable hf (ha id (List.mem_cons_self ..))) fun j hj => ha j (List.mem_cons_of_mem _ hj)

/-- A call takes its arguments and its qualifier, may forget the fields and pushes its result. -/
theorem methodCall_keeps (hI : Frame.Invariant c.scope U A I) (hf : I f) {call : MethodCall}
    (hresult : U (c.resultValue call (f.operand call.arguments.length)))
    (hfields : call.flushFields = true → ∀ id ∈ c.scope.fieldVariables, A id)
    (ha : ∀ d ∈ (methodCall c i call f).defects, ∀ depth, d.depth? call.arguments.length = some depth →
      MayRebind c U A (f.operand depth))
    (hq : q ∈ (methodCall c i call f).next) : I q.frame := by
  let k := takeArguments c (c.argumentNullness call) call.arguments.length (.clean f)
  let d : Defect := if call.kind = .unboxing then .unboxedNull else .callOnNull
  let r := demandNotNull c { k with frame := k.frame.pop.2 } k.frame.pop.1 d
  have hdefects : (methodCall c i call f).defects = r.defects := rfl
  rw [hdefects] at ha
  -- the arguments
  have hk : I k.frame := by
    refine takeArguments_keeps hI hf fun position _ hd id hid => ?_
    exact ha _ (mem_defects_demandNotNull (k := { k with frame := k.frame.pop.2 }) hd _ _) _ rfl id hid
  obtain ⟨hqualifier, hpop⟩ := hI.pop hk
  -- the qualifier, which lies below them
  have hlies : k.frame.pop.1 = f.operand call.arguments.length := pop_takeArguments _ _ f
  have hr : I r.frame := by
    refine demandNotNull_keeps hI (k := { k with frame := k.frame.pop.2 }) hpop hqualifier fun hd id hid => ?_
    refine ha d hd _ ?_ id (hlies ▸ hid)
    simp only [d]
    split <;> rfl
  have hpushed : I (r.frame.push (c.resultValue call k.frame.pop.1)) := hI.push hr (hlies ▸ hresult)
  rw [show q = _ from mem_next_advance.mp hq]
  show I (if call.flushFields then (r.frame.push (c.resultValue call k.frame.pop.1)).flushFields c.scope else
    r.frame.push (c.resultValue call k.frame.pop.1))
  split
  · rename_i hflush
    exact flushFields_keeps hI hpushed (hfields hflush)
  · exact hpushed

/-- A relation is made of the values that are compared. -/
theorem operands_of_compare? {left right relation : Value} {operator : BinaryOperator} {negated : Bool}
    (h : left.compare? right operator negated = some relation) (hleft : U left) (hright : U right) :
    ∃ kind negated l r, relation = .relation kind negated l r ∧ U l ∧ U r := by
  obtain ⟨kind, flip, -, rfl | ⟨-, rfl⟩⟩ := Value.exists_of_compare? h
  · exact ⟨_, _, _, _, rfl, hleft, hright⟩
  · exact ⟨_, _, _, _, rfl, hright, hleft⟩

/-- Of two equal values one may be noted not to be null; then that is what is built. -/
theorem shareNotNull_cases (c : Context) (f : Frame) (left right : Value) : shareNotNull c f left right = (f, []) ∨
    ∃ other condition, (other = left ∨ other = right) ∧ other.compare? .null .eq true = some condition ∧
      shareNotNull c f left right = ((f.applyCondition c.scope condition).frame, [condition]) := by
  unfold shareNotNull
  simp only
  split
  · rename_i condition hcondition
    obtain ⟨other, hother, hcompare⟩ := Option.bind_eq_some_iff.mp hcondition
    refine Or.inr ⟨other, condition, ?_, hcompare, rfl⟩
    split at hother
    · exact Or.inr (Option.some.inj hother).symm
    · split at hother
      · exact Or.inl (Option.some.inj hother).symm
      · cases hother
  · exact Or.inl rfl

/-- What is shared is a condition over the sides of the comparison. -/
theorem shareNotNull_keeps (hI : Frame.Invariant c.scope U A I) (hnull : U .null) (hf : I f) {left right : Value}
    (hleft : U left) (hright : U right) : I (shareNotNull c f left right).1 := by
  obtain heq | ⟨other, condition, hother, hcompare, heq⟩ := shareNotNull_cases c f left right
  · rw [heq]
    exact hf
  · have hmem : U other := by
      rcases hother with rfl | rfl
      · exact hleft
      · exact hright
    obtain ⟨kind, negated, l, r, rfl, hl, hr⟩ := operands_of_compare? hcompare hmem hnull
    rw [heq]
    exact hI.applyRelation hf hl hr

/-- A side of a comparison that can be taken is a frame in which its condition holds. -/
theorem follow_keeps (hI : Frame.Invariant c.scope U A I) (hnull : U .null) (hf : I f) {kind : RelationKind}
    {negated : Bool} {l r left right : Value} {equal : Bool} (hl : U l) (hr : U r) (hleft : U left) (hright : U right)
    {result : Frame × List Value}
    (hresult : follow c f (.relation kind negated l r) equal left right = some result) : I result.1 := by
  have hcondition : I (f.applyCondition c.scope (.relation kind negated l r)).frame := hI.applyRelation hf hl hr
  unfold follow at hresult
  simp only at hresult
  split at hresult
  · rw [Option.some.injEq] at hresult
    subst hresult
    split
    · exact shareNotNull_keeps hI hnull hcondition hleft hright
    · exact hcondition
  · cases hresult

/-- Each side of a fork pushes its truth value on a frame that was followed. -/
theorem fork_keeps (hI : Frame.Invariant c.scope U A I) (hS : c.Supplies i g U) (hf : I f) {operator : BinaryOperator}
    {left right relation : Value} {negated : Bool} (hleft : U left) (hright : U right)
    (hrelation : left.compare? right operator negated = some relation)
    (hq : q ∈ (fork c i operator f left right relation).next) : I q.frame := by
  obtain ⟨kind, n, l, r, rfl, hl, hr⟩ := operands_of_compare? hrelation hleft hright
  simp only [fork, List.mem_append, Option.mem_toList, Option.map_eq_some_iff] at hq
  rcases hq with ⟨result, hresult, rfl⟩ | ⟨result, hresult, rfl⟩
  · exact hI.push (follow_keeps hI hS.null hf hl hr hleft hright hresult) (hS.boolean true)
  · exact hI.push (follow_keeps hI hS.null hf hl hr hleft hright hresult) (hS.boolean false)

/-- An operator pops its sides and pushes a constant, a truth value by comparison, a string or what is unknown. -/
theorem binop_keeps (hI : Frame.Invariant c.scope U A I) (hS : c.Supplies i g U) (hf : I f)
    {operator : Option BinaryOperator} (hoperation : i.operation = .binop operator)
    (hq : q ∈ (binop c i operator f).next) : I q.frame := by
  obtain ⟨hright, hpop⟩ := hI.pop hf
  obtain ⟨hleft, hrest⟩ := hI.pop hpop
  have hunknown : I (f.pop.2.pop.2.push .unknown) := hI.push hrest hS.unknown
  unfold binop at hq
  simp only at hq
  split at hq
  · -- no operator
    exact keeps_of_mem_advance hunknown hq
  · split at hq
    · -- both sides are constants
      exact keeps_of_mem_advance (hI.push hrest (hS.boolean _)) hq
    · split at hq
      · rename_i relation hrelation
        exact fork_keeps hI hS hrest hleft hright hrelation hq
      · split at hq
        · exact keeps_of_mem_advance (hI.push hrest (hS.string hoperation)) hq
        · exact keeps_of_mem_advance hunknown hq
        · exact keeps_of_mem_advance hunknown hq

/-- A jump on a condition applies it on the one side and its negation on the other. -/
theorem conditionalGoto_keeps (hI : Frame.Invariant c.scope U A I) (hS : c.Supplies i g U) (hf : I f) {target : Nat}
    {negated : Bool} (hq : q ∈ (conditionalGoto c i target negated f).next) : I q.frame := by
  obtain ⟨htop, hpop⟩ := hI.pop hf
  unfold conditionalGoto at hq
  simp only at hq
  split at hq
  · rw [show q = _ from List.mem_singleton.mp hq]
    exact hpop
  · rename_i kind n left right hcondition
    obtain ⟨hl, hr⟩ := hS.operands (hcondition ▸ htop)
    rw [hcondition] at hq
    simp only [goOn, List.mem_append, List.mem_ite_nil_right, List.mem_singleton] at hq
    cases negated <;> rcases hq with ⟨_, rfl⟩ | ⟨_, rfl⟩ <;> exact hI.applyRelation hpop hl hr
  · rcases List.mem_pair.mp hq with rfl | rfl
    · exact hpop
    · exact hpop

end Visit

/-- **A visit keeps what the operations on frames keep,** if what it puts into frames is of the kind that they work on. -/
theorem visit_keeps_of_supplies {c : Context} {U : Value → Prop} {A : VariableId → Prop} {I : Frame → Prop}
    (hI : Frame.Invariant c.scope U A I) {i : Instruction} {f : Frame} (hS : c.Supplies i f U) (hf : I f)
    (ha : ∀ id, c.Changes i f id → A id) {q : Successor} (hq : q ∈ (visit c i f).next) : I q.frame := by
  have hrebound : ∀ d ∈ (visit c i f).defects, ∀ depth, d.depth? i.operation.arguments = some depth →
      Visit.MayRebind c U A (f.operand depth) :=
    fun d hd depth hdepth id hid => ⟨ha id (.rebound hd hdepth hid), hS.rebound hd hdepth hid⟩
  -- one case for each operation
  cases hoperation : i.operation with
  | push operand =>
    simp only [visit, hoperation] at hq
    exact Visit.keeps_of_mem_advance (hI.push hf (hS.push hoperation)) hq
  | pop =>
    simp only [visit, hoperation] at hq
    exact Visit.keeps_of_mem_advance (hI.pop hf).2 hq
  | dup =>
    simp only [visit, hoperation] at hq
    have htop : f.peek?.getD .unknown = f.pop.1 := List.headD_eq_head?_getD.symm
    exact Visit.keeps_of_mem_advance (hI.push hf (htop ▸ (hI.pop hf).1)) hq
  | assign =>
    simp only [visit, hoperation] at hq
    exact Visit.assign_keeps hI hf (fun id hid => ha id (.assigned hoperation hid)) hq
  | checkReturnValue =>
    simp only [visit, hoperation] at hq
    exact Visit.keeps_of_mem_advance (hI.pop hf).2 hq
  | fieldReference physical =>
    obtain ⟨hqualifier, hpop⟩ := hI.pop (hI.referenceField hf)
    cases physical with
    | true =>
      simp only [visit, hoperation] at hq hrebound
      refine Visit.keeps_of_mem_advance (Visit.demandNotNull_keeps hI (k := .clean _) hpop hqualifier
        fun hd id hid => ?_) hq
      refine hrebound _ hd 0 rfl id ?_
      rwa [Frame.operand_zero]
    | false =>
      simp only [visit, hoperation] at hq
      exact Visit.keeps_of_mem_advance hpop hq
  | typeCast cast =>
    simp only [visit, hoperation] at hq
    exact Visit.typeCast_keeps hI hf (fun operand => hS.cast hoperation) (hS.unbox hoperation) hq
  | methodCall call =>
    simp only [visit, hoperation] at hq hrebound
    exact Visit.methodCall_keeps hI hf (hS.result hoperation)
      (fun hflush id hid => ha id (.flushedField hoperation hflush hid)) hrebound hq
  | binop operator =>
    simp only [visit, hoperation] at hq
    exact Visit.binop_keeps hI hS hf hoperation hq
  | goto target =>
    simp only [visit, hoperation] at hq
    rw [show q = _ from List.mem_singleton.mp hq]
    exact hf
  | conditionalGoto target negated =>
    simp only [visit, hoperation] at hq
    exact Visit.conditionalGoto_keeps hI hS hf hq
  | flushVariable id =>
    simp only [visit, hoperation] at hq
    exact Visit.keeps_of_mem_advance (hI.flushVariable hf (ha id (.flushed hoperation))) hq
  | leave =>
    simp only [visit, hoperation] at hq
    cases hq

/-- The values on the stack are of the kind. -/
theorem Frame.Invariant.operand {s : Scope} {U : Value → Prop} {A : VariableId → Prop} {I : Frame → Prop}
    (hI : Frame.Invariant s U A I) {f : Frame} (hf : I f) (depth : Nat) : U (f.operand depth) := by
  induction depth generalizing f with
  | zero => exact f.operand_zero ▸ (hI.pop hf).1
  | succ depth ih =>
    rw [Nat.add_comm, ← Frame.operand_of_drop (g := f.pop.2) List.drop_one.symm]
    exact ih (hI.pop hf).2

/-- **A visit keeps what the operations on frames keep,** if they work on a closed kind of values. -/
theorem visit_keeps {c : Context} {U : Value → Prop} {A : VariableId → Prop} {I : Frame → Prop}
    (hI : Frame.Invariant c.scope U A I) (hU : c.IsClosed U) {i : Instruction} (hi : i ∈ c.procedure.instructions)
    {f : Frame} (hf : I f) (ha : ∀ id, c.Changes i f id → A id) {q : Successor} (hq : q ∈ (visit c i f).next) :
    I q.frame :=
  visit_keeps_of_supplies hI (hU.supplies hi (hI.operand hf)) hf ha hq

namespace Context

variable {c : Context} {U : Value → Prop} {I : Frame → Prop}

/-- What the variables are assigned at entry, and the variables themselves, are all that comes up there. -/
theorem enter_keeps (hI : Frame.Invariant c.scope U (fun _ => True) I) {f : Frame} (hf : I f) {id : VariableId}
    {vs : List VariableDecl} (hbuilt : ∀ v ∈ (c.enter id f vs).2, U v) : I (c.enter id f vs).1 := by
  induction vs generalizing id f with
  | nil => exact hf
  | cons v vs ih =>
    rw [enter] at hbuilt ⊢
    split at hbuilt
    · exact ih hf hbuilt
    · rename_i value hvalue
      simp only [List.forall_mem_cons] at hbuilt
      exact ih (hI.assign hf hbuilt.2.1 hbuilt.1 fun _ _ => trivial) hbuilt.2.2

/-- The induction is on the variables that are left, whose numbers go on from `id`. -/
theorem IsClosed.enter_built (hU : c.IsClosed U) (f : Frame) {id : VariableId} {vs : List VariableDecl}
    (hvs : vs = c.procedure.vars.drop id) : ∀ v ∈ (c.enter id f vs).2, U v := by
  induction vs generalizing id f with
  | nil => simp [enter]
  | cons v vs ih =>
    have hat : c.procedure.vars[id]? = some v := by
      rw [← List.head?_drop, ← hvs]
      rfl
    have hrest : vs = c.procedure.vars.drop (id + 1) := by rw [← List.tail_drop, ← hvs, List.tail_cons]
    rw [enter]
    split
    · exact ih f hrest
    · rename_i value hvalue
      have hlt : id < c.scope.vars.length := (List.getElem?_eq_some_iff.mp hat).1
      have htarget : U (c.scope.variableValue id false) := by
        unfold Scope.variableValue
        rw [if_pos hlt]
        exact hU.declared hlt
      simp only [List.forall_mem_cons]
      exact ⟨hU.entry (List.mem_of_getElem? hat) hvalue, htarget, ih _ hrest⟩

/-- **A run keeps what the operations on frames keep.** -/
theorem Reaches.keeps (hI : Frame.Invariant c.scope U (fun _ => True) I) (hU : c.IsClosed U) (hempty : I .empty)
    {p : Successor} (h : c.Reaches p) : I p.frame := by
  induction h with
  | refl => exact enter_keeps hI hempty (hU.enter_built .empty rfl)
  | tail _ hnext ih =>
    obtain ⟨i, hi, hq⟩ := hnext
    exact visit_keeps hI hU (List.mem_of_getElem? hi) ih (fun _ _ => trivial) hq

end Context

end NullCheck
