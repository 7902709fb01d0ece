import NullCheck.Proofs.State.Consistency
import NullCheck.Proofs.Survey.Agreement
import NullCheck.Proofs.Visit.Check

/-!
# What visits build

A visit names all values by their numbers in the table, also those that it builds itself. They are made of values that
stood in the frame, or are built along with them. So a closed table stays closed when the values are added that a visit
has built, and it then has all that the visit puts into frames.

* **`Visit.Checks.rebound`**: of each variable that is rebound the new value is built.
* **`visit_parts`**: what a visit builds is made of what it found or built.
* **`ValueTable.Closed.visit`**, **`ValueTable.Closed.supplies`**: the headlines.
-/

namespace NullCheck

namespace ValueTable

variable {t : ValueTable} {vs : List Value} {v : Value}

theorem numbers_insertAll : (t.insertAll vs).Numbers v ↔ v ∈ vs ∨ t.Numbers v := by
  rw [numbers_iff, numbers_iff, mem_insertAll]

/-- Values may be added together whose parts are among them or there already. -/
theorem Closed.insertAll (ht : t.Closed) (hvs : ∀ v ∈ vs, ∀ w ∈ v.parts, w ∈ vs ∨ t.Numbers w) :
    (t.insertAll vs).Closed where
  initial v hv := numbers_insertAll.mpr (Or.inr (ht.initial v hv))
  parts v hv w hw := by
    rcases numbers_insertAll.mp hv with hv | hv
    · exact numbers_insertAll.mpr (hvs v hv w hw)
    · exact numbers_insertAll.mpr (Or.inr (ht.parts v hv w hw))

end ValueTable

/-! ## Parts -/

namespace Value

variable {t : ValueTable} {left right relation v w : Value}

@[simp] theorem parts_negate (v : Value) : v.negate.parts = v.parts := by
  cases v with
  | constant k => cases k <;> rfl
  | _ => rfl

/-- A comparison is made of what is compared. -/
theorem parts_of_compare? {operator : BinaryOperator} {negated : Bool}
    (h : left.compare? right operator negated = some relation) : ∀ w ∈ relation.parts, w = left ∨ w = right := by
  obtain ⟨kind, flip, -, rfl | ⟨-, rfl⟩⟩ := exists_of_compare? h
  · simp [parts]
  · simp [parts, or_comm]

/-- Unboxing gives a part, or a new value made of what was there. -/
theorem parts_unbox (ht : t.Closed) (hv : t.Numbers v) : ∀ w ∈ v.unbox.parts, t.Numbers w := by
  intro w hw
  cases v with
  | boxed u =>
    have hu : t.Numbers u := ht.parts _ hv u (by simp [parts])
    exact ht.parts u hu w hw
  | var id viaMethods =>
    obtain rfl : w = .var id viaMethods := List.mem_singleton.mp hw
    exact hv
  | _ => cases hw

/-- Boxing gives a part of what was unboxed, or a new value made of what was there. -/
theorem parts_of_box? (ht : t.Closed) (hv : t.Numbers v) (hbox : v.box? = some w) : ∀ u ∈ w.parts, t.Numbers u := by
  intro u hu
  cases v with
  | unboxed x =>
    -- boxing what was unboxed gives back the wrapper, whose parts are there
    obtain rfl : x = w := Option.some.inj hbox
    have hx : t.Numbers x := ht.parts _ hv x (by simp [parts])
    exact ht.parts x hx u hu
  | var id viaMethods =>
    obtain rfl : Value.boxed (.var id viaMethods) = w := Option.some.inj hbox
    exact List.mem_singleton.mp hu ▸ hv
  | constant k =>
    simp only [box?] at hbox
    split at hbox
    · cases hbox
    · obtain rfl : Value.boxed (.constant k) = w := Option.some.inj hbox
      exact List.mem_singleton.mp hu ▸ hv
  | _ => cases hbox

end Value

theorem Scope.parts_valueOf (s : Scope) (operand : Operand) : (s.valueOf operand).parts = [] := by
  cases operand with
  | var id viaMethods =>
    simp only [valueOf, variableValue]
    split <;> rfl
  | _ => rfl

/-- A call gives a type, a value made from its qualifier, or what its qualifier is. -/
theorem Context.parts_resultValue {c : Context} {t : ValueTable} (ht : t.Closed) (call : MethodCall) {v : Value}
    (hv : t.Numbers v) : ∀ w ∈ (c.resultValue call v).parts, t.Numbers w := by
  unfold resultValue
  split
  · simp [Value.parts]
  · split <;> simp [Value.parts]
  · split
    · exact Value.parts_unbox ht hv
    · cases hbox : v.box? with
      | none => simp [Value.parts]
      | some w => exact Value.parts_of_box? ht hv hbox
    · split
      · simp [Value.parts]
      · exact ht.parts v hv
    · simp [Value.parts]

namespace Visit

variable {c : Context} {f g : Frame} {i : Instruction} {t : ValueTable} {n : Nat}

/-! ## Variables that are rebound -/

theorem parts_rebindNotNull (v : Value) : ∀ w ∈ (rebindNotNull c g v).2, w.parts = [] := by
  unfold rebindNotNull
  split <;> simp [Value.parts]

namespace Checks

variable {k : Checked}

/-- Of each variable for which there is a defect the value is built to which it is rebound. -/
theorem rebound (h : Checks c f n k) :
    ∀ d ∈ k.defects, ∀ depth, d.depth? n = some depth → ∀ id, (f.operand depth).varId? = some id →
      .notNull (c.scope.variableType id) ∈ k.built := by
  induction h with
  | start | field => exact fun d hd => by cases hd
  | pop _ ih => exact ih
  | @demand k v d _ hsubject ih =>
    unfold Visit.demandNotNull
    simp only
    split
    · exact ih
    · intro e he depth hdepth id hid
      rcases List.mem_append.mp he with he | he
      · exact List.mem_append_left _ (ih e he depth hdepth id hid)
      · rw [List.mem_singleton] at he
        subst he
        rw [hsubject depth (Defect.subject?_of_depth? hdepth)] at hid
        refine List.mem_append_right _ ?_
        simp only [rebindNotNull, hid]
        exact List.mem_singleton_self _
  | @warn k v d _ _ hdepth _ ih =>
    intro e he depth hdepth' id hid
    rcases List.mem_append.mp he with he | he
    · exact ih e he depth hdepth' id hid
    · -- for a warning nothing is rebound
      rw [List.mem_singleton.mp he, hdepth] at hdepth'
      cases hdepth'

/-- Nothing else is built. -/
theorem parts (h : Checks c f n k) : ∀ v ∈ k.built, v.parts = [] := by
  induction h with
  | start | field => exact fun v hv => by cases hv
  | pop _ ih | warn _ _ _ _ ih => exact ih
  | @demand k v d _ _ ih =>
    unfold Visit.demandNotNull
    simp only
    split
    · exact ih
    · intro w hw
      rcases List.mem_append.mp hw with hw | hw
      · exact ih w hw
      · exact parts_rebindNotNull v w hw

end Checks

theorem built_methodCall (call : MethodCall) : (methodCall c i call f).built =
    (checkCall c call f).built ++ [c.resultValue call (f.operand call.arguments.length)] := by
  rw [← pop_takeArguments (c := c) (c.argumentNullness call)]
  rfl

/-! ## Instructions -/

/-- A cast builds what its check does, and the unboxed operand if it is to a primitive type. -/
theorem built_typeCast (cast : TypeCast) : (typeCast c i cast f).built =
    (checkCast c cast f).built ++ if cast.target.isPrimitive then [(f.operand 0).unbox] else [] := by
  unfold typeCast
  simp only
  split
  · rw [pop_checkCast]
  · exact (List.append_nil _).symm

/-- The check of a cast builds both sides of its condition. -/
theorem mem_built_checkCast {cast : TypeCast} {operand : Operand} (hcasted : cast.casted = some operand) :
    c.scope.valueOf operand ∈ (checkCast c cast f).built ∧
      .typed cast.target .unknown ∈ (checkCast c cast f).built := by
  unfold checkCast
  rw [hcasted]
  simp only
  split <;> simp

/-- So the parts of the condition, if there is one, are built with it. -/
theorem parts_checkCast (cast : TypeCast) :
    ∀ v ∈ (checkCast c cast f).built, ∀ w ∈ v.parts, w ∈ (checkCast c cast f).built := by
  cases hcasted : cast.casted with
  | none =>
    unfold checkCast
    rw [hcasted]
    simp [Checked.clean]
  | some operand =>
    intro v hv w hw
    obtain ⟨hvalue, htype⟩ := mem_built_checkCast (c := c) (f := f) hcasted
    -- three values are built: the two sides, and the condition if they can be compared
    have hcases : v = c.scope.valueOf operand ∨ v = .typed cast.target .unknown ∨
        (c.scope.valueOf operand).compare? (.typed cast.target .unknown) .instanceOf false = some v := by
      unfold checkCast at hv
      rw [hcasted] at hv
      simp only at hv
      split at hv
      · simp only [List.mem_cons, List.not_mem_nil, or_false] at hv
        exact hv.imp_right Or.inl
      · rename_i condition hcondition
        simp only [List.mem_cons, List.not_mem_nil, or_false] at hv
        rcases hv with hv | hv | rfl
        · exact Or.inl hv
        · exact Or.inr (Or.inl hv)
        · exact Or.inr (Or.inr hcondition)
    rcases hcases with rfl | rfl | hcompare
    · rw [c.scope.parts_valueOf] at hw
      cases hw
    · cases hw
    · rcases Value.parts_of_compare? hcompare w hw with rfl | rfl
      · exact hvalue
      · exact htype

/-- What is shared is a condition over one of the two sides and `null`. -/
theorem parts_shareNotNull (ht : t.Closed) {left right : Value} (hleft : t.Numbers left) (hright : t.Numbers right) :
    ∀ v ∈ (shareNotNull c f left right).2, ∀ w ∈ v.parts, t.Numbers w := by
  obtain heq | ⟨other, condition, hother, hcompare, heq⟩ := shareNotNull_cases c f left right
  · rw [heq]
    simp
  · intro v hv w hw
    rw [heq] at hv
    obtain rfl : v = condition := List.mem_singleton.mp hv
    rcases Value.parts_of_compare? hcompare w hw with rfl | rfl
    · rcases hother with rfl | rfl
      · exact hleft
      · exact hright
    · exact ht.null

/-- A side that is followed builds what is shared, and nothing more. -/
theorem parts_follow (ht : t.Closed) {condition left right : Value} {equal : Bool} (hleft : t.Numbers left)
    (hright : t.Numbers right) :
    ∀ v ∈ ((follow c f condition equal left right).map Prod.snd).getD [], ∀ w ∈ v.parts, t.Numbers w := by
  unfold follow
  simp only
  split
  · split
    · exact parts_shareNotNull ht hleft hright
    · simp
  · simp

/-- A fork builds its condition and what its sides share. -/
theorem parts_fork (ht : t.Closed) {operator : BinaryOperator} {left right relation : Value} (hleft : t.Numbers left)
    (hright : t.Numbers right) (hrelation : ∀ w ∈ relation.parts, t.Numbers w) :
    ∀ v ∈ (fork c i operator f left right relation).built, ∀ w ∈ v.parts, t.Numbers w := by
  intro v hv
  simp only [fork, List.mem_append, List.mem_cons, List.not_mem_nil, or_false] at hv
  rcases hv with ((rfl | rfl) | hyes) | hno
  · exact hrelation
  · rw [Value.parts_negate]
    exact hrelation
  · exact parts_follow ht hleft hright v hyes
  · exact parts_follow ht hleft hright v hno

/-- One case for each thing that an operator can push. -/
theorem parts_binop (ht : t.Closed) {operator : Option BinaryOperator} (hright : t.Numbers (f.operand 0))
    (hleft : t.Numbers (f.operand 1)) : ∀ v ∈ (binop c i operator f).built, ∀ w ∈ v.parts, t.Numbers w := by
  rw [Frame.operand_zero] at hright
  rw [Frame.operand_one] at hleft
  unfold binop
  simp only
  split
  · simp [advance, goOn]
  · split
    · simp [compareConstants, advance, goOn]
    · split
      · rename_i relation hrelation
        refine parts_fork ht hleft hright fun w hw => ?_
        rcases Value.parts_of_compare? hrelation w hw with rfl | rfl
        · exact hleft
        · exact hright
      · split <;> simp [advance, goOn, Value.parts]

/-- A jump on a condition builds its negation, which has the same parts. -/
theorem parts_conditionalGoto (ht : t.Closed) {target : Nat} {negated : Bool} (htop : t.Numbers (f.operand 0)) :
    ∀ v ∈ (conditionalGoto c i target negated f).built, ∀ w ∈ v.parts, t.Numbers w := by
  rw [Frame.operand_zero] at htop
  unfold conditionalGoto
  simp only
  split
  · simp [goOn]
  · intro v hv
    -- a condition and its opposite have the same parts
    have hparts : v.parts = f.pop.1.parts := by
      simp only [List.mem_cons, List.not_mem_nil, or_false] at hv
      rcases hv with rfl | rfl
      · split
        · exact Value.parts_negate _
        · rfl
      · rw [Value.parts_negate]
        split
        · exact Value.parts_negate _
        · rfl
    rw [hparts]
    exact ht.parts _ htop
  · simp [goOn]

theorem built_assign : (assign c i f).built = [] := by
  unfold assign
  simp only
  split <;> rfl

/-- Where the checks of a visit find a defect, the visit builds what they built. -/
theorem built_checked {d : Defect} (hd : d ∈ (checked c i f).defects) {v : Value} (hv : v ∈ (checked c i f).built) :
    v ∈ (visit c i f).built := by
  unfold checked at hd hv
  split at hd
  · rename_i hoperation
    simp only [visit, hoperation, if_true] at hv ⊢
    exact hv
  · rename_i call hoperation
    simp only [visit, hoperation, built_methodCall] at hv ⊢
    exact List.mem_append_left _ hv
  · rename_i hoperation
    simp only [hoperation, Checked.clean] at hv
    cases hv
  · cases hd

end Visit

/-- **What a visit builds is made of what it found or built.** -/
theorem visit_parts {c : Context} {i : Instruction} {f : Frame} {t : ValueTable} (ht : t.Closed)
    (hf : ∀ depth, t.Numbers (f.operand depth)) :
    ∀ v ∈ (visit c i f).built, ∀ w ∈ v.parts, w ∈ (visit c i f).built ∨ t.Numbers w := by
  intro v hv w hw
  -- one case for each operation that builds anything; the others come last
  cases hoperation : i.operation with
  | push operand =>
    simp only [visit, hoperation, List.mem_singleton] at hv
    subst hv
    rw [c.scope.parts_valueOf] at hw
    cases hw
  | fieldReference physical =>
    cases physical with
    | true =>
      simp only [visit, hoperation, if_true] at hv
      rw [(Visit.checks_checked (c := c) (i := i)).parts v (by simpa only [Visit.checked, hoperation] using hv)] at hw
      cases hw
    | false =>
      simp only [visit, hoperation] at hv
      cases hv
  | typeCast cast =>
    have hbuilt : (visit c i f).built = (Visit.typeCast c i cast f).built := by simp only [visit, hoperation]
    rw [hbuilt, Visit.built_typeCast] at hv ⊢
    rcases List.mem_append.mp hv with hv | hv
    · exact Or.inl (List.mem_append_left _ (Visit.parts_checkCast cast v hv w hw))
    · split at hv
      · obtain rfl : v = (f.operand 0).unbox := List.mem_singleton.mp hv
        exact Or.inr (Value.parts_unbox ht (hf 0) w hw)
      · cases hv
  | methodCall call =>
    have hbuilt : (visit c i f).built = (Visit.methodCall c i call f).built := by simp only [visit, hoperation]
    rw [hbuilt, Visit.built_methodCall] at hv
    rcases List.mem_append.mp hv with hv | hv
    · rw [(Visit.checks_checkCall call).parts v hv] at hw
      cases hw
    · obtain rfl : v = c.resultValue call (f.operand call.arguments.length) := List.mem_singleton.mp hv
      exact Or.inr (Context.parts_resultValue ht call (hf _) w hw)
  | binop operator =>
    simp only [visit, hoperation] at hv
    exact Or.inr (Visit.parts_binop ht (hf 0) (hf 1) v hv w hw)
  | conditionalGoto target negated =>
    simp only [visit, hoperation] at hv
    exact Or.inr (Visit.parts_conditionalGoto ht (hf 0) v hv w hw)
  | assign =>
    simp only [visit, hoperation, Visit.built_assign] at hv
    cases hv
  | pop | dup | checkReturnValue | goto target | flushVariable id | leave =>
    simp only [visit, hoperation] at hv
    cases hv

/-- **Of each variable that a visit rebinds it builds the new value.** -/
theorem visit_rebound {c : Context} {i : Instruction} {f : Frame} {d : Defect} {depth : Nat} {id : VariableId}
    (hd : d ∈ (visit c i f).defects) (hdepth : d.depth? i.operation.arguments = some depth)
    (hid : (f.operand depth).varId? = some id) : .notNull (c.scope.variableType id) ∈ (visit c i f).built := by
  have hfound := Visit.mem_defects_checked hd (Defect.subject?_of_depth? hdepth)
  exact Visit.built_checked hfound (Visit.checks_checked.rebound d hfound depth hdepth id hid)

namespace ValueTable.Closed

variable {c : Context} {i : Instruction} {f : Frame} {t : ValueTable}

/-- **A closed table stays closed** when the values are added that a visit has built. -/
theorem visit (ht : t.Closed) (hf : ∀ depth, t.Numbers (f.operand depth)) :
    (t.insertAll (NullCheck.visit c i f).built).Closed :=
  ht.insertAll (visit_parts ht hf)

/-- **It then has all that the visit puts into frames.** -/
theorem supplies (ht : t.Closed) (hf : ∀ depth, t.Numbers (f.operand depth)) :
    c.Supplies i f (t.insertAll (NullCheck.visit c i f).built).Numbers := by
  have hclosed : (t.insertAll (NullCheck.visit c i f).built).Closed := ht.visit hf
  have hbuilt : ∀ v ∈ (NullCheck.visit c i f).built, (t.insertAll (NullCheck.visit c i f).built).Numbers v :=
    fun v hv => numbers_insertAll.mpr (Or.inl hv)
  refine
    { unknown := hclosed.unknown
      null := hclosed.null
      boolean := hclosed.boolean
      operands := fun {kind negated left right} h => ?_
      string := fun hoperation => hbuilt _ ?_
      push := fun {operand} hoperation => hbuilt _ ?_
      cast := fun {cast operand} hoperation hcasted => ?_
      unbox := fun {cast} hoperation hprimitive => hbuilt _ ?_
      result := fun {call} hoperation => hbuilt _ ?_
      rebound := fun hd hdepth hid => hbuilt _ (visit_rebound hd hdepth hid) }
  · have hparts := hclosed.parts _ h
    exact ⟨hparts left (by simp [Value.parts]), hparts right (by simp [Value.parts])⟩
  · -- a sum is no comparison
    simp [NullCheck.visit, hoperation, Visit.binop, Value.compare?, Value.canonical?]
  · simp [NullCheck.visit, hoperation]
  · have hchecked : ∀ v ∈ (Visit.checkCast c cast f).built, v ∈ (NullCheck.visit c i f).built := by
      intro v hv
      simp only [NullCheck.visit, hoperation, Visit.built_typeCast]
      exact List.mem_append_left _ hv
    obtain ⟨hvalue, htype⟩ := Visit.mem_built_checkCast (c := c) (f := f) hcasted
    exact ⟨hbuilt _ (hchecked _ htype), hbuilt _ (hchecked _ hvalue)⟩
  · simp [NullCheck.visit, hoperation, Visit.built_typeCast, hprimitive]
  · simp [NullCheck.visit, hoperation, Visit.built_methodCall]

end ValueTable.Closed

end NullCheck
