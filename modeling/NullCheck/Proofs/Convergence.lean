import NullCheck.Proofs.State.Vocabulary
import NullCheck.Proofs.Visit.Invariant

/-!
# Explorations converge

All values that come up in a run are made of the variables, the constants and the types that the procedure mentions:
they are boxed and unboxed, but nothing is boxed twice, and a cast of a constant is cast no further. So there are
finitely many of them, and finitely many frames as long as the operand stack does not grow without bound. A loop that
leaves the stack as high as it found it comes back to a frame that was visited before, and the exploration ends.

## The architecture

* **`Context.Expressible`**: the values that a procedure can express.
* **`Context.isClosed_expressible`**: no others come up, one field for each way in which values come up.
* **`Context.Reaches.frame_over`**: by the invariant of visits, all frames in a run are over that vocabulary.
* **`Context.analyze_converges`**: the headline.
-/

namespace NullCheck

/-! ## Frames over a vocabulary -/

/-- To be over a finite vocabulary is kept by all operations that work on its values. -/
theorem Frame.over_invariant (s : Scope) {U : Set Value} (hU : U.Finite) (hunknown : .unknown ∈ U) (hnull : .null ∈ U) :
    Frame.Invariant s (· ∈ U) (fun _ => True) (Frame.Over s U) where
  push hf hv := hf.push hv
  pop hf := ⟨hf.pop_mem hunknown, hf.pop⟩
  referenceField hf := hf.referenceField
  assign hf ht hv _ := hf.assign hU hnull ht hv
  flushVariable hf _ := hf.flushVariable _
  applyRelation hf hl hr := hf.applyRelation hU hnull hl hr
  applyNotNull hf hv := hf.applyNotNull hU hnull hv
  applyCast hf hl hr := hf.applyCast hl hr

/-! ## What a procedure mentions -/

namespace Operand

def types : Operand → List JvmType
  | .typed type _ | .notNull type => [type]
  | _ => []

def constants : Operand → List Constant
  | .constant k => [k]
  | _ => []

end Operand

namespace Operation

/-- The types that an operation mentions. -/
def types : Operation → List JvmType
  | .push operand => operand.types
  | .typeCast cast => cast.target :: cast.casted.toList.flatMap Operand.types
  | .methodCall call => call.resultType.toList
  | _ => []

/-- The constants that an operation mentions. -/
def constants : Operation → List Constant
  | .push operand => operand.constants
  | .typeCast cast => cast.casted.toList.flatMap Operand.constants
  | .methodCall call => call.precalculated.toList
  | _ => []

end Operation

/-- To cast a constant again changes nothing. -/
@[simp] theorem Constant.castToIntegral_castToIntegral (k : Constant) :
    k.castToIntegral.castToIntegral = k.castToIntegral := by
  cases h : k.binary?.bind (BinaryNumber.clampedInteger? Codec.integerLow Codec.integerHigh) with
  | none =>
    have hk : k.castToIntegral = k := by simp only [castToIntegral, h]
    rw [hk, hk]
  | some i =>
    have hk : k.castToIntegral = .integer i := by simp only [castToIntegral, h]
    rw [hk]
    rfl

namespace Context

variable (c : Context)

/-- The types that a procedure mentions, and that of strings, which concatenations have. -/
def types : List JvmType :=
  .string :: c.procedure.vars.map VariableDecl.type ++ c.procedure.instructions.flatMap fun i => i.operation.types

/-- The constants that a procedure mentions, and those that comparisons come to. -/
def constants : List Constant :=
  .null :: .boolean true :: .boolean false :: c.procedure.instructions.flatMap fun i => i.operation.constants

/-- A variable or a constant that a procedure mentions, or what a cast makes of the constant. -/
inductive IsPlain : Value → Prop
  | var {id : VariableId} (viaMethods : Bool) (h : id < c.procedure.vars.length) : IsPlain (.var id viaMethods)
  | constant {k : Constant} (h : k ∈ c.constants) : IsPlain (.constant k)
  | cast {k : Constant} (h : k ∈ c.constants) : IsPlain (.constant k.castToIntegral)

/-- A value that the procedure can express. -/
inductive Expressible : Value → Prop
  | unknown : Expressible .unknown
  | plain {v : Value} (h : c.IsPlain v) : Expressible v
  | boxed {v : Value} (h : c.IsPlain v) : Expressible (.boxed v)
  | unboxed {v : Value} (h : c.IsPlain v) : Expressible (.unboxed v)
  | typed {t : JvmType} (nullness : Nullness) (h : t ∈ c.types) : Expressible (.typed t nullness)
  | notNull {t : JvmType} (h : t ∈ c.types) : Expressible (.notNull t)

variable {c}

/-! ## The vocabulary is finite -/

/-- A procedure declares finitely many variables and mentions finitely many constants. -/
theorem finite_isPlain : {v | c.IsPlain v}.Finite := by
  let vars := (List.range c.procedure.vars.length).flatMap fun id => [Value.var id true, .var id false]
  let constants := c.constants.flatMap fun k => [Value.constant k, .constant k.castToIntegral]
  refine (List.finite_toSet (vars ++ constants)).subset fun v hv => ?_
  cases hv with
  | var viaMethods h => cases viaMethods <;> simp [vars, h]
  | constant h => exact List.mem_append_right _ (List.mem_flatMap.mpr ⟨_, h, by simp⟩)
  | cast h => exact List.mem_append_right _ (List.mem_flatMap.mpr ⟨_, h, by simp⟩)

/-- All else is made of these in one step, or of one of finitely many types. -/
theorem finite_expressible : {v | c.Expressible v}.Finite := by
  have htypes : {t | t ∈ c.types}.Finite := List.finite_toSet c.types
  -- there are three kinds of nullness
  have hnullness : (Set.univ : Set Nullness).Finite :=
    (List.finite_toSet [Nullness.unknown, .nonNull, .nullable]).subset fun n _ => by cases n <;> simp
  have hall := ((Set.finite_singleton Value.unknown).union (finite_isPlain (c := c))).union
    (((finite_isPlain (c := c)).image .boxed).union ((finite_isPlain (c := c)).image .unboxed)) |>.union
    (((htypes.prod hnullness).image fun e => Value.typed e.1 e.2).union (htypes.image .notNull))
  refine hall.subset fun v hv => ?_
  cases hv with
  | unknown => exact Or.inl (Or.inl (Or.inl rfl))
  | plain h => exact Or.inl (Or.inl (Or.inr h))
  | boxed h => exact Or.inl (Or.inr (Or.inl ⟨_, h, rfl⟩))
  | unboxed h => exact Or.inl (Or.inr (Or.inr ⟨_, h, rfl⟩))
  | typed nullness h => exact Or.inr (Or.inl ⟨(_, nullness), ⟨h, Set.mem_univ _⟩, rfl⟩)
  | notNull h => exact Or.inr (Or.inr ⟨_, h, rfl⟩)

/-! ## The vocabulary is closed -/

/-- The types of an instruction are types of the procedure. -/
theorem type_mem_of_operation {i : Instruction} (hi : i ∈ c.procedure.instructions) {t : JvmType}
    (ht : t ∈ i.operation.types) : t ∈ c.types :=
  List.mem_append_right _ (List.mem_flatMap.mpr ⟨i, hi, ht⟩)

theorem constant_mem_of_operation {i : Instruction} (hi : i ∈ c.procedure.instructions) {k : Constant}
    (hk : k ∈ i.operation.constants) : k ∈ c.constants := by
  have hmem : k ∈ c.procedure.instructions.flatMap fun i => i.operation.constants :=
    List.mem_flatMap.mpr ⟨i, hi, hk⟩
  exact List.mem_cons_of_mem _ (List.mem_cons_of_mem _ (List.mem_cons_of_mem _ hmem))

theorem type_mem_of_vars {v : VariableDecl} (hv : v ∈ c.procedure.vars) : v.type ∈ c.types :=
  List.mem_append_left _ (List.mem_cons_of_mem _ (List.mem_map_of_mem hv))

/-- An operand of the procedure has a value that can be expressed. -/
theorem Expressible.valueOf {operand : Operand} (htypes : ∀ t ∈ operand.types, t ∈ c.types)
    (hconstants : ∀ k ∈ operand.constants, k ∈ c.constants) : c.Expressible (c.scope.valueOf operand) := by
  cases operand with
  | var id viaMethods =>
    show c.Expressible (c.scope.variableValue id viaMethods)
    unfold Scope.variableValue
    split
    · rename_i hlt
      exact .plain (.var viaMethods hlt)
    · exact .unknown
  | constant k => exact .plain (.constant (hconstants k (List.mem_singleton_self k)))
  | typed t nullness => exact .typed nullness (htypes t (List.mem_singleton_self t))
  | notNull t => exact .notNull (htypes t (List.mem_singleton_self t))
  | unknown => exact .unknown

/-- Unboxing leads back to what was boxed, or to what a plain value can be unboxed to. -/
theorem Expressible.unbox {v : Value} (h : c.Expressible v) : c.Expressible v.unbox := by
  cases h with
  | plain h =>
    cases h with
    | var viaMethods h => exact .unboxed (.var viaMethods h)
    | constant h => exact .plain (.constant h)
    | cast h => exact .plain (.cast h)
  | boxed h => exact .plain h
  | _ => exact .unknown

/-- Boxing leads to a boxed plain value, or back to one that was unboxed. -/
theorem Expressible.box? {v w : Value} (h : c.Expressible v) (hw : v.box? = some w) : c.Expressible w := by
  cases h with
  | plain h =>
    have hboxed : w = .boxed v := by
      cases h <;> simp only [Value.box?] at hw
      · exact (Option.some.inj hw).symm
      all_goals
        split at hw
        · cases hw
        · exact (Option.some.inj hw).symm
    rw [hboxed]
    exact .boxed h
  | unboxed h => exact Option.some.inj hw ▸ .plain h
  | _ => cases hw

/-- The result of a call is a constant or a type of the call, or is made of its qualifier. -/
theorem Expressible.resultValue {i : Instruction} (hi : i ∈ c.procedure.instructions) {call : MethodCall}
    (hcall : i.operation = .methodCall call) {v : Value} (hv : c.Expressible v) : c.Expressible (c.resultValue call v) := by
  have htypes : ∀ t ∈ call.resultType.toList, t ∈ c.types := fun t ht =>
    type_mem_of_operation hi (hcall ▸ ht)
  have hconstants : ∀ k ∈ call.precalculated.toList, k ∈ c.constants := fun k hk =>
    constant_mem_of_operation hi (hcall ▸ hk)
  unfold Context.resultValue
  split
  · -- the result was worked out beforehand
    rename_i k hk
    exact .plain (.constant (hconstants k (Option.mem_toList.mpr hk)))
  · rename_i t _ ht
    have htype : t ∈ c.types := htypes t (Option.mem_toList.mpr (Option.filter_eq_some_iff.mp ht).1)
    split
    · exact .notNull htype
    · exact .typed _ htype
    · exact .typed _ htype
  · split
    · exact hv.unbox
    · cases hbox : v.box? with
      | none => exact .unknown
      | some w => exact hv.box? hbox
    · split
      · rename_i k
        cases hv with
        | plain h =>
          cases h with
          | constant h => exact .plain (.cast h)
          -- a cast of a cast is a cast, so the values do not grow
          | cast h =>
            rw [Constant.castToIntegral_castToIntegral]
            exact .plain (.cast h)
      · exact hv
    · exact .unknown

/-- **No other values come up.** -/
theorem isClosed_expressible (c : Context) : c.IsClosed c.Expressible where
  unknown := .unknown
  null := .plain (.constant (by simp [constants]))
  boolean b := .plain (.constant (by cases b <;> simp [constants]))
  string := .notNull (by simp [types])
  notNull h := by
    cases h with
    | plain h =>
      cases h with
      | var viaMethods h =>
        refine .notNull ?_
        unfold Scope.variableType
        rw [show c.scope.vars = c.procedure.vars from rfl, List.getElem?_eq_getElem h]
        exact type_mem_of_vars (List.getElem_mem h)
  unbox h := h.unbox
  operands h := by
    cases h with
    | plain h => cases h
  push hi hoperation := by
    refine .valueOf (fun t ht => type_mem_of_operation hi ?_) fun k hk => constant_mem_of_operation hi ?_
    · rw [hoperation]
      exact ht
    · rw [hoperation]
      exact hk
  cast {i cast} hi hoperation := by
    refine ⟨.typed _ (type_mem_of_operation hi ?_), fun operand hoperand => ?_⟩
    · rw [hoperation]
      exact List.mem_cons_self ..
    · refine .valueOf (fun t ht => type_mem_of_operation hi ?_) fun k hk => constant_mem_of_operation hi ?_
      · rw [hoperation]
        exact List.mem_cons_of_mem _ (List.mem_flatMap.mpr ⟨operand, Option.mem_toList.mpr hoperand, ht⟩)
      · rw [hoperation]
        exact List.mem_flatMap.mpr ⟨operand, Option.mem_toList.mpr hoperand, hk⟩
  result hi hoperation hv := hv.resultValue hi hoperation
  entry {decl value} hdecl hvalue := by
    have htype : decl.type ∈ c.types := type_mem_of_vars hdecl
    unfold VariableDecl.entryValue? at hvalue
    split at hvalue
    · split at hvalue
      · exact Option.some.inj hvalue ▸ .notNull htype
      · exact Option.some.inj hvalue ▸ .typed _ htype
      · cases hvalue
    · cases hvalue
  declared h := .plain (.var false h)

/-! ## Runs -/

variable (c) in
/-- So each operation of the procedure keeps frames over what can be expressed. -/
theorem over_invariant : Frame.Invariant c.scope c.Expressible (fun _ => True) (Frame.Over c.scope {v | c.Expressible v}) :=
  Frame.over_invariant c.scope finite_expressible Expressible.unknown (isClosed_expressible c).null

/-- **All frames in a run are over the vocabulary of the procedure.** -/
theorem Reaches.frame_over {p : Successor} (h : c.Reaches p) : p.frame.Over c.scope {v | c.Expressible v} :=
  h.keeps c.over_invariant c.isClosed_expressible (.empty _ _)

/-- A procedure whose stack stays below some height has finitely many states. -/
theorem finite_stateSpace {height : Nat} (hheight : ∀ p ∈ c.stateSpace, p.frame.stack.length ≤ height) :
    c.stateSpace.Finite := by
  have hframes := Frame.finite_over c.scope (finite_expressible (c := c)) height
  have hindices := Set.finite_lt_nat c.procedure.instructions.length
  refine ((hindices.prod hframes).image fun e => Successor.mk e.1 e.2).subset fun p hp => ?_
  exact ⟨(p.index, p.frame), ⟨hp.2, hp.1.frame_over, hheight p hp⟩, rfl⟩

/-- If there are finitely many states, then all pairs that come up are finitely many. -/
theorem finite_reaches (h : c.stateSpace.Finite) : {p | c.Reaches p}.Finite := by
  have hnexts : (⋃ p ∈ c.stateSpace, {q | q ∈ c.nexts p}).Finite := h.biUnion fun p _ => List.finite_toSet _
  refine ((Set.finite_singleton c.start).union hnexts).subset fun q hq => ?_
  -- the last step to a pair starts from a state
  rcases Relation.ReflTransGen.cases_tail hq with rfl | ⟨p, hp, hnext⟩
  · exact Or.inl rfl
  · exact Or.inr (Set.mem_biUnion ⟨hp, hnext.index_lt⟩ (mem_nexts.mpr hnext))

/-- **Explorations converge.** If no state of a procedure has more than `height` values on the stack, then only finitely
many pairs come up, and there is a budget that is enough for all of them: with this one and with every larger one the
exploration is complete, and the analysis is the same. -/
theorem analyze_converges (c : Context) (height : Nat)
    (hheight : ∀ p ∈ c.stateSpace, p.frame.stack.length ≤ height) :
    {p | c.Reaches p}.Finite ∧ ∃ enough, ∀ config : AnalysisConfig, ∀ budget, enough ≤ budget →
      (c.analyze { config with maxStates := budget }).exploration.complete = true ∧
      c.analyze { config with maxStates := budget } = c.analyze { config with maxStates := enough } := by
  have hfinite : c.stateSpace.Finite := finite_stateSpace hheight
  -- a budget of all states is enough, whatever the rest of the configuration
  have hcomplete : ∀ config : AnalysisConfig, c.stateSpace.ncard ≤ config.maxStates →
      (c.run config).complete = true := fun config hle => (run_complete_iff config).mpr ⟨hfinite, hle⟩
  refine ⟨finite_reaches hfinite, c.stateSpace.ncard, fun config budget hle => ?_⟩
  have henough := hcomplete { config with maxStates := c.stateSpace.ncard } le_rfl
  have hlarger := hcomplete { config with maxStates := budget } hle
  refine ⟨hlarger, ?_⟩
  have hrun := run_eq_of_complete henough hlarger
  unfold analyze
  rw [hrun]

/-- A procedure that assigns the result of a call to a variable until it is null. -/
def readingLoop : Procedure where
  name := "m"
  sourceFile := none
  vars := [⟨"x", .object, .local, false, []⟩]
  anchors := []
  instructions :=
    [⟨0, none, .push (.var 0 false)⟩,
     ⟨1, none, .push (.typed .object .nullable)⟩,
     ⟨2, none, .assign⟩,
     ⟨3, none, .push (.constant .null)⟩,
     ⟨4, none, .binop (some .ne)⟩,
     ⟨5, none, .conditionalGoto 0 false⟩,
     ⟨6, none, .leave⟩]

/-- The exploration of the loop ends: nothing new comes up once it was gone through twice. -/
theorem analyze_converges_for_reading_loop :
    let c : Context := ⟨readingLoop, .empty, AnalysisConfig.standard.resolver, .empty⟩
    (∀ p ∈ c.stateSpace, p.frame.stack.length ≤ 2) ∧ {p | c.Reaches p}.Finite ∧
      ∃ enough, ∀ config : AnalysisConfig, ∀ budget, enough ≤ budget →
        (c.analyze { config with maxStates := budget }).exploration.complete = true ∧
        c.analyze { config with maxStates := budget } = c.analyze { config with maxStates := enough } := by
  intro c
  -- the waves up to the tenth hold all that is reached
  let pairs := (List.range 11).flatMap c.wave
  have hclosed : c.start ∈ pairs ∧ (∀ p ∈ pairs, ∀ q ∈ c.nexts p, q ∈ pairs) ∧
      ∀ p ∈ pairs, p.frame.stack.length ≤ 2 := by decide +kernel
  have hheight : ∀ p ∈ c.stateSpace, p.frame.stack.length ≤ 2 := fun p hp =>
    hclosed.2.2 p (mem_of_reaches hclosed.1 hclosed.2.1 hp.1)
  exact ⟨hheight, analyze_converges c 2 hheight⟩

end Context

end NullCheck
