import NullCheck.Proofs.Machine.Comparison
import NullCheck.Proofs.Visit.Outcomes

/-!
# Soundness of the exploration

Whatever a machine does, the exploration has foreseen: whenever a machine comes to an instruction, some state that
was visited there describes it. So every outcome that a comparison has in a machine is observed, and no comparison
that is reported to be constant ever turns out the other way.

An assignment changes what the stack's symbolic values say of a variable that was pushed before, so the exploration
is sound as long as no variable is assigned to while its value lies further down on the stack.

## The architecture

* **`Frame.Describes`**: the relation between frames and machines.
* **`Frame.Describes.…`**, one lemma for each operation: a step of the machine is matched by a successor of the visit.
* **`Frame.Describes.step`**: the step lemma, one case for each way to execute an instruction.
* **`Context.exists_describes`**: by induction on the run, every machine is described by a state.
* **`Context.exploration_sound`**: the headline.
-/

namespace NullCheck

/-- An operation that machines have steps for, with a constant that is no floating point number if it pushes one. -/
def Operation.IsCovered : Operation → Bool
  | .push (.constant c) => c.binary?.isNone
  | .binop operator => operator ≠ some .instanceOf
  | .typeCast _ | .methodCall _ | .flushVariable _ => false
  | _ => true

namespace Frame

/-- A frame describes a machine: its stack allows that of the machine, and the environment fits. -/
structure Describes (f : Frame) (m : Machine) : Prop where
  fits : f.Fits m.env
  stack : List.Forall₂ (Value.Allows m.env) f.stack m.stack

/-- The variable that the top of the stack is to be assigned to does not come up below the two operands. -/
def AssignsClearly (f : Frame) : Prop :=
  ∀ v ∈ f.pop.2.pop.2.stack, v.varId? = none ∨ v.varId? ≠ f.pop.2.pop.1.varId?

instance (f : Frame) : Decidable f.AssignsClearly :=
  inferInstanceAs (Decidable (∀ v ∈ f.pop.2.pop.2.stack, v.varId? = none ∨ v.varId? ≠ f.pop.2.pop.1.varId?))

variable {c : Context} {i : Instruction} {f : Frame} {m : Machine} {env : Environment}

/-! ## Stacks -/

/-- Popping on both sides takes a value and a cell that it allows. -/
theorem allows_pop {stack rest : List Cell} {a : Cell} (h : List.Forall₂ (Value.Allows env) f.stack stack)
    (ha : Pop stack a rest) : f.pop.1.Allows env a ∧ List.Forall₂ (Value.Allows env) f.pop.2.stack rest := by
  unfold pop
  cases ha with
  | top a rest =>
    generalize f.stack = values at h
    cases h with
    | cons hv hvs => exact ⟨hv, hvs⟩
  | empty d =>
    generalize f.stack = values at h
    cases h with
    | nil => exact ⟨rfl, .nil⟩

theorem peek?_getD (f : Frame) : f.peek?.getD .unknown = f.pop.1 := by
  unfold peek? pop
  cases f.stack <;> rfl

theorem Fits.pop (h : f.Fits env) : f.pop.2.Fits env := h.of_partition rfl

theorem Fits.push (h : f.Fits env) (v : Value) : (f.push v).Fits env := h.of_partition rfl

/-- A description that goes on with another stack. -/
theorem Describes.goOn {g : Frame} {stack : List Cell} (hg : g.Fits m.env)
    (hstack : List.Forall₂ (Value.Allows m.env) g.stack stack) : g.Describes (m.goOn stack) := ⟨hg, hstack⟩

/-- A variable that a value does not mention may change. -/
theorem allows_update {v : Value} {a : Cell} (h : v.Allows env a) {id : VariableId} (hv : v.varId? ≠ some id)
    (d : Datum) : v.Allows (Function.update env id d) a := by
  cases v with
  | var j viaMethods =>
    have hj : j ≠ id := fun h => hv (congrArg some h)
    show a = _
    rw [Function.update_of_ne hj]
    exact h
  | _ => exact h

/-- Likewise for all values on a stack. -/
theorem allows_update_all {vs : List Value} {cells : List Cell} (h : List.Forall₂ (Value.Allows env) vs cells)
    {id : VariableId} (hvs : ∀ v ∈ vs, v.varId? ≠ some id) (d : Datum) :
    List.Forall₂ (Value.Allows (Function.update env id d)) vs cells := by
  induction h with
  | nil => exact .nil
  | cons hv _ ih =>
    have hrest := ih fun v hmem => hvs v (List.mem_cons_of_mem _ hmem)
    exact .cons (allows_update hv (hvs _ (List.mem_cons_self ..)) d) hrest

/-! ## Operations -/

/-- An operand is a value that allows what the machine pushes for it. -/
theorem allows_valueOf {operand : Operand} {a : Cell} (hcovered : (Operation.push operand).IsCovered = true)
    (ha : operand.Yields c.procedure.vars env a) : (c.scope.valueOf operand).Allows env a := by
  cases ha with
  | declared h viaMethods =>
    show (c.scope.variableValue _ viaMethods).Allows env _
    unfold Scope.variableValue
    rw [if_pos (show _ < c.scope.vars.length from h)]
    rfl
  | undeclared h viaMethods d =>
    show (c.scope.variableValue _ viaMethods).Allows env _
    unfold Scope.variableValue
    rw [if_neg (show ¬_ < c.scope.vars.length from h)]
    rfl
  -- what is covered is no floating number, so it is not NaN
  | constant k =>
    have hbinary : k.binary? = none := Option.isNone_iff_eq_none.mp hcovered
    refine ⟨rfl, ?_⟩
    rw [Constant.isNaN, hbinary]
    rfl
  | typed t h => exact ⟨rfl, h⟩
  | notNull t h => exact ⟨rfl, h⟩
  | unknown d => rfl

namespace Describes

/-- What is demanded not to be null may be noted not to be, if it is not. -/
theorem demandNotNull {v : Value} {a : Cell} (h : f.Fits env) (ha : v.Allows env a) (hnull : a.value ≠ .null)
    (d : Defect) {rest : List Cell} (hrest : List.Forall₂ (Value.Allows env) f.stack rest) :
    (Visit.demandNotNull c (.clean f) v d).frame.Fits env ∧
      List.Forall₂ (Value.Allows env) (Visit.demandNotNull c (.clean f) v d).frame.stack rest := by
  have hfits : (f.applyNotNull v).frame.Fits env := h.applyNotNull ha hnull
  have hstack : List.Forall₂ (Value.Allows env) (f.applyNotNull v).frame.stack rest := by
    rwa [stack_applyNotNull]
  unfold Visit.demandNotNull
  simp only
  split
  · exact ⟨hfits, hstack⟩
  · show (Visit.rebindNotNull c (f.applyNotNull v).frame v).1.Fits env ∧
      List.Forall₂ (Value.Allows env) (Visit.rebindNotNull c (f.applyNotNull v).frame v).1.stack rest
    cases v with
    | var id viaMethods =>
      -- the variable is given a value of its type that is not null, which is what it has
      have hallows : (Value.notNull (c.scope.variableType id)).Allows env (.fresh (env id)) := by
        rw [show a = ⟨env id, some id⟩ from ha] at hnull
        exact ⟨rfl, hnull⟩
      have hassigned := hfits.assign (s := c.scope) id viaMethods hallows
      rw [show (Cell.fresh (env id)).value = env id from rfl, Function.update_eq_self] at hassigned
      refine ⟨hassigned, ?_⟩
      unfold Visit.rebindNotNull
      show List.Forall₂ _ (Frame.assign _ c.scope _ _).stack rest
      rwa [stack_assign]
    | _ => exact ⟨hfits, hstack⟩

/-- What is stored in a variable becomes known of it; nothing is forgotten that the stack below relies on. -/
theorem assign (hd : f.Describes m) (htracked : ∀ v ∈ c.procedure.vars, v.isUntracked = false)
    (hclear : f.AssignsClearly) {source target : Cell} {below rest : List Cell} {id : VariableId} {decl : VariableDecl}
    (hsource : Pop m.stack source below) (htarget : Pop below target rest) (hid : target.origin = some id)
    (hdecl : c.procedure.vars[id]? = some decl) (hnull : c.resolver.isNotNull decl.annotations → source.value ≠ .null) :
    ∃ q ∈ (Visit.assign c i f).next, q.index = i.index + 1 ∧ q.frame.Describes (m.store id source.value rest) := by
  obtain ⟨hv, hbelow⟩ := allows_pop hd.stack hsource
  obtain ⟨hw, hrest⟩ := allows_pop hbelow htarget
  obtain ⟨viaMethods, hvar⟩ : ∃ viaMethods, f.pop.2.pop.1 = .var id viaMethods := by
    have hvarId : f.pop.2.pop.1.varId? = some id := hw.origin_eq.symm.trans hid
    cases hw' : f.pop.2.pop.1 with
    | var j viaMethods =>
      rw [hw'] at hvarId
      cases hvarId
      exact ⟨viaMethods, rfl⟩
    | _ => rw [hw'] at hvarId; cases hvarId
  -- the stack below does not follow the variable
  have hrestClear : ∀ v ∈ f.pop.2.pop.2.stack, v.varId? ≠ some id := by
    intro v hmem
    rcases hclear v hmem with hnone | hne
    · rw [hnone]
      exact fun h => by cases h
    · rwa [hvar] at hne
  have hchecked : (if c.resolver.isNotNull decl.annotations then f.pop.2.pop.2.applyNotNull f.pop.1
      else ⟨true, f.pop.2.pop.2⟩).frame.Fits m.env ∧
      (if c.resolver.isNotNull decl.annotations then f.pop.2.pop.2.applyNotNull f.pop.1
        else ⟨true, f.pop.2.pop.2⟩).frame.stack = f.pop.2.pop.2.stack := by
    split
    · rename_i hannotated
      exact ⟨hd.fits.pop.pop.applyNotNull hv (hnull hannotated), stack_applyNotNull _ _⟩
    · exact ⟨hd.fits.pop.pop, rfl⟩
  unfold Visit.assign
  simp only [hvar, Value.varId?, Option.bind_some, hdecl]
  rw [if_neg (Bool.eq_false_iff.mp (htracked decl (List.mem_of_getElem? hdecl)))]
  refine ⟨_, List.mem_singleton_self _, rfl, ?_, ?_⟩
  · exact (hchecked.1.assign id viaMethods hv).push _
  · show List.Forall₂ _ (_ :: (Frame.assign _ c.scope (.var id viaMethods) f.pop.1).stack) _
    rw [stack_assign, hchecked.2]
    refine List.Forall₂.cons ?_ (allows_update_all hrest hrestClear source.value)
    show _ = Cell.mk (Function.update m.env id source.value id) (some id)
    rw [Function.update_self]

/-- What was not read from a variable is left as it is. -/
theorem assignElsewhere (hd : f.Describes m) {source target : Cell} {below rest : List Cell}
    (hsource : Pop m.stack source below) (htarget : Pop below target rest) (horigin : target.origin = none) :
    ∃ q ∈ (Visit.assign c i f).next, q.index = i.index + 1 ∧ q.frame.Describes (m.goOn (target :: rest)) := by
  obtain ⟨-, hbelow⟩ := allows_pop hd.stack hsource
  obtain ⟨hw, hrest⟩ := allows_pop hbelow htarget
  have hvarId : f.pop.2.pop.1.varId? = none := hw.origin_eq.symm.trans horigin
  unfold Visit.assign
  simp only [hvarId, Option.bind_none]
  exact ⟨_, List.mem_singleton_self _, rfl, hd.fits.pop.pop.push _, List.Forall₂.cons hw hrest⟩

/-- A binary operation goes on with a value that allows the outcome, and an outcome of a comparison is observed. -/
theorem binop (hd : f.Describes m) {operator : Option BinaryOperator} (hoperator : operator ≠ some .instanceOf)
    {left right : Cell} {below rest : List Cell} {d : Datum} (hright : Pop m.stack right below)
    (hleft : Pop below left rest) (hcomputes : Computes operator left.value right.value d) :
    (∃ q ∈ (Visit.binop c i operator f).next, q.index = i.index + 1 ∧ q.frame.Describes (m.goOn (.fresh d :: rest))) ∧
      ∀ b, d = .boolean b → (Visit.binop c i operator f).observation.has b = true := by
  obtain ⟨hr, hbelow⟩ := allows_pop hd.stack hright
  obtain ⟨hl, hrest⟩ := allows_pop hbelow hleft
  have hfits : f.pop.2.pop.2.Fits m.env := hd.fits.pop.pop
  have hpush : ∀ v : Value, v.Allows m.env (.fresh d) →
      (f.pop.2.pop.2.push v).Describes (m.goOn (.fresh d :: rest)) := fun v hv =>
    ⟨hfits.push v, List.Forall₂.cons hv hrest⟩
  have heither : ∀ b, Observation.either.has b = true := fun b => by cases b <;> rfl
  unfold Visit.binop
  simp only
  split
  · exact ⟨⟨_, List.mem_singleton_self _, rfl, hpush .unknown rfl⟩, fun b _ => heither b⟩
  · rename_i operator
    have hoperator : operator ≠ .instanceOf := fun h => hoperator (congrArg some h)
    rw [hfits.canBeNaN_eq hl, hfits.canBeNaN_eq hr]
    split
    · -- two constants are compared at once
      rename_i hconstants
      obtain ⟨outcome, rfl, hvisit⟩ := Visit.compareConstants_eq (i := i) hfits hl hr hconstants.2.1 hconstants.2.2
        hconstants.1 hcomputes
      rw [hvisit]
      refine ⟨⟨_, List.mem_singleton_self _, rfl, hpush (.boolean outcome) (Value.allows_boolean outcome)⟩, ?_⟩
      intro b hb
      cases hb
      cases outcome <;> rfl
    · split
      · rename_i relation hrelation
        have hcomparison : operator.isComparison = true := by
          obtain ⟨r, hr, -⟩ := Option.bind_eq_some_iff.mp hrelation
          exact Value.isComparison_of_canonical? hr hoperator
        obtain ⟨outcome, rfl⟩ := Value.exists_boolean_of_computes hcomparison hcomputes
        obtain ⟨r, hr, hrFits, hrStack, hhas⟩ := Visit.exists_fork (c := c) (i := i) hfits hl hr hoperator hrelation
          hcomputes
        refine ⟨⟨_, hr, rfl, hrFits.push _, ?_⟩, ?_⟩
        · show List.Forall₂ _ (_ :: r.stack) _
          rw [hrStack]
          exact List.Forall₂.cons (Value.allows_boolean outcome) hrest
        · intro b hb
          cases hb
          exact hhas
      · split
        · -- a sum is a string
          have hsum : d ≠ .null := by
            cases hcomputes with
            | plus _ _ h => exact h
            | other _ hplus => exact absurd rfl hplus
          exact ⟨⟨_, List.mem_singleton_self _, rfl, hpush (.notNull .string) ⟨rfl, hsum⟩⟩, fun b _ => heither b⟩
        · exact absurd rfl hoperator
        · exact ⟨⟨_, List.mem_singleton_self _, rfl, hpush .unknown rfl⟩, fun b _ => heither b⟩

/-- A jump goes the way that the visit goes, or one of its two ways. -/
theorem conditionalGoto (hd : f.Describes m) (hindex : i.index = m.index) {target : Nat} {negated jumps : Bool}
    {a : Cell} {rest : List Cell} (ha : Pop m.stack a rest)
    (hjumps : ∀ b, a.value = .boolean b → jumps = (b ^^ negated)) :
    ∃ q ∈ (Visit.conditionalGoto c i target negated f).next,
      q.index = (if jumps then target else m.index + 1) ∧
      q.frame.Describes { m with index := if jumps then target else m.index + 1, stack := rest } := by
  obtain ⟨hv, hrest⟩ := allows_pop hd.stack ha
  have hpop : f.pop.2.Describes { m with index := if jumps then target else m.index + 1, stack := rest } :=
    ⟨hd.fits.pop, hrest⟩
  unfold Visit.conditionalGoto
  simp only
  split
  · -- a known truth value goes one way
    rename_i b hcondition
    have hdecided : jumps = (b ^^ negated) := by
      rw [hcondition] at hv
      exact hjumps b (by rw [hv.1]; rfl)
    refine ⟨_, List.mem_singleton_self _, ?_, hpop⟩
    rw [hdecided, hindex]
    cases b <;> cases negated <;> rfl
  · -- comparisons are not pushed as such
    rename_i hcondition
    rw [hcondition] at hv
    cases hv
  · cases jumps with
    | true => exact ⟨_, List.mem_cons_self .., rfl, hpop⟩
    | false =>
      refine ⟨_, List.mem_cons_of_mem _ (List.mem_singleton_self _), ?_, hpop⟩
      rw [hindex]
      rfl

/-- **A step of a machine is matched by the visit.** A frame that describes the machine goes on with one that
describes the machine after the step. -/
theorem step (hd : f.Describes m) (hindex : i.index = m.index) (hcovered : i.operation.IsCovered = true)
    (htracked : ∀ v ∈ c.procedure.vars, v.isUntracked = false)
    (hclear : i.operation = .assign → f.AssignsClearly) {m' : Machine} (hstep : Machine.Step c i m m') :
    ∃ q ∈ (visit c i f).next, q.index = m'.index ∧ q.frame.Describes m' := by
  unfold visit
  cases hstep with
  | push hi ha =>
    -- one case for each rule of the machine
    rw [hi] at hcovered ⊢
    refine ⟨_, List.mem_singleton_self _, congrArg (· + 1) hindex, hd.fits.push _, ?_⟩
    exact List.Forall₂.cons (allows_valueOf hcovered ha) hd.stack
  | pop hi ha =>
    rw [hi]
    exact ⟨_, List.mem_singleton_self _, congrArg (· + 1) hindex, hd.fits.pop, (allows_pop hd.stack ha).2⟩
  | dup hi ha =>
    rw [hi]
    have htop := (allows_pop hd.stack ha).1
    rw [← peek?_getD] at htop
    exact ⟨_, List.mem_singleton_self _, congrArg (· + 1) hindex, hd.fits.push _, List.Forall₂.cons htop hd.stack⟩
  | assign hi hsource htarget hid hdecl hnull =>
    obtain ⟨q, hq, hqindex, hdescribes⟩ := hd.assign (i := i) htracked (hclear hi) hsource htarget hid hdecl hnull
    rw [hi]
    exact ⟨q, hq, hqindex.trans (congrArg (· + 1) hindex), hdescribes⟩
  | assignElsewhere hi hsource htarget horigin =>
    obtain ⟨q, hq, hqindex, hdescribes⟩ := hd.assignElsewhere (c := c) (i := i) hsource htarget horigin
    rw [hi]
    exact ⟨q, hq, hqindex.trans (congrArg (· + 1) hindex), hdescribes⟩
  | checkReturnValue hi ha =>
    rw [hi]
    exact ⟨_, List.mem_singleton_self _, congrArg (· + 1) hindex, hd.fits.pop, (allows_pop hd.stack ha).2⟩
  | fieldReference hi ha hnull =>
    rename_i physical a rest
    obtain ⟨hv, hrest⟩ := allows_pop hd.stack ha
    have hpop : f.withFieldReferenced.pop.2.Fits m.env := hd.fits.of_partition rfl
    rw [hi]
    cases physical with
    | true =>
      -- the machine goes on, so the qualifier was not null
      obtain ⟨hfits, hstack⟩ := demandNotNull (c := c) hpop hv (hnull rfl) .fieldOfNull hrest
      exact ⟨_, List.mem_singleton_self _, congrArg (· + 1) hindex, hfits, hstack⟩
    | false => exact ⟨_, List.mem_singleton_self _, congrArg (· + 1) hindex, hpop, hrest⟩
  | binop hi hright hleft hcomputes =>
    rename_i operator left right below rest d
    have hoperator : operator ≠ some .instanceOf := by
      rw [hi] at hcovered
      exact of_decide_eq_true hcovered
    obtain ⟨⟨q, hq, hqindex, hdescribes⟩, -⟩ := hd.binop (c := c) (i := i) hoperator hright hleft hcomputes
    rw [hi]
    exact ⟨q, hq, hqindex.trans (congrArg (· + 1) hindex), hdescribes⟩
  | goto hi =>
    rw [hi]
    exact ⟨_, List.mem_singleton_self _, rfl, hd.fits, hd.stack⟩
  | conditionalGoto jumps hi ha hjumps =>
    obtain ⟨q, hq, hqindex, hdescribes⟩ := hd.conditionalGoto (c := c) hindex ha hjumps
    rw [hi]
    exact ⟨q, hq, hqindex, hdescribes⟩

end Describes

end Frame

/-! ## Runs -/

namespace Context

variable {c : Context} {m m' : Machine}

/-- What is declared of parameters is true of the variables when a machine begins. -/
theorem enter_fits {env : Environment} {f : Frame} (hf : f.Fits env) {id : VariableId} {vs : List VariableDecl}
    (hnotNull : ∀ k v, vs[k]? = some v → v.kind = .parameter → v.type.isReference = true →
      c.resolver.elementNullness v.annotations [] = .nonNull → env (id + k) ≠ .null) :
    (c.enter id f vs).1.Fits env ∧ (c.enter id f vs).1.stack = f.stack := by
  induction vs generalizing id f with
  | nil => exact ⟨hf, rfl⟩
  | cons v vs ih =>
    have hrest : ∀ k w, vs[k]? = some w → w.kind = .parameter → w.type.isReference = true →
        c.resolver.elementNullness w.annotations [] = .nonNull → env (id + 1 + k) ≠ .null := by
      intro k w hw hkind htype hnull
      rw [Nat.add_assoc, Nat.add_comm 1 k]
      exact hnotNull (k + 1) w hw hkind htype hnull
    rw [enter]
    split
    · exact ih hf hrest
    · rename_i value hvalue
      have hallows : value.Allows env (.fresh (env id)) := by
        unfold VariableDecl.entryValue? at hvalue
        split at hvalue
        · rename_i hparameter
          split at hvalue
          · rename_i hnull
            cases hvalue
            exact ⟨rfl, hnotNull 0 v rfl hparameter.1 hparameter.2 hnull⟩
          · cases hvalue
            exact ⟨rfl, fun h => by cases h⟩
          · cases hvalue
        · cases hvalue
      -- to assign what a variable has anyway changes no value
      have hassigned : (f.assign c.scope (c.scope.variableValue id false) value).Fits env := by
        unfold Scope.variableValue
        split
        · have hfits := hf.assign (s := c.scope) id false hallows
          rwa [show (Cell.fresh (env id)).value = env id from rfl, Function.update_eq_self] at hfits
        · exact hf
      obtain ⟨hfits, hstack⟩ := ih hassigned hrest
      exact ⟨hfits, hstack.trans (Frame.stack_assign f c.scope _ value)⟩

/-- The start describes how the machine begins. -/
theorem start_describes (h : c.Begins m) : c.start.frame.Describes m := by
  have hnotNull : ∀ k v, c.procedure.vars[k]? = some v → v.kind = .parameter → v.type.isReference = true →
      c.resolver.elementNullness v.annotations [] = .nonNull → m.env (0 + k) ≠ .null := by
    intro k v hv hkind htype hnull
    rw [Nat.zero_add]
    exact h.notNull k v hv hkind htype hnull
  obtain ⟨hfits, hstack⟩ := enter_fits (Frame.Fits.empty m.env) hnotNull
  refine ⟨hfits, ?_⟩
  show List.Forall₂ _ (c.enter 0 .empty c.procedure.vars).1.stack m.stack
  rw [hstack, h.stack]
  exact .nil

variable (c) in
/-- In no state is a variable assigned to that comes up further down on the stack. -/
def AssignsClearly : Prop :=
  ∀ p ∈ c.stateSpace, ∀ i, c.procedure.instructions[p.index]? = some i → i.operation = .assign → p.frame.AssignsClearly

/-- **Every machine is described by a pair that comes up,** however far it has run. -/
theorem exists_describes (hnumbered : c.procedure.Numbered)
    (htracked : ∀ v ∈ c.procedure.vars, v.isUntracked = false)
    (hcovered : ∀ i ∈ c.procedure.instructions, i.operation.IsCovered = true) (hclear : c.AssignsClearly)
    (hbegins : c.Begins m) (hruns : c.Runs m m') :
    ∃ p, c.Reaches p ∧ p.index = m'.index ∧ p.frame.Describes m' := by
  induction hruns with
  | refl => exact ⟨c.start, Relation.ReflTransGen.refl, hbegins.index.symm, start_describes hbegins⟩
  | tail _ hexecutes ih =>
    obtain ⟨p, hreaches, hindex, hdescribes⟩ := ih
    obtain ⟨i, hi, hstep⟩ := hexecutes
    have hpi : c.procedure.instructions[p.index]? = some i := hindex ▸ hi
    -- the machine executes the instruction there, so the successor is a state
    have hstate : p ∈ c.stateSpace := ⟨hreaches, (List.getElem?_eq_some_iff.mp hpi).1⟩
    obtain ⟨q, hq, hqindex, hqdescribes⟩ := hdescribes.step (hnumbered _ i hi) (hcovered i (List.mem_of_getElem? hi))
      htracked (hclear p hstate i hpi) hstep
    exact ⟨q, hreaches.tail ⟨i, hpi, hq⟩, hqindex, hqdescribes⟩

/-- **The exploration is sound.** Take a valid procedure over local variables and parameters, with operations that
machines have steps for, in which no state assigns to a variable whose value lies further down on the stack, and a
complete run of the exploration. Whenever a machine comes to an instruction, however long it has run and whatever
it began with, a state that was visited there describes it: the values on its stack are allowed, the values that are
known to be equal, different, null or not null are. Whenever it compares two values, the outcome was observed, and no
finding reports that the comparison has the other outcome only. -/
theorem exploration_sound {c : Context} {raw : Procedure} (hvalid : raw.validate = .ok c.procedure)
    (hkinds : ∀ v ∈ c.procedure.vars, v.kind = .local ∨ v.kind = .parameter)
    (hcovered : ∀ i ∈ c.procedure.instructions, i.operation.IsCovered = true) (hclear : c.AssignsClearly)
    {config : AnalysisConfig} (hcomplete : (c.run config).complete = true) {m m' : Machine} (hbegins : c.Begins m)
    (hruns : c.Runs m m') {i : Instruction} (hi : c.procedure.instructions[m'.index]? = some i) :
    (∃ p, c.Visits config p ∧ p.index = m'.index ∧ p.frame.Describes m' ∧ ∀ id viaMethods,
      (p.frame.isNull (.var id viaMethods) = true → m'.env id = .null) ∧
      (p.frame.isNotNull (.var id viaMethods) = true → m'.env id ≠ .null)) ∧
    ∀ m'' operator b, i.operation = .binop (some operator) → operator.isComparison = true → Machine.Step c i m' m'' →
      m''.stack.head? = some (.fresh (.boolean b)) →
        ((c.run config).survey.observation m'.index).has b = true ∧
        ∀ f ∈ (c.analyze config).findings, f.instruction = m'.index → f.kind ≠ .constantCondition !b := by
  have hnumbered : c.procedure.Numbered := Procedure.numbered_of_validate hvalid
  have htracked : ∀ v ∈ c.procedure.vars, v.isUntracked = false := by
    intro v hv
    unfold VariableDecl.isUntracked
    rcases hkinds v hv with hkind | hkind
    · rw [hkind]
      rfl
    · rw [hkind]
      rfl
  have hmem : i ∈ c.procedure.instructions := List.mem_of_getElem? hi
  have hindex : i.index = m'.index := hnumbered _ i hi
  obtain ⟨p, hreaches, hpindex, hdescribes⟩ :=
    exists_describes hnumbered htracked hcovered hclear hbegins hruns
  have hstate : p ∈ c.stateSpace := ⟨hreaches, hpindex ▸ (List.getElem?_eq_some_iff.mp hi).1⟩
  have hvisits : c.Visits config p := (visits_iff hcomplete).mpr hstate
  refine ⟨⟨p, hvisits, hpindex, hdescribes, fun id viaMethods => ⟨fun h => ?_, fun h => ?_⟩⟩, ?_⟩
  · exact hdescribes.fits.eq_null (v := .var id viaMethods) (a := ⟨m'.env id, some id⟩) rfl h
  · exact hdescribes.fits.ne_null (v := .var id viaMethods) (a := ⟨m'.env id, some id⟩) rfl h
  · intro m'' operator b hoperation hcomparison hstep houtcome
    have hhas : ((c.run config).survey.observation i.index).has b = true := by
      refine (run_has_iff hnumbered hcomplete hmem hoperation b).mpr ⟨p, hstate, hpindex.trans hindex.symm, ?_⟩
      rw [visit_binop hoperation]
      -- a test for a type is no comparison of values
      have hoperator : some operator ≠ some .instanceOf := by
        intro h
        rw [Option.some.inj h] at hcomparison
        cases hcomparison
      cases hstep with
      | binop hi' hright hleft hcomputes =>
        rw [hoperation] at hi'
        cases hi'
        have hd := congrArg Cell.value (Option.some.inj houtcome)
        exact (hdescribes.binop (c := c) (i := i) hoperator hright hleft hcomputes).2 b hd
      | conditionalGoto _ hi' => rw [hoperation] at hi'; cases hi'
      | _ hi' => rw [hoperation] at hi'; cases hi'
    rw [← hindex]
    exact ⟨hhas, fun f hf hfi => not_reported_of_has hhas hf hfi⟩

/-- A procedure that stores a parameter in a local variable and compares the variable with null. -/
def storedParameter : Procedure where
  name := "m"
  sourceFile := none
  vars :=
    [⟨"x", .object, .parameter, false, ["org.jetbrains.annotations.NotNull"]⟩, ⟨"y", .object, .local, false, []⟩]
  anchors := []
  instructions :=
    [⟨0, none, .push (.var 1 false)⟩,
     ⟨1, none, .push (.var 0 false)⟩,
     ⟨2, none, .assign⟩,
     ⟨3, none, .push (.constant .null)⟩,
     ⟨4, none, .binop (some .eq)⟩,
     ⟨5, none, .leave⟩]

/-- A machine that was given an object for the parameter is described where it compares the variable, and the
comparison is not reported to be always true. -/
theorem exploration_sound_of_stored_parameter :
    let c : Context := ⟨storedParameter, .empty, AnalysisConfig.standard.resolver, .empty⟩
    let env : Environment := fun id => if id = 0 then .object 0 else .null
    let m : Machine := ⟨0, env, []⟩
    let m' : Machine := ⟨4, Function.update env 1 (.object 0), [.fresh .null, ⟨.object 0, some 1⟩]⟩
    storedParameter.validate = .ok storedParameter ∧ c.AssignsClearly ∧
      (c.run .standard).complete = true ∧ c.Begins m ∧ c.Runs m m' ∧
      (∃ p, c.Visits .standard p ∧ p.index = 4 ∧ p.frame.Describes m') ∧
      ∀ f ∈ (c.analyze .standard).findings, f.instruction = 4 → f.kind ≠ .constantCondition true := by
  intro c env m m'
  have hvalid : storedParameter.validate = .ok storedParameter := by decide +kernel
  have hwaves : c.wave 6 = [] := by decide +kernel
  -- all states lie in the first six waves
  have hclear : c.AssignsClearly := by
    intro p hp i hi _
    obtain ⟨k, hk, hmem⟩ := exists_lt_of_reaches hwaves hp.1
    have hall : ∀ k < 6, ∀ p ∈ c.wave k, p.frame.AssignsClearly := by decide +kernel
    exact hall k hk p hmem
  have hcomplete : (c.run .standard).complete = true := run_complete_of_waves hwaves (by decide +kernel)
  have hbegins : c.Begins m := by
    refine ⟨rfl, rfl, ?_⟩
    intro id v hv hkind _ _
    match id with
    | 0 => exact fun h => by cases h
    | 1 =>
      cases hv
      cases hkind
    | _ + 2 => cases hv
  -- push `y`, push `x`, assign, push `null`
  have hruns : c.Runs m m' := by
    let x : Cell := ⟨.object 0, some 0⟩
    let y : Cell := ⟨.null, some 1⟩
    have h₀ : c.Executes m ⟨1, env, [y]⟩ := ⟨_, rfl, .push rfl (.declared (by decide) false)⟩
    have h₁ : c.Executes ⟨1, env, [y]⟩ ⟨2, env, [x, y]⟩ := ⟨_, rfl, .push rfl (.declared (by decide) false)⟩
    have hstore : Machine.Step c ⟨2, none, .assign⟩ ⟨2, env, [x, y]⟩ (Machine.store ⟨2, env, [x, y]⟩ 1 x.value []) :=
      .assign rfl (.top ..) (.top ..) rfl rfl fun _ => (by decide : x.value ≠ .null)
    have h₂ : c.Executes ⟨2, env, [x, y]⟩ (Machine.store ⟨2, env, [x, y]⟩ 1 x.value []) := ⟨_, rfl, hstore⟩
    have h₃ : c.Executes (Machine.store ⟨2, env, [x, y]⟩ 1 x.value []) m' := ⟨_, rfl, .push rfl (.constant .null)⟩
    exact (((Relation.ReflTransGen.refl.tail h₀).tail h₁).tail h₂).tail h₃
  have hat : c.procedure.instructions[m'.index]? = some ⟨4, none, .binop (some .eq)⟩ := rfl
  obtain ⟨⟨p, hp, hindex, hdescribes, -⟩, hsound⟩ := exploration_sound (c := c) hvalid (by decide) (by decide) hclear
    hcomplete hbegins hruns hat
  refine ⟨hvalid, hclear, hcomplete, hbegins, hruns, ⟨p, hp, hindex, hdescribes⟩, ?_⟩
  have hstep : Machine.Step c ⟨4, none, .binop (some .eq)⟩ m' (m'.goOn [.fresh (.boolean false)]) :=
    .binop rfl (.top ..) (.top ..) (.eq (.object 0) .null)
  exact (hsound _ .eq false rfl rfl hstep rfl).2

end Context

end NullCheck
