import NullCheck.Proofs.State.Bindings
import NullCheck.Proofs.Visit.Check

/-!
# Bindings of volatile fields

An assignment to a volatile field binds nothing, and neither does the entry into a procedure. But when a volatile field
is reported to be null where it may not be, then it is noted not to be null after all, and that is a binding like any
other. It is the only one that such a field ever has, and it stays until the field is flushed.

## The architecture

* **`Frame.binding_invariant`**: the operations on frames leave a variable bound as it is, if they do not change it.
* **`Visit.Checks.bound`**: after a report the variable is bound.
* **`Context.Flushes`**, **`Context.Rebinds`**: how a visit may change the binding of a volatile field.
* **`visit_binding?`**: the step; exactly so much a visit does to the binding.
* **`Context.binding_of_untracked`**: the headline, by induction on the run.
* **`Context.untracked_bound`**: it does happen that a volatile field is bound.
-/

namespace NullCheck

/-- A variable stays bound as it is under operations that do not change it. -/
theorem Frame.binding_invariant (s : Scope) (id : VariableId) (b : Option Value) :
    Frame.Invariant s (fun _ => True) (· ≠ id) fun f => f.binding? id = b where
  push hf _ := hf
  pop hf := ⟨trivial, hf⟩
  referenceField hf := hf
  assign hf _ _ hid := (binding?_assign_of_ne fun h => hid id h rfl).trans hf
  flushVariable hf hid := ((binding?_flushVariable _ _ id).trans (if_neg (Ne.symm hid))).trans hf
  applyRelation hf _ _ := by rw [binding?, bindings_applyRelation]; exact hf
  applyNotNull hf _ := by rw [binding?, bindings_applyNotNull]; exact hf
  applyCast hf _ _ := by rw [binding?, bindings_applyCast]; exact hf

/-- **After a report the variable is bound** to some value that is not null. -/
theorem Visit.Checks.bound {c : Context} {f : Frame} {n : Nat} {k : Checked} {id : VariableId} (h : Checks c f n k) :
    ∀ d ∈ k.defects, ∀ depth, d.depth? n = some depth → (f.operand depth).varId? = some id →
      k.frame.binding? id = some (.notNull (c.scope.variableType id)) := by
  induction h with
  | start | field => exact fun d hd => by cases hd
  | pop _ ih => exact ih
  | @demand k v d _ hsubject ih =>
    have hnoted : (k.frame.applyNotNull v).frame.binding? id = k.frame.binding? id := by
      unfold Frame.binding?
      rw [Frame.bindings_applyNotNull]
    obtain ⟨-, heq⟩ | ⟨-, hdefects, t, ht, heq⟩ := demandNotNull_cases c k v d
    · rw [heq, hnoted]
      exact ih
    · rw [heq, hdefects]
      intro e he depth hdepth hid
      -- what failed is bound, be it this variable or another one
      by_cases hv : v.varId? = some id
      · rw [← ht id hv]
        refine Frame.binding?_assign hv fun hvalue => ?_
        rw [← hvalue] at hv
        cases hv
      · rw [Frame.binding?_assign_of_ne hv, hnoted]
        rcases List.mem_append.mp he with he | he
        · exact ih e he depth hdepth hid
        · rw [List.mem_singleton.mp he] at hdepth
          rw [hsubject depth (Defect.subject?_of_depth? hdepth)] at hid
          exact absurd hid hv
  | @warn k v d _ _ hwarning _ ih =>
    intro e he depth hdepth hid
    rcases List.mem_append.mp he with he | he
    · exact ih e he depth hdepth hid
    · rw [List.mem_singleton.mp he, hwarning] at hdepth
      cases hdepth

namespace Context

variable {c : Context} {f : Frame} {i : Instruction} {p q r : Successor} {id : VariableId} {decl : VariableDecl}

/-- A visit flushes a variable, by itself or with the fields. -/
def Flushes (c : Context) (i : Instruction) (id : VariableId) : Prop :=
  i.operation = .flushVariable id ∨
    ∃ call, i.operation = .methodCall call ∧ call.flushFields = true ∧ id ∈ c.scope.fieldVariables

/-- A visit reports a variable to be null where it may not be, and rebinds it. -/
def Rebinds (c : Context) (i : Instruction) (f : Frame) (id : VariableId) : Prop :=
  ∃ d ∈ (visit c i f).defects, ∃ depth, d.depth? i.operation.arguments = some depth ∧
    (f.operand depth).varId? = some id

theorem binding?_of_flushes (h : c.Flushes i id) (hq : q ∈ (visit c i f).next) : q.frame.binding? id = none := by
  rcases h with hoperation | ⟨call, hoperation, hflush, hid⟩
  · simp only [visit, hoperation] at hq
    rw [Visit.mem_next_advance.mp hq]
    exact (Frame.binding?_flushVariable f id id).trans (if_pos rfl)
  · simp only [visit, hoperation] at hq
    rw [show q = _ from Visit.mem_next_advance.mp hq]
    simp only [hflush, if_true]
    exact Frame.binding?_flushFields _ hid

theorem binding?_of_rebinds (h : c.Rebinds i f id) (hflush : ¬c.Flushes i id) (hq : q ∈ (visit c i f).next) :
    q.frame.binding? id = some (.notNull (c.scope.variableType id)) := by
  obtain ⟨d, hd, depth, hdepth, hid⟩ := h
  have hfound := Visit.mem_defects_checked hd (Defect.subject?_of_depth? hdepth)
  have hbound := Visit.checks_checked.bound d hfound depth hdepth hid
  obtain heq | ⟨call, v, hoperation, heq⟩ := Visit.frame_of_reported hd hdepth hq
  · rw [heq]
    exact hbound
  · rw [heq]
    split
    · rename_i hflushes
      -- the fields are flushed, and the variable is none of them
      refine Visit.flushFields_keeps (Frame.binding_invariant c.scope id _) hbound fun x hx heq => hflush ?_
      exact Or.inr ⟨call, hoperation, hflushes, heq ▸ hx⟩
    · exact hbound

/-- An assignment to a variable that is not tracked binds nothing. -/
theorem binding?_of_assign (hdecl : c.procedure.vars[id]? = some decl) (huntracked : decl.isUntracked = true)
    (hoperation : i.operation = .assign) (hid : (f.operand 1).varId? = some id) (hq : q ∈ (visit c i f).next) :
    q.frame.binding? id = f.binding? id := by
  rw [Frame.operand_one] at hid
  simp only [visit, hoperation, Visit.assign, hid, Option.bind_some, hdecl, huntracked, if_true] at hq
  rw [show q = _ from Visit.mem_next_advance.mp hq]
  show Sorted.get? id (Frame.bindings _) = _
  split
  · rw [Frame.push, Frame.bindings_applyNotNull]
    rfl
  · rfl

open Classical in
/-- **What a visit does to the binding of a variable that is not tracked on assignment:** it goes when the variable is
flushed, it comes when the variable is reported, and nothing else changes it. -/
theorem visit_binding? (hdecl : c.procedure.vars[id]? = some decl) (huntracked : decl.isUntracked = true)
    (hi : i ∈ c.procedure.instructions) (hq : q ∈ (visit c i f).next) :
    q.frame.binding? id = if c.Flushes i id then none
      else if c.Rebinds i f id then some (.notNull (c.scope.variableType id)) else f.binding? id := by
  split
  · rename_i hflush
    exact binding?_of_flushes hflush hq
  · rename_i hflush
    split
    · rename_i hrebinds
      exact binding?_of_rebinds hrebinds hflush hq
    · rename_i hrebinds
      by_cases hassigned : i.operation = .assign ∧ (f.operand 1).varId? = some id
      · exact binding?_of_assign hdecl huntracked hassigned.1 hassigned.2 hq
      · -- no other instruction changes the binding
        refine visit_keeps (Frame.binding_invariant c.scope id _) c.isClosed_true hi rfl (fun x hchanges heq => ?_) hq
        subst heq
        cases hchanges with
        | assigned h hid => exact hassigned ⟨h, hid⟩
        | flushed h => exact hflush (Or.inl h)
        | flushedField h hflushes hid => exact hflush (Or.inr ⟨_, h, hflushes, hid⟩)
        | rebound hd hdepth hid => exact hrebinds ⟨_, hd, _, hdepth, hid⟩

/-! ## Runs -/

/-- Nothing but parameters is bound at entry. -/
theorem binding?_enter {k : VariableId} {vs : List VariableDecl} (hvs : vs = c.procedure.vars.drop k)
    (hdecl : c.procedure.vars[id]? = some decl) (huntracked : decl.isUntracked = true) (f : Frame) :
    (c.enter k f vs).1.binding? id = f.binding? id := by
  induction vs generalizing k f with
  | nil => rfl
  | cons v vs ih =>
    have hat : c.procedure.vars[k]? = some v := by
      rw [← List.head?_drop, ← hvs]
      rfl
    have hrest : vs = c.procedure.vars.drop (k + 1) := by rw [← List.tail_drop, ← hvs, List.tail_cons]
    rw [enter]
    split
    · exact ih hrest f
    · rename_i value hvalue
      refine (ih hrest _).trans (Frame.binding?_assign_of_ne fun htarget => ?_)
      -- the parameter is another variable
      have hk : k = id := by
        unfold Scope.variableValue at htarget
        split at htarget
        · exact Option.some.inj htarget
        · cases htarget
      subst hk
      rw [hat] at hdecl
      cases hdecl
      unfold VariableDecl.entryValue? at hvalue
      split at hvalue
      · rename_i hparameter
        simp [VariableDecl.isUntracked, hparameter.1] at huntracked
      · cases hvalue

/-- A pair goes on to another one, and the visit does not flush the variable. -/
def Retains (c : Context) (id : VariableId) (p q : Successor) : Prop :=
  ∃ i, c.procedure.instructions[p.index]? = some i ∧ q ∈ (visit c i p.frame).next ∧ ¬c.Flushes i id

/-- A pair goes on to another one, and the visit rebinds the variable and does not flush it. -/
def Rebound (c : Context) (id : VariableId) (p q : Successor) : Prop :=
  ∃ i, c.procedure.instructions[p.index]? = some i ∧ q ∈ (visit c i p.frame).next ∧ c.Rebinds i p.frame id ∧
    ¬c.Flushes i id

/-- **When a volatile field is bound.** In a run a variable that is not tracked on assignment is bound just if it was
reported before and not flushed since, and then it is bound to some value of its type that is not null. -/
theorem binding_of_untracked (hdecl : c.procedure.vars[id]? = some decl) (huntracked : decl.isUntracked = true)
    (hp : c.Reaches p) (v : Value) :
    p.frame.binding? id = some v ↔ v = .notNull decl.type ∧
      ∃ q r, c.Reaches q ∧ c.Rebound id q r ∧ Relation.ReflTransGen (c.Retains id) r p := by
  have htype : c.scope.variableType id = decl.type := by simp [scope, Scope.variableType, hdecl]
  constructor
  · intro hbound
    induction hp with
    | refl =>
      -- an untracked variable is not bound at the start
      have hempty : c.start.frame.binding? id = none := binding?_enter rfl hdecl huntracked .empty
      rw [hempty] at hbound
      cases hbound
    | @tail p p' hp hnext ih =>
      obtain ⟨i, hi, hq⟩ := hnext
      rw [visit_binding? hdecl huntracked (List.mem_of_getElem? hi) hq] at hbound
      split at hbound
      · cases hbound
      · rename_i hflush
        split at hbound
        · rename_i hrebinds
          rw [← htype]
          exact ⟨(Option.some.inj hbound).symm, p, p', hp, ⟨i, hi, hq, hrebinds, hflush⟩, .refl⟩
        · obtain ⟨hv, q, r, hreaches, hrebound, hretains⟩ := ih hbound
          exact ⟨hv, q, r, hreaches, hrebound, hretains.tail ⟨i, hi, hq, hflush⟩⟩
  · -- the binding lasts along the way, unless it is made again
    rintro ⟨rfl, q, r, -, ⟨i, hi, hr, hrebinds, hflush⟩, hretains⟩
    rw [← htype]
    clear hp
    induction hretains with
    | refl => exact binding?_of_rebinds hrebinds hflush hr
    | tail _ hstep ih =>
      obtain ⟨j, hj, hnext, hflush'⟩ := hstep
      rw [visit_binding? hdecl huntracked (List.mem_of_getElem? hj) hnext, if_neg hflush', ih, ite_self]

/-- A procedure that reads a field of a volatile field that it has found to be null. -/
def readOfNull : Procedure where
  name := "m"
  sourceFile := none
  vars := [⟨"f", .object, .field, true, []⟩]
  anchors := []
  instructions :=
    [⟨0, none, .push (.var 0 false)⟩,
     ⟨1, none, .push (.constant .null)⟩,
     ⟨2, none, .binop (some .eq)⟩,
     ⟨3, none, .conditionalGoto 5 false⟩,
     ⟨4, none, .leave⟩,
     ⟨5, none, .push (.var 0 false)⟩,
     ⟨6, none, .fieldReference true⟩,
     ⟨7, none, .leave⟩]

/-- Behind the read the volatile field is bound, and there is a visit that rebound it. -/
theorem binding_of_untracked_in_readOfNull :
    let c : Context := ⟨readOfNull, .empty, AnalysisConfig.standard.resolver, .empty⟩
    let decl : VariableDecl := ⟨"f", .object, .field, true, []⟩
    c.procedure.vars[0]? = some decl ∧ decl.isUntracked = true ∧
      ∃ p, c.Reaches p ∧ p.frame.binding? 0 = some (.notNull .object) ∧
        ∃ q r, c.Reaches q ∧ c.Rebound 0 q r ∧ Relation.ReflTransGen (c.Retains 0) r p := by
  intro c decl
  have hstate : ∃ p ∈ c.wave 6, p.frame.binding? 0 = some (.notNull .object) := by decide +kernel
  obtain ⟨p, hp, hbound⟩ := hstate
  have hreaches : c.Reaches p := reaches_iff_exists_mem_wave.mpr ⟨6, hp⟩
  exact ⟨rfl, rfl, p, hreaches, hbound, ((binding_of_untracked rfl rfl hreaches _).mp hbound).2⟩

/-- Volatile fields are bound in some states of procedures that are valid. -/
theorem untracked_bound :
    let c : Context := ⟨readOfNull, .empty, AnalysisConfig.standard.resolver, .empty⟩
    readOfNull.validate = .ok readOfNull ∧ ∃ decl, c.procedure.vars[0]? = some decl ∧ decl.kind = .field ∧
      decl.volatile = true ∧ ∃ p ∈ c.stateSpace, p.frame.binding? 0 ≠ none := by
  intro c
  have hstate : ∃ p ∈ c.wave 6, p.index = 7 ∧ p.frame.binding? 0 ≠ none := by decide +kernel
  obtain ⟨p, hp, hindex, hbound⟩ := hstate
  have hat : c.procedure.instructions[p.index]? = some ⟨7, none, .leave⟩ := by
    rw [hindex]
    rfl
  exact ⟨by decide +kernel, _, rfl, rfl, rfl, p, mem_stateSpace_of_mem_wave hp hat, hbound⟩

end Context

end NullCheck
