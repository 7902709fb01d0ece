import NullCheck.Proofs.Exploration
import NullCheck.Proofs.State.Numbering

/-!
# Visits do not see the numbers of slots

An instruction that is visited in two frames that resemble each other finds the same in both, and goes on in the same
places, with frames that resemble each other again. So do all instructions that are visited after it: which slots the
classes of a frame sit in shows nowhere.

## The architecture

* **`Visit.Resembles`**: the same findings, and successors that resemble each other, one by one.
* **`Visit.Checked.Resembles`**: the same of what is left after a check.
* **`Frame.Resembles.demandNotNull`**, **`Frame.Resembles.follow`** and their like: one lemma for each part of a visit.
* **`Frame.Resembles.visit_resembles`**: so does a whole visit.
* **`Successor.Resembles.path`**: a path from one of two pairs is matched, step by step, by a path from the other one.
* **`Context.slots_unobservable`**: the headline.
-/

namespace NullCheck

structure Successor.Resembles (q r : Successor) : Prop where
  index : q.index = r.index
  frame : q.frame.Resembles r.frame

namespace Visit

/-- Successors that resemble each other, one by one, and the same findings. -/
structure Resembles (v w : Visit) : Prop where
  next : List.Forall₂ Successor.Resembles v.next w.next
  defects : v.defects = w.defects
  built : v.built = w.built
  observation : v.observation = w.observation
  pruned : v.pruned = w.pruned
  forks : v.forks = w.forks

structure Checked.Resembles (k l : Checked) : Prop where
  frame : k.frame.Resembles l.frame
  defects : k.defects = l.defects
  built : k.built = l.built

end Visit

namespace Frame.Resembles

open Visit

variable {f g : Frame} (h : f.Resembles g)
include h

/-- A visit that goes on in one place. -/
theorem advance (i : Instruction) (defects : List Defect) (built : List Value) (observation : Observation) :
    Visit.Resembles { Visit.advance i f with defects := defects, built := built, observation := observation }
      { Visit.advance i g with defects := defects, built := built, observation := observation } :=
  ⟨.cons ⟨rfl, h⟩ .nil, rfl, rfl, rfl, rfl, rfl⟩

theorem rebindNotNull (c : Context) (v : Value) :
    (rebindNotNull c f v).1.Resembles (rebindNotNull c g v).1 ∧ (rebindNotNull c f v).2 = (rebindNotNull c g v).2 := by
  unfold Visit.rebindNotNull
  split
  · exact ⟨h.assign _ _ _, rfl⟩
  · exact ⟨h, rfl⟩

end Frame.Resembles

namespace Visit.Checked.Resembles

variable {k l : Checked} (h : k.Resembles l)
include h

/-- A demand fails in both frames or in neither. -/
theorem demandNotNull (c : Context) (v : Value) (d : Defect) :
    (demandNotNull c k v d).Resembles (demandNotNull c l v d) := by
  have hr := h.frame.applyNotNull v
  obtain ⟨hframe, hbuilt⟩ := hr.frame.rebindNotNull c v
  unfold Visit.demandNotNull
  simp only [hr.holds]
  split
  · exact ⟨hr.frame, h.defects, h.built⟩
  · exact ⟨hframe, congrArg (· ++ [d]) h.defects, congrArg₂ (· ++ ·) h.built hbuilt⟩

/-- Both checks pop the same argument and demand the same of it. -/
theorem checkArgument (c : Context) (nullness : List Nullness) (position : Nat) :
    (checkArgument c nullness k position).Resembles (checkArgument c nullness l position) := by
  obtain ⟨v, f, g, hf, hg, hframe⟩ := h.frame.pop
  have hpopped : Checked.Resembles { k with frame := f } { l with frame := g } := ⟨hframe, h.defects, h.built⟩
  unfold Visit.checkArgument
  simp only [hf, hg, hframe.checkNotNullable]
  split
  · exact hpopped.demandNotNull c v _
  · split
    · exact hpopped
    · exact ⟨hframe, congrArg (· ++ [_]) h.defects, h.built⟩
  · exact hpopped

end Visit.Checked.Resembles

namespace Frame.Resembles

open Visit

variable {f g : Frame} (h : f.Resembles g)
include h

theorem clean : (Checked.clean f).Resembles (.clean g) := ⟨h, rfl, rfl⟩

/-! ## Assignments, casts and calls -/

/-- Both assignments pop the same source and target; the rest is memory. -/
theorem visit_assign (c : Context) (i : Instruction) : (Visit.assign c i f).Resembles (Visit.assign c i g) := by
  obtain ⟨source, f₁, g₁, hf₁, hg₁, h₁⟩ := h.pop
  obtain ⟨target, f₂, g₂, hf₂, hg₂, h₂⟩ := h₁.pop
  unfold Visit.assign
  simp only [hf₁, hg₁, hf₂, hg₂]
  split
  · exact (h₂.push target).advance i [] [] .none
  · rename_i decl _
    -- the check against the annotations of the target comes first
    have hchecked : (if c.resolver.isNotNull decl.annotations then f₂.applyNotNull source else ⟨true, f₂⟩).Resembles
        (if c.resolver.isNotNull decl.annotations then g₂.applyNotNull source else ⟨true, g₂⟩) := by
      split
      · exact h₂.applyNotNull source
      · exact ⟨rfl, h₂⟩
    simp only [hchecked.holds]
    refine Resembles.advance (Resembles.push ?_ target) i _ [] .none
    split
    · exact hchecked.frame
    · exact hchecked.frame.assign c.scope target source

/-- The condition of a cast is the same in both, and so is what becomes of it. -/
theorem checkCast (c : Context) (cast : TypeCast) : (checkCast c cast f).Resembles (checkCast c cast g) := by
  unfold Visit.checkCast
  split
  · exact h.clean
  · simp only
    split
    · exact ⟨h, rfl, rfl⟩
    · rename_i condition _
      have hr := h.applyCast c.scope condition
      exact ⟨hr.frame, by rw [hr.holds], rfl⟩

/-- A cast leaves the same operand, or the same unboxed one. -/
theorem typeCast (c : Context) (i : Instruction) (cast : TypeCast) :
    (Visit.typeCast c i cast f).Resembles (Visit.typeCast c i cast g) := by
  have hchecked := h.checkCast c cast
  obtain ⟨top, f', g', hf', hg', h'⟩ := hchecked.frame.pop
  unfold Visit.typeCast
  simp only [hf', hg', hchecked.defects, hchecked.built]
  split
  · exact (h'.push top.unbox).advance i _ _ .none
  · exact hchecked.frame.advance i _ _ .none

/-- By induction on the arguments that are left to check. -/
theorem checkArguments (c : Context) (call : MethodCall) :
    (checkArguments c call f).Resembles (checkArguments c call g) := by
  have hfold : ∀ (positions : List Nat) {k l : Checked}, k.Resembles l →
      (positions.foldl (checkArgument c (c.argumentNullness call)) k).Resembles
        (positions.foldl (checkArgument c (c.argumentNullness call)) l) := by
    intro positions
    induction positions with
    | nil => exact id
    | cons position positions ih => exact fun h => ih (h.checkArgument c _ position)
  exact hfold _ h.clean

/-- Both calls check the same arguments and the same qualifier, and push the same result. -/
theorem methodCall (c : Context) (i : Instruction) (call : MethodCall) :
    (Visit.methodCall c i call f).Resembles (Visit.methodCall c i call g) := by
  have harguments := h.checkArguments c call
  obtain ⟨qualifier, f', g', hf', hg', h'⟩ := harguments.frame.pop
  unfold Visit.methodCall
  simp only [hf', hg']
  -- the arguments are checked, now the qualifier
  have hcalled : Checked.Resembles { Visit.checkArguments c call f with frame := f' }
      { Visit.checkArguments c call g with frame := g' } := ⟨h', harguments.defects, harguments.built⟩
  have hdemanded := hcalled.demandNotNull c qualifier (if call.kind = .unboxing then .unboxedNull else .callOnNull)
  simp only [hdemanded.defects, hdemanded.built]
  refine Resembles.advance ?_ i _ _ .none
  split
  · exact (hdemanded.frame.push _).flushFields c.scope
  · exact hdemanded.frame.push _

/-! ## Comparisons -/

theorem showsNotNull (v : Value) : showsNotNull f v = showsNotNull g v := by
  unfold Visit.showsNotNull
  split
  · exact h.isNotNull _
  · rfl
  · rfl

/-- The value that is shown not to be null is the same in both, if there is one. -/
theorem shareNotNull (c : Context) (left right : Value) :
    (shareNotNull c f left right).1.Resembles (shareNotNull c g left right).1 ∧
      (shareNotNull c f left right).2 = (shareNotNull c g left right).2 := by
  unfold Visit.shareNotNull
  simp only [h.showsNotNull]
  split
  · exact ⟨(h.applyCondition c.scope _).frame, rfl⟩
  · exact ⟨h, rfl⟩

/-- Comparing constants asks the frame only whether a value can be NaN. -/
theorem compareConstants (i : Instruction) (operator : BinaryOperator) (left right : Value) :
    (compareConstants i f operator left right).Resembles (compareConstants i g operator left right) := by
  unfold Visit.compareConstants
  simp only [h.canBeNaN]
  exact (h.push _).advance i [] [] _

/-- An outcome is followed in both frames or in none. -/
theorem follow (c : Context) (condition : Value) (equal : Bool) (left right : Value) :
    Option.Rel (fun r r' => r.1.Resembles r'.1 ∧ r.2 = r'.2) (follow c f condition equal left right)
      (follow c g condition equal left right) := by
  have hr := h.applyCondition c.scope condition
  unfold Visit.follow
  simp only [hr.holds]
  split
  · refine .some ?_
    split
    · exact hr.frame.shareNotNull c left right
    · exact ⟨hr.frame, rfl⟩
  · exact .none

/-- Each side of a fork is followed in both frames or in neither. -/
theorem fork (c : Context) (i : Instruction) (operator : BinaryOperator) (left right : Value) (kind : RelationKind)
    (negated : Bool) (v w : Value) :
    (fork c i operator f left right (.relation kind negated v w)).Resembles
      (fork c i operator g left right (.relation kind negated v w)) := by
  -- either outcome is followed in both frames or in none, which makes four cases
  have hyes := h.follow c (.relation kind negated v w) (!negated) left right
  have hno := h.follow c (.relation kind (!negated) v w) negated left right
  unfold Visit.fork
  simp only [Value.negate]
  generalize Visit.follow c f (.relation kind negated v w) (!negated) left right = yes at hyes
  generalize Visit.follow c g (.relation kind negated v w) (!negated) left right = yes' at hyes
  generalize Visit.follow c f (.relation kind (!negated) v w) negated left right = no at hno
  generalize Visit.follow c g (.relation kind (!negated) v w) negated left right = no' at hno
  cases hyes with
  | none =>
    cases hno with
    | none => exact ⟨.nil, rfl, rfl, rfl, rfl, rfl⟩
    | some hno => exact ⟨.cons ⟨rfl, hno.1.push _⟩ .nil, rfl, by simp [hno.2], by simp [hno.1.isNull], rfl, rfl⟩
  | some hyes =>
    cases hno with
    | none => exact ⟨.cons ⟨rfl, hyes.1.push _⟩ .nil, rfl, by simp [hyes.2], rfl, rfl, rfl⟩
    | some hno =>
      exact ⟨.cons ⟨rfl, hyes.1.push _⟩ (.cons ⟨rfl, hno.1.push _⟩ .nil), rfl, by simp [hyes.2, hno.2],
        by simp [hno.1.isNull], rfl, rfl⟩

/-- Both operators pop the same sides, and take the same way by what these are. -/
theorem binop (c : Context) (i : Instruction) (operator : Option BinaryOperator) :
    (Visit.binop c i operator f).Resembles (Visit.binop c i operator g) := by
  obtain ⟨right, f₁, g₁, hf₁, hg₁, h₁⟩ := h.pop
  obtain ⟨left, f₂, g₂, hf₂, hg₂, h₂⟩ := h₁.pop
  unfold Visit.binop
  simp only [hf₁, hg₁, hf₂, hg₂, h₂.canBeNaN]
  split
  · exact (h₂.push _).advance i [] [] .either
  · split
    · exact h₂.compareConstants i _ left right
    · split
      · -- the operands may have been exchanged, alike for both frames
        rename_i relation hrelation
        obtain ⟨kind, flip, -, rfl | ⟨-, rfl⟩⟩ := Value.exists_of_compare? hrelation
        · exact h₂.fork c i _ left right kind _ left right
        · exact h₂.fork c i _ left right kind.flipped _ right left
      · split
        · exact (h₂.push _).advance i [] _ .either
        · exact (h₂.push _).advance i [] [] _
        · exact (h₂.push _).advance i [] [] .either

/-! ## Jumps -/

/-- Both jumps test the same condition, which holds or fails alike. -/
theorem conditionalGoto (c : Context) (i : Instruction) (target : Nat) (negated : Bool) :
    (Visit.conditionalGoto c i target negated f).Resembles (Visit.conditionalGoto c i target negated g) := by
  obtain ⟨condition, f', g', hf', hg', h'⟩ := h.pop
  unfold Visit.conditionalGoto
  simp only [hf', hg']
  split
  · exact ⟨.cons ⟨rfl, h'⟩ .nil, rfl, rfl, rfl, rfl, rfl⟩
  · rename_i kind flag left right
    generalize (if negated then (Value.relation kind flag left right).negate else _) = jump
    -- a relation: the jump takes the side on which it holds, the other side goes on
    have htaken := h'.applyCondition c.scope jump
    have hpassed := h'.applyCondition c.scope jump.negate
    simp only [htaken.holds, hpassed.holds]
    refine ⟨List.rel_append ?_ ?_, rfl, rfl, rfl, rfl, rfl⟩
    · split
      · exact .cons ⟨rfl, htaken.frame⟩ .nil
      · exact .nil
    · split
      · exact .cons ⟨rfl, hpassed.frame⟩ .nil
      · exact .nil
  · exact ⟨.cons ⟨rfl, h'⟩ (.cons ⟨rfl, h'⟩ .nil), rfl, rfl, rfl, rfl, rfl⟩

/-! ## All instructions -/

/-- **An instruction finds the same in frames that resemble each other,** and goes on in frames that do. -/
theorem visit_resembles (c : Context) (i : Instruction) : (visit c i f).Resembles (visit c i g) := by
  unfold visit
  cases i.operation with
  | push operand => exact (h.push _).advance i [] _ .none
  | pop => exact h.pop_snd.advance i [] [] .none
  | dup =>
    have hpeek : f.peek? = g.peek? := congrArg List.head? h.stack
    rw [hpeek]
    exact (h.push _).advance i [] [] .none
  | assign => exact h.visit_assign c i
  | checkReturnValue =>
    obtain ⟨v, f', g', hf', hg', h'⟩ := h.pop
    simp only [hf', hg', h'.checkNotNullable]
    exact h'.advance i _ [] .none
  | fieldReference physical =>
    have hmarked : f.withFieldReferenced.Resembles g.withFieldReferenced :=
      ⟨h.partition, h.stack, h.facts, h.bindings, rfl⟩
    obtain ⟨qualifier, f', g', hf', hg', h'⟩ := hmarked.pop
    simp only [hf', hg']
    split
    · have hdemanded := h'.clean.demandNotNull c qualifier .fieldOfNull
      simp only [hdemanded.defects, hdemanded.built]
      exact hdemanded.frame.advance i _ _ .none
    · exact h'.advance i [] [] .none
  | typeCast cast => exact h.typeCast c i cast
  | methodCall call => exact h.methodCall c i call
  | binop operator => exact h.binop c i operator
  | goto target => exact ⟨.cons ⟨rfl, h⟩ .nil, rfl, rfl, rfl, rfl, rfl⟩
  | conditionalGoto target negated => exact h.conditionalGoto c i target negated
  | flushVariable id => exact (h.flushVariable id).advance i [] [] .none
  | leave => exact ⟨.nil, rfl, rfl, rfl, rfl, rfl⟩

end Frame.Resembles

/-! ## Paths -/

/-- What comes next in one visit has a partner in the other one. -/
theorem Visit.Resembles.exists_of_mem_next {v w : Visit} (h : v.Resembles w) {q : Successor} (hq : q ∈ v.next) :
    ∃ r ∈ w.next, q.Resembles r := by
  have hnext := h.next
  generalize v.next = qs at hnext hq
  generalize w.next = rs at hnext
  induction hnext with
  | nil => cases hq
  | cons hfirst _ ih =>
    rcases List.mem_cons.mp hq with rfl | hq
    · exact ⟨_, List.mem_cons_self .., hfirst⟩
    · obtain ⟨r, hr, hqr⟩ := ih hq
      exact ⟨r, List.mem_cons_of_mem _ hr, hqr⟩

namespace Successor.Resembles

variable {c : Context} {p p' q : Successor}

theorem symm (h : p.Resembles q) : q.Resembles p := ⟨h.index.symm, h.frame.symm⟩

/-- **A step from one pair is matched by a step from every pair that resembles it.** -/
theorem step (h : p.Resembles q) (hnext : c.Next p p') : ∃ q', c.Next q q' ∧ p'.Resembles q' := by
  obtain ⟨i, hi, hmem⟩ := hnext
  obtain ⟨q', hq', hresembles⟩ := (h.frame.visit_resembles c i).exists_of_mem_next hmem
  exact ⟨q', ⟨i, h.index ▸ hi, hq'⟩, hresembles⟩

/-- And so is a whole path, by induction on its length. -/
theorem path (h : p.Resembles q) (hpath : Relation.ReflTransGen c.Next p p') :
    ∃ q', Relation.ReflTransGen c.Next q q' ∧ p'.Resembles q' := by
  induction hpath with
  | refl => exact ⟨q, .refl, h⟩
  | tail _ hnext ih =>
    obtain ⟨r, hpath, hr⟩ := ih
    obtain ⟨q', hq', hresembles⟩ := hr.step hnext
    exact ⟨q', hpath.tail hq', hresembles⟩

end Successor.Resembles

/-! ## The headline -/

/-- **The numbers of slots are unobservable.** Let two well-formed frames be equal but for the slots that their classes
sit in, and for slots that are empty. Then every instruction finds the same in both: the same defects and values, and
the same about its outcomes; and it goes on in as many places, with equal indices, and one by one with frames that are
again equal but for their slots. So whatever is reached from one of the frames is reached from the other one. -/
theorem Context.slots_unobservable {c : Context} {f g : Frame} (h : f.Resembles g) :
    (∀ i, (visit c i f).Resembles (visit c i g)) ∧
      (∀ n p, Relation.ReflTransGen c.Next ⟨n, f⟩ p →
        ∃ q, Relation.ReflTransGen c.Next ⟨n, g⟩ q ∧ p.Resembles q) ∧
      ∀ n q, Relation.ReflTransGen c.Next ⟨n, g⟩ q →
        ∃ p, Relation.ReflTransGen c.Next ⟨n, f⟩ p ∧ p.Resembles q := by
  have hpair : ∀ n, (Successor.mk n f).Resembles ⟨n, g⟩ := fun n => ⟨rfl, h⟩
  refine ⟨h.visit_resembles c, fun n p hpath => (hpair n).path hpath, fun n q hpath => ?_⟩
  obtain ⟨p, hp, hqp⟩ := (hpair n).symm.path hpath
  exact ⟨p, hp, hqp.symm⟩

/-- A variable is known not to be null, in slot 0 of one frame, and in slot 2 of the other one, where another variable
was forgotten. To compare it to a variable that is new moves its class in the second frame only. -/
theorem Context.slots_unobservable_of_forgotten :
    let c : Context := ⟨⟨"m", none, [⟨"x", .object, .local, false, []⟩, ⟨"y", .object, .local, false, []⟩,
      ⟨"z", .object, .local, false, []⟩], [], []⟩, .empty, AnalysisConfig.standard.resolver, .empty⟩
    let i : Instruction := ⟨0, none, .binop (some .eq)⟩
    let x := Value.var 0 false
    let y := Value.var 1 false
    let z := Value.var 2 false
    let f := (((Frame.empty.applyNotNull x).frame).push x).push y
    let g := ((((Frame.empty.applyNotNull z).frame.applyNotNull x).frame.flushVariable 2).push x).push y
    f.partition.slot? x = some 0 ∧ g.partition.slot? x = some 2 ∧ f.Resembles g ∧
      (visit c i f).Resembles (visit c i g) ∧
      (visit c i f).next.map (fun q => q.frame.partition.slot? x) = [some 0, some 0] ∧
      (visit c i g).next.map (fun q => q.frame.partition.slot? x) = [some 0, some 2] := by
  intro c i x y z f g
  have hf : f.partition = ⟨[[x], [.null]], [.of 0 1]⟩ := by decide
  have hg : g.partition = ⟨[[], [.null], [x]], [.of 1 2]⟩ := by decide
  have hwellFormed : f.partition.WellFormed := Frame.applyNotNull_wellFormed Partition.WellFormed.empty x
  have hwellFormed' : g.partition.WellFormed := Frame.flushVariable_wellFormed
    (Frame.applyNotNull_wellFormed (Frame.applyNotNull_wellFormed Partition.WellFormed.empty z) x) 2
  have hpair : ∀ {classes : List (List Value)} {a b m n : Nat},
      (Partition.mk classes [.of m n]).areDistinct a b = true → a = m ∧ b = n ∨ a = n ∧ b = m :=
    fun hd => SlotPair.of_eq_of_iff.mp (List.mem_singleton.mp (of_decide_eq_true hd))
  have hfg : f.partition.Grows g.partition := by
    rw [hf, hg]
    refine .of_renaming (fun a => if a = 0 then 2 else a) (fun {a v} hv => ?_) fun {a b} hd => ?_
    · obtain _ | _ | a := a
      · exact hv
      · exact hv
      · simp [Partition.members] at hv
    · rcases hpair hd with ⟨rfl, rfl⟩ | ⟨rfl, rfl⟩ <;> decide
  have hgf : g.partition.Grows f.partition := by
    rw [hf, hg]
    refine .of_renaming (fun a => if a = 2 then 0 else a) (fun {a v} hv => ?_) fun {a b} hd => ?_
    · obtain _ | _ | _ | a := a
      · simp [Partition.members] at hv
      · exact hv
      · exact hv
      · simp [Partition.members] at hv
    · rcases hpair hd with ⟨rfl, rfl⟩ | ⟨rfl, rfl⟩ <;> decide
  have hresembles : f.Resembles g :=
    ⟨.of_grows hwellFormed hwellFormed' hfg hgf, by decide, by decide, by decide, by decide⟩
  exact ⟨by decide, by decide, hresembles, (slots_unobservable hresembles).1 i, by decide, by decide⟩

end NullCheck
