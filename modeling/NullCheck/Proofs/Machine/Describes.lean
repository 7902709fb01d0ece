import NullCheck.Proofs.Machine.Basic
import NullCheck.Proofs.State.Reachable
import NullCheck.Proofs.State.Stack

/-!
# Frames that describe machines

A frame describes a machine when the values on its stack allow those on the machine's stack, and the environment of
the machine satisfies the partition. This module says what is known of the machine then, and that conditions that
are true of the machine hold in the frame and leave it a description.

## The architecture

* **`Value.Allows`**: what a symbolic value says of a cell.
* **`Environment.valuation`**: an environment gives a value to every atom.
* **`Frame.Fits`**: the partition is well-formed, satisfied by the environment, and free of NaN.
* **`Frame.Fits.applyEquality`, `Frame.Fits.applyCondition`, `Frame.Fits.applyNotNull`, `Frame.Fits.assign`**: one
  lemma for each operation that visits use.
-/

namespace NullCheck

instance : Infinite Datum := Infinite.of_injective Datum.object fun _ _ h => Datum.object.inj h

/-! ## Values and cells -/

/-- A symbolic value allows a cell, in an environment. Comparisons and coercions do not come up in machines. -/
def Value.Allows (env : Environment) : Value → Cell → Prop
  | .unknown, a => a.origin = none
  | .var id _, a => a = ⟨env id, some id⟩
  | .constant c, a => a = .fresh (.constant c) ∧ c.isNaN = false
  | .typed _ nullness, a => a.origin = none ∧ (nullness = .nonNull → a.value ≠ .null)
  | .notNull _, a => a.origin = none ∧ a.value ≠ .null
  | .relation .., _ | .boxed _, _ | .unboxed _, _ => False

/-- The value of every atom in an environment. What is boxed is some object. -/
def Environment.valuation (env : Environment) : Valuation Datum where
  value
    | .var id _ => env id
    | .constant c => .constant c
    | _ => .object 0
  constant_inj h := Datum.constant.inj h
  boxed_ne_null _ h := Datum.noConfusion h

namespace Value

variable {env : Environment} {v w : Value} {a b : Cell}

/-- The variable that a value follows is the one that the cell was read from. -/
theorem Allows.origin_eq (h : v.Allows env a) : a.origin = v.varId? := by
  cases v with
  | unknown => exact h
  | var id viaMethods =>
    rw [show a = ⟨env id, some id⟩ from h]
    rfl
  | constant c =>
    rw [h.1]
    rfl
  | typed t nullness => exact h.1
  | notNull t => exact h.1
  | relation => cases h
  | boxed => cases h
  | unboxed => cases h

/-- An atom has the value of its cell. -/
theorem Allows.value_eq (h : v.Allows env a) (hv : v.isAtom) : env.valuation v = a.value := by
  cases v with
  | var id viaMethods => rw [show a = ⟨env id, some id⟩ from h]; rfl
  | constant c => rw [h.1]; rfl
  | boxed => cases h
  | unboxed => cases h
  | unknown => cases hv
  | typed => cases hv
  | notNull => cases hv
  | relation => cases h

/-- No value of the machine is described by a NaN constant. -/
theorem Allows.isNaN_eq (h : v.Allows env a) : v.isNaN = false := by
  cases v with
  | constant c => exact h.2
  | _ => rfl

theorem allows_null : Value.null.Allows env (.fresh .null) := ⟨rfl, rfl⟩

theorem allows_boolean (b : Bool) : (Value.boolean b).Allows env (.fresh (.boolean b)) := ⟨rfl, rfl⟩

end Value

/-! ## Frames and environments -/

namespace Frame

/-- An environment satisfies what a frame knows of equalities, and the frame knows of no NaN. -/
structure Fits (env : Environment) (f : Frame) : Prop where
  wellFormed : f.partition.WellFormed
  satisfies : env.valuation.Satisfies f.partition
  noNaN : ∀ {v}, f.partition.Contains v → v.isNaN = false

namespace Fits

variable {env : Environment} {f : Frame} {v w : Value} {a b : Cell}

/-- Whether a frame fits is a matter of its classes. -/
theorem of_partition {g : Frame} (h : f.Fits env) (hp : g.partition = f.partition) : g.Fits env :=
  ⟨hp ▸ h.wellFormed, hp ▸ h.satisfies, fun hv => h.noNaN (hp ▸ hv)⟩

theorem empty (env : Environment) : Frame.empty.Fits env where
  wellFormed := Partition.WellFormed.empty
  satisfies := Valuation.satisfies_empty _
  noNaN := by
    rintro v ⟨a, ha⟩
    simp [Frame.empty, Partition.empty, Partition.members] at ha

/-! ## What is known -/

/-- What is known to be null is null. -/
theorem eq_null (h : f.Fits env) (ha : v.Allows env a) (hv : f.isNull v = true) : a.value = .null := by
  have hatom : v.isAtom := by
    rw [Frame.isNull, Bool.or_eq_true, Bool.and_eq_true] at hv
    rcases hv with hv | hv
    · rw [of_decide_eq_true hv]
      rfl
    · exact hv.1
  rw [← ha.value_eq hatom]
  exact (isNull_iff h.wellFormed hatom).mp hv _ h.satisfies

/-- What is known to be not null is not null, be it by its class or by its type. -/
theorem ne_null (h : f.Fits env) (ha : v.Allows env a) (hv : f.isNotNull v = true) : a.value ≠ .null := by
  cases v with
  | notNull t => exact ha.2
  | typed t nullness =>
    cases nullness with
    | nonNull => exact ha.2 rfl
    | nullable => cases hv
    | unknown => cases hv
  | unknown => cases hv
  | relation => cases ha
  | boxed => cases ha
  | unboxed => cases ha
  | var id viaMethods =>
    rw [← ha.value_eq rfl]
    exact isNotNull_sound h.satisfies rfl hv
  | constant c =>
    rw [← ha.value_eq rfl]
    exact isNotNull_sound h.satisfies rfl hv

/-- What is known to be a constant is this constant. -/
theorem value_eq_constant (h : f.Fits env) (ha : v.Allows env a) (hv : v.isAtom) {slot : Nat}
    (hslot : f.partition.slot? v = some slot) {c : Constant} (hc : f.partition.constant? slot = some (.constant c)) :
    a.value = .constant c := by
  rw [← ha.value_eq hv]
  exact h.satisfies.equal (Partition.mem_members_of_slot? hslot) (Partition.constant?_spec hc).1

/-- A fitting frame never calls a value of the machine NaN. -/
theorem canBeNaN_eq (h : f.Fits env) (ha : v.Allows env a) : f.canBeNaN v = false := by
  -- no class of a fitting frame has a NaN member
  have hclass : ∀ v, canBeNaN.inClass f v = false := by
    intro v
    unfold canBeNaN.inClass
    rw [← Bool.not_eq_true, Option.any_eq_true]
    rintro ⟨slot, -, hany⟩
    obtain ⟨w, hw, hnan⟩ := List.any_eq_true.mp hany
    rw [h.noNaN ⟨slot, hw⟩] at hnan
    cases hnan
  cases v with
  | var id viaMethods => exact hclass _
  | constant c => exact ha.2
  | boxed => cases ha
  | unboxed => cases ha
  | unknown => rfl
  | typed => rfl
  | notNull => rfl
  | relation => rfl

/-! ## Conditions -/

/-- A comparison of two atoms or other values that is true of the machine holds, and the frame still fits. -/
theorem applyEquality (h : f.Fits env) (ha : v.Allows env a) (hb : w.Allows env b) {negated : Bool}
    (htrue : a.value = b.value ↔ negated = false) :
    (f.applyEquality v w negated).holds = true ∧ (f.applyEquality v w negated).frame.Fits env := by
  have hnoNaN : ∀ {u}, (f.applyEquality v w negated).frame.partition.Contains u → u.isNaN = false := by
    intro u hu
    rcases applyEquality_contains f v w negated hu with hu | rfl | rfl
    · exact h.noNaN hu
    · exact ha.isNaN_eq
    · exact hb.isNaN_eq
  by_cases hatoms : v.isAtom ∧ w.isAtom
  · have hfulfils : env.valuation.Fulfils negated v w := by
      unfold Valuation.Fulfils
      rw [ha.value_eq hatoms.1, hb.value_eq hatoms.2]
      cases negated <;> simp_all
    obtain ⟨hholds, hsatisfies⟩ := applyEquality_sound h.wellFormed hatoms.1 hatoms.2 h.satisfies hfulfils
    exact ⟨hholds, applyEquality_wellFormed h.wellFormed v w negated, hsatisfies, hnoNaN⟩
  · -- only nullness is decided, and what is known of it is true
    rw [applyEquality_of_not_isAtom hatoms]
    refine ⟨?_, h⟩
    cases negated with
    | true => simp
    | false =>
      have heq : a.value = b.value := htrue.mpr rfl
      show (!f.nullnessContradicts v w || false) = true
      rw [Bool.or_false, Bool.not_eq_true', ← Bool.not_eq_true, nullnessContradicts, Bool.or_eq_true, Bool.and_eq_true,
        Bool.and_eq_true]
      rintro (⟨hnot, hnull⟩ | ⟨hnull, hnot⟩)
      · exact h.ne_null ha hnot (heq.trans (h.eq_null hb hnull))
      · exact h.ne_null hb hnot (heq.symm.trans (h.eq_null ha hnull))

/-- That a value is not null holds, if it is true of the machine. -/
theorem applyEquality_null (h : f.Fits env) (ha : v.Allows env a) (hnull : a.value ≠ .null) :
    (f.applyEquality v .null true).frame.Fits env :=
  (h.applyEquality ha Value.allows_null ⟨fun h => absurd h hnull, fun h => Bool.noConfusion h⟩).2

/-- To note that a value is not null is right if it is not. -/
theorem applyNotNull (h : f.Fits env) (ha : v.Allows env a) (hnull : a.value ≠ .null) :
    (f.applyNotNull v).frame.Fits env := by
  unfold Frame.applyNotNull
  split
  · exact h.applyEquality_null ha hnull
  · exact h

/-! ## Assignments -/

/-- What is not based on a variable does not change when the variable does. -/
theorem valuation_update (env : Environment) {id : VariableId} (d : Datum) {v : Value} (hv : v.base? ≠ some id) :
    Environment.valuation (Function.update env id d) v = env.valuation v := by
  cases v with
  | var j viaMethods =>
    have hj : j ≠ id := fun h => hv (congrArg some h)
    show Function.update env id d j = env j
    rw [Function.update_of_ne hj]
  | _ => rfl

/-- When a variable is forgotten, it may take on any value. -/
theorem flushVariable (h : f.Fits env) (id : VariableId) (d : Datum) :
    (f.flushVariable id).Fits (Function.update env id d) where
  wellFormed := flushVariable_wellFormed h.wellFormed id
  satisfies := by
    -- what is left has nothing to do with the variable
    have hold : ∀ {v}, (f.flushVariable id).partition.Contains v →
        Environment.valuation (Function.update env id d) v = env.valuation v := by
      rintro v ⟨slot, hv⟩
      have hforgotten := (Partition.mem_members_forget.mp hv).2
      rw [decide_eq_false_iff_not] at hforgotten
      exact valuation_update env d hforgotten
    have hforget := h.satisfies.forget fun v => decide (v.base? = some id)
    refine ⟨fun hv hw => ?_, fun hd hv hw => ?_⟩
    · rw [hold ⟨_, hv⟩, hold ⟨_, hw⟩]
      exact hforget.equal hv hw
    · rw [hold ⟨_, hv⟩, hold ⟨_, hw⟩]
      exact hforget.differ hd hv hw
  noNaN := by
    rintro v ⟨slot, hv⟩
    exact h.noNaN ⟨slot, (Partition.mem_members_forget.mp hv).1⟩

/-- What an assigned value tells is true of the variable that it was assigned to. -/
theorem adopt {s : Scope} {id : VariableId} {viaMethods : Bool} {d : Datum}
    (h : f.Fits (Function.update env id d)) (ha : v.Allows env a) (hd : a.value = d) :
    (f.adopt s (.var id viaMethods) v).Fits (Function.update env id d) := by
  have htarget : (Value.var id viaMethods).Allows (Function.update env id d) ⟨d, some id⟩ := by
    show _ = _
    rw [Function.update_self]
  cases v with
  | notNull t =>
    have hnull : d ≠ .null := hd ▸ ha.2
    exact (h.applyEquality_null htarget hnull).of_partition (partition_recordType _ s _ t)
  | typed t nullness =>
    refine Fits.of_partition ?_ (partition_recordType _ s _ t)
    cases nullness with
    | nonNull =>
      have hnull : d ≠ .null := hd ▸ ha.2 rfl
      exact h.applyEquality_null htarget hnull
    | nullable => exact h.of_partition (partition_markNullable _ s _)
    | unknown => exact h
  | unknown => exact h
  | relation => cases ha
  | boxed => cases ha
  | unboxed => cases ha
  | constant c => exact (h.applyEquality htarget (w := .constant c) ha ⟨fun _ => rfl, fun _ => hd.symm⟩).2
  | var j m =>
    -- the value of the other variable stays, unless it is the same one
    have hvalue : (Value.var j m).Allows (Function.update env id d) ⟨d, some j⟩ := by
      rw [show a = ⟨env j, some j⟩ from ha] at hd
      show _ = _
      by_cases hj : j = id
      · subst hj
        rw [Function.update_self]
      · rw [Function.update_of_ne hj, ← hd]
    exact (h.applyEquality htarget hvalue ⟨fun _ => rfl, fun _ => rfl⟩).2

/-- An assignment in the frame follows that in the environment. -/
theorem assign {s : Scope} (h : f.Fits env) (id : VariableId) (viaMethods : Bool) (ha : v.Allows env a) :
    (f.assign s (.var id viaMethods) v).Fits (Function.update env id a.value) := by
  unfold Frame.assign
  show (if v = .var id viaMethods then f else _).Fits _
  split
  · rename_i hself
    subst hself
    rw [show a = ⟨env id, some id⟩ from ha]
    rwa [Function.update_eq_self]
  · exact Fits.adopt ((h.flushVariable id a.value).of_partition rfl) ha rfl

end Fits

end Frame

end NullCheck
