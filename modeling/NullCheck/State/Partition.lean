import NullCheck.State.Sorted
import NullCheck.Value.Basic

/-!
# Classes of equal values

Atoms that are known to be equal form a class, and some pairs of classes are known to differ. A class sits in a
slot; an emptied slot stays and is taken by the next class that is made, the first empty one first. A class that
differs from the class of null holds no null; nor does one with a boxed value or a constant other than null.

A class is made of an atom as soon as the atom is compared. Everything else is asked of a class by its slot.
-/

namespace NullCheck

/-- Two slots, the smaller first. -/
structure SlotPair where
  low : Nat
  high : Nat
deriving DecidableEq, Repr, Ord, Hashable

def SlotPair.of (a b : Nat) : SlotPair := ⟨min a b, max a b⟩

theorem SlotPair.of_comm (a b : Nat) : SlotPair.of a b = SlotPair.of b a := by
  simp [SlotPair.of, Nat.min_comm, Nat.max_comm]

/-- The pair after every slot in it was renamed. -/
def SlotPair.map (f : Nat → Nat) (d : SlotPair) : SlotPair := .of (f d.low) (f d.high)

/-- Classes of equal atoms, by slot, and pairs of slots whose classes differ. -/
structure Partition where
  classes : List (List Value)
  distinct : List SlotPair
deriving DecidableEq, Repr, Hashable

namespace Partition

def empty : Partition := ⟨[], []⟩

variable (p : Partition)

def members (slot : Nat) : List Value := p.classes[slot]?.getD []

def slot? (v : Value) : Option Nat := p.classes.findIdx? fun c => v ∈ c

def areDistinct (a b : Nat) : Bool := SlotPair.of a b ∈ p.distinct

def constant? (slot : Nat) : Option Value := (p.members slot).find? Value.isConstant

/-- Whether the class in a slot is known not to be null. -/
def isNotNull (slot : Nat) : Bool :=
  (p.members slot).any (fun v => v.isBoxed || v.isNonNullConstant) ||
    match p.slot? .null with
    | some n => n ≠ slot && p.areDistinct slot n
    | none => false

def nullMeetsBoxed (a b : Nat) : Bool := .null ∈ p.members a && (p.members b).any Value.isBoxed

/-- Whether two classes cannot be equal for what is in them: both hold a constant, or null meets a boxed value. -/
def inConflict (a b : Nat) : Bool :=
  ((p.constant? a).isSome && (p.constant? b).isSome) || p.nullMeetsBoxed a b || p.nullMeetsBoxed b a

/-! ## Changes -/

/-- The slot of an atom, which gets a class of its own if it has none: in the first empty slot, or in a new one. -/
def ensure (v : Value) : Nat × Partition :=
  match p.slot? v with
  | some slot => (slot, p)
  | none =>
    match p.classes.findIdx? List.isEmpty with
    | some slot => (slot, { p with classes := p.classes.set slot [v] })
    | none => (p.classes.length, { p with classes := p.classes ++ [[v]] })

/-- Notes that two slots differ. -/
def separate (a b : Nat) : Partition := { p with distinct := Sorted.insert (.of a b) p.distinct }

/-- A slot after the class in `old` has moved to `new`. -/
def renamed (old new slot : Nat) : Nat := if slot = old then new else slot

/-- Moves the class of the larger slot into the smaller. -/
def merge (a b : Nat) : Nat × Partition :=
  let kept := min a b
  let emptied := max a b
  -- pairs name slots, so those of the emptied slot are renamed to the kept one
  let classes := (p.classes.set kept (Sorted.insertAll (p.members emptied) (p.members kept))).set emptied []
  (kept, ⟨classes, Sorted.insertAll (p.distinct.map (SlotPair.map (renamed emptied kept))) []⟩)

/-- Removes the atoms that are to be forgotten. An emptied class differs from none. -/
def forget (forgotten : Value → Bool) : Partition :=
  let classes := p.classes.map fun c => c.filter fun v => !forgotten v
  let isEmpty (slot : Nat) : Bool := (classes[slot]?.getD []).isEmpty
  ⟨classes, p.distinct.filter fun d => !isEmpty d.low && !isEmpty d.high⟩

end Partition

end NullCheck
