import NullCheck.Procedure.Instruction

/-!
# Findings

A finding is a defect at an instruction of a procedure. Every kind of finding is a rule with an identifier, a name
and a description. Findings are put in order by kind, instruction, anchor and argument.
-/

namespace NullCheck

/-- How grave a finding is. -/
inductive Level where
  | note
  | warning
deriving DecidableEq, Repr

def Level.name : Level → String
  | .note => "note"
  | .warning => "warning"

/-- A kind of finding. -/
inductive FindingKind where
  | nullAssignment
  | nullableReturn
  | fieldNpe
  | callNpe
  | unboxingNpe
  | nullArgument
  | nullArgumentUnannotated
  | invalidCast
  | constantCondition (value : Bool)
  | redundantInstanceof (canBeNull : Bool)
  | analysisTooComplex
deriving DecidableEq, Repr

namespace FindingKind

def all : List FindingKind :=
  [.nullAssignment, .nullableReturn, .fieldNpe, .callNpe, .unboxingNpe, .nullArgument, .nullArgumentUnannotated,
   .invalidCast, .constantCondition true, .redundantInstanceof false, .analysisTooComplex]

def ruleId : FindingKind → String
  | .nullAssignment => "NULL_ASSIGNMENT"
  | .nullableReturn => "NULLABLE_RETURN"
  | .fieldNpe => "FIELD_NPE"
  | .callNpe => "CALL_NPE"
  | .unboxingNpe => "UNBOXING_NPE"
  | .nullArgument => "NULL_ARGUMENT"
  | .nullArgumentUnannotated => "NULL_ARGUMENT_UNANNOTATED"
  | .invalidCast => "INVALID_CAST"
  | .constantCondition _ => "CONSTANT_CONDITION"
  | .redundantInstanceof _ => "REDUNDANT_INSTANCEOF"
  | .analysisTooComplex => "ANALYSIS_TOO_COMPLEX"

def name : FindingKind → String
  | .nullAssignment => "Null assigned to not-null variable"
  | .nullableReturn => "Nullable value returned"
  | .fieldNpe => "Field access may produce NullPointerException"
  | .callNpe => "Method call may produce NullPointerException"
  | .unboxingNpe => "Unboxing may produce NullPointerException"
  | .nullArgument => "Null passed to not-null parameter"
  | .nullArgumentUnannotated => "Null passed to unannotated parameter"
  | .invalidCast => "Cast may produce ClassCastException"
  | .constantCondition _ => "Constant condition"
  | .redundantInstanceof _ => "Redundant instanceof"
  | .analysisTooComplex => "Analysis too complex"

/-- What the rule says. -/
def description : FindingKind → String
  | .nullAssignment => "A value that may be null is assigned to a variable annotated as not-null."
  | .nullableReturn =>
    "A value that may be null is returned from a method whose result is checked for nullness."
  | .fieldNpe => "A field is dereferenced through a qualifier that may be null."
  | .callNpe => "A method is invoked on a receiver that may be null."
  | .unboxingNpe => "A boxed value that may be null is unboxed."
  | .nullArgument => "An argument that may be null is passed to a parameter annotated as not-null."
  | .nullArgumentUnannotated =>
    "An argument known to be nullable is passed to a parameter without nullability annotations."
  | .invalidCast => "A reference cast can never succeed for a non-null value."
  | .constantCondition _ => "A comparison always evaluates to the same value."
  | .redundantInstanceof _ => "An instanceof check always succeeds for non-null operands."
  | .analysisTooComplex => "The procedure exceeded the state budget and was not fully analyzed."

def level : FindingKind → Level
  | .nullArgumentUnannotated | .analysisTooComplex => .note
  | _ => .warning

/-- The place of a kind in the order of kinds: by rule, then `false` before `true`. -/
def rank : FindingKind → Nat × Nat
  | .nullAssignment => (0, 0)
  | .nullableReturn => (1, 0)
  | .fieldNpe => (2, 0)
  | .callNpe => (3, 0)
  | .unboxingNpe => (4, 0)
  | .nullArgument => (5, 0)
  | .nullArgumentUnannotated => (6, 0)
  | .invalidCast => (7, 0)
  | .constantCondition value => (8, value.toNat)
  | .redundantInstanceof canBeNull => (9, canBeNull.toNat)
  | .analysisTooComplex => (10, 0)

end FindingKind

/-- A finding. -/
structure Finding where
  kind : FindingKind
  /-- The position of the instruction. -/
  instruction : Nat
  anchor : Option AnchorId
  /-- The position of the argument that is at fault. -/
  argument : Option Nat
deriving DecidableEq, Repr

namespace Finding

/-- The key of nothing, or of a number, nothing coming first. -/
def optionKey : Option Nat → Nat
  | none => 0
  | some n => n + 1

/-- The key by which findings are put in order. -/
def key (f : Finding) : List Nat :=
  [f.kind.rank.1, f.kind.rank.2, f.instruction, optionKey f.anchor, optionKey f.argument]

/-- Findings in order, each once. -/
def inOrder (fs : List Finding) : List Finding := (fs.mergeSort fun a b => (compare a.key b.key).isLE).eraseReps

/-- Different findings have different keys. -/
theorem key_injective {a b : Finding} (h : a.key = b.key) : a = b := by
  obtain ⟨ka, ia, aa, ga⟩ := a
  obtain ⟨kb, ib, ab, gb⟩ := b
  simp only [key, List.cons.injEq, and_true] at h
  obtain ⟨h1, h2, h3, h4, h5⟩ := h
  have hopt : ∀ {x y : Option Nat}, optionKey x = optionKey y → x = y := by
    intro x y hxy
    cases x <;> cases y <;> simp_all [optionKey]
  have hk : ka = kb := by
    revert h1 h2
    rcases ka with _ | _ | _ | _ | _ | _ | _ | _ | (_ | _) | (_ | _) | _ <;>
      rcases kb with _ | _ | _ | _ | _ | _ | _ | _ | (_ | _) | (_ | _) | _ <;> decide
  rw [hk, h3, hopt h4, hopt h5]

end Finding

end NullCheck
