import NullCheck.Procedure.Instruction

/-!
# Symbolic values

What is known of a value without running the procedure: that it is the value of a variable, a constant, the boxed or
unboxed form of one of these, some value of a type, the outcome of a comparison, or nothing at all.

Values that may be found equal to each other are *atoms*; those that follow a variable are *tracked*. Comparisons
are kept in a canonical form: a tracked operand on the left, and `==`, `<`, `>`, `instanceof` or the negation of one
of them.
-/

namespace NullCheck

/-- The comparisons of which all others are made. -/
inductive RelationKind where
  | eq
  | lt
  | gt
  | instanceOf
deriving DecidableEq, Repr, Ord, Hashable

namespace RelationKind

def name : RelationKind → String
  | .eq => "eq"
  | .lt => "lt"
  | .gt => "gt"
  | .instanceOf => "instance_of"

/-- The comparison with the operands exchanged. -/
def flipped : RelationKind → RelationKind
  | .lt => .gt
  | .gt => .lt
  | k => k

theorem eq_instanceOf_of_flipped {k : RelationKind} (h : k.flipped = .instanceOf) : k = .instanceOf := by
  cases k <;> first | rfl | cases h

end RelationKind

/-- A symbolic value. -/
inductive Value where
  | unknown
  /-- The value of a variable, perhaps one that is read through a method. -/
  | var (id : VariableId) (viaMethods : Bool)
  | constant (c : Constant)
  /-- The outcome of a comparison. -/
  | relation (kind : RelationKind) (negated : Bool) (left right : Value)
  /-- Some value of a type. -/
  | typed (type : JvmType) (nullness : Nullness)
  | notNull (type : JvmType)
  | boxed (wrapped : Value)
  | unboxed (wrapper : Value)
deriving DecidableEq, Repr, Hashable, Inhabited

namespace Value

/-- The place of a value's form in the order of values. -/
def rank : Value → Nat
  | .unknown => 0
  | .var .. => 1
  | .constant _ => 2
  | .relation .. => 3
  | .typed .. => 4
  | .notNull _ => 5
  | .boxed _ => 6
  | .unboxed _ => 7

/-- Values in order: by their form, then by what they are made of. -/
def order : Value → Value → Ordering
  | .var i m, .var j n => (compare i j).then (compare m n)
  | .constant c, .constant d => compare c d
  | .relation j m v w, .relation k n x y =>
    (compare j k).then ((compare m n).then ((order v x).then (order w y)))
  | .typed t m, .typed u n => (compare t u).then (compare m n)
  | .notNull t, .notNull u => compare t u
  | .boxed v, .boxed w => order v w
  | .unboxed v, .unboxed w => order v w
  | v, w => compare v.rank w.rank

instance : Ord Value := ⟨order⟩

def null : Value := .constant .null

def boolean (b : Bool) : Value := .constant (.boolean b)

/-! ## Kinds of values -/

def varId? : Value → Option VariableId
  | .var id _ => some id
  | _ => none

def constant? : Value → Option Constant
  | .constant c => some c
  | _ => none

def isConstant (v : Value) : Bool := v.constant?.isSome

def isNonNullConstant (v : Value) : Bool := v.constant?.any fun c => !c.isNull

def isNaN (v : Value) : Bool := v.constant?.any Constant.isNaN

def isRelation : Value → Bool
  | .relation .. => true
  | _ => false

def isBoxed : Value → Bool
  | .boxed _ => true
  | _ => false

/-- Whether a value is that of a variable read through a method. -/
def isViaMethods : Value → Bool
  | .var _ viaMethods => viaMethods
  | _ => false

/-- The variable from which a value is made by boxing and unboxing. -/
def base? : Value → Option VariableId
  | .var id _ => some id
  | .boxed v => v.base?
  | .unboxed v => v.base?
  | _ => none

/-- Whether a value may be found equal to others. -/
def isAtom : Value → Bool
  | .var .. | .constant _ | .boxed _ | .unboxed _ => true
  | _ => false

/-- Whether a value follows a variable or a coercion. -/
def isTracked : Value → Bool
  | .var .. | .boxed _ | .unboxed _ => true
  | _ => false

/-- The type that a value stands for, on the right of an `instanceof`. -/
def typeOperand? : Value → Option JvmType
  | .typed type _ | .notNull type => some type
  | _ => none

/-! ## Comparisons -/

/-- The canonical comparison of an operator, and whether it is negated. -/
def canonical? : BinaryOperator → Option (RelationKind × Bool)
  | .eq => some (.eq, false)
  | .ne => some (.eq, true)
  | .lt => some (.lt, false)
  | .ge => some (.lt, true)
  | .gt => some (.gt, false)
  | .le => some (.gt, true)
  | .instanceOf => some (.instanceOf, false)
  | _ => none

/-- Whether two untracked values can be compared: something known not to be null, and a constant. -/
def isComparablePair : Value → Value → Bool
  | .notNull _, .constant _ => true
  | _, _ => false

/-- Compares two values, if the outcome can be tracked. -/
def compare? (left right : Value) (operator : BinaryOperator) (negated : Bool) : Option Value := do
  let (kind, flip) ← canonical? operator
  let negated := negated ^^ flip
  if left.isTracked then some (.relation kind negated left right)
  else if kind = .instanceOf then none
  else if right.isTracked then some (.relation kind.flipped negated right left)
  else if isComparablePair left right then some (.relation kind negated left right)
  else if isComparablePair right left then some (.relation kind.flipped negated right left)
  else none

/-- The opposite of a condition. What is no condition stays as it is. -/
def negate : Value → Value
  | .relation kind negated left right => .relation kind (!negated) left right
  | .constant (.boolean b) => boolean !b
  | v => v

/-! ## Coercions -/

/-- The boxed form of a value, if it has one. -/
def box? : Value → Option Value
  | .unboxed wrapper => some wrapper
  | .var id viaMethods => some (.boxed (.var id viaMethods))
  | .constant c => if c.isNull then none else some (.boxed (.constant c))
  | _ => none

def unbox : Value → Value
  | .boxed wrapped => wrapped
  | .constant c => .constant c
  | .var id viaMethods => .unboxed (.var id viaMethods)
  | _ => .unknown

/-! ## Small laws -/

@[simp] theorem negate_negate (v : Value) : v.negate.negate = v := by
  cases v with
  | constant c => cases c <;> simp [negate, boolean]
  | _ => simp [negate]

theorem eq_instanceOf_of_canonical? {operator : BinaryOperator} {flip : Bool}
    (h : canonical? operator = some (.instanceOf, flip)) : operator = .instanceOf := by
  cases operator <;> first | rfl | cases h

/-- A comparison is a relation of the operands, perhaps exchanged. Those for a type are not exchanged. -/
theorem exists_of_compare? {left right relation : Value} {operator : BinaryOperator} {negated : Bool}
    (h : left.compare? right operator negated = some relation) : ∃ kind flip, canonical? operator = some (kind, flip) ∧
      (relation = .relation kind (negated ^^ flip) left right ∨
        kind ≠ .instanceOf ∧ relation = .relation kind.flipped (negated ^^ flip) right left) := by
  unfold compare? at h
  obtain ⟨⟨kind, flip⟩, hcanonical, h⟩ := Option.bind_eq_some_iff.mp h
  refine ⟨kind, flip, hcanonical, ?_⟩
  simp only at h
  split at h
  · -- a tracked operand on the left
    exact Or.inl (Option.some.inj h).symm
  · split at h
    · cases h
    · rename_i hkind
      split at h
      · -- one on the right
        exact Or.inr ⟨hkind, (Option.some.inj h).symm⟩
      · -- none, but something that is not null and a constant
        split at h
        · exact Or.inl (Option.some.inj h).symm
        · split at h
          · exact Or.inr ⟨hkind, (Option.some.inj h).symm⟩
          · cases h

end Value

end NullCheck
