/-!
# Types of the JVM

Values, variables, parameters and results have types: the primitive types, classes, arrays, and the type variables
of generic declarations. A method that returns nothing has the type `void` as its result.

`JvmType.display` writes a type as a descriptor, such as `I`, `Ljava/lang/String;`, `[I` and `TT;`.
-/

namespace NullCheck

/-- The primitive types. -/
inductive Primitive where
  | boolean
  | byte
  | char
  | short
  | int
  | long
  | float
  | double
deriving DecidableEq, Repr, Ord, Hashable

namespace Primitive

def all : List Primitive := [.boolean, .byte, .char, .short, .int, .long, .float, .double]

def letter : Primitive → Char
  | .boolean => 'Z'
  | .byte => 'B'
  | .char => 'C'
  | .short => 'S'
  | .int => 'I'
  | .long => 'J'
  | .float => 'F'
  | .double => 'D'

def ofLetter? : Char → Option Primitive
  | 'Z' => some .boolean
  | 'B' => some .byte
  | 'C' => some .char
  | 'S' => some .short
  | 'I' => some .int
  | 'J' => some .long
  | 'F' => some .float
  | 'D' => some .double
  | _ => none

@[simp] theorem ofLetter?_letter (p : Primitive) : ofLetter? p.letter = some p := by
  cases p <;> rfl

/-- A type's letter is the only one that denotes it. -/
theorem ofLetter?_eq_some {c : Char} {p : Primitive} : ofLetter? c = some p ↔ c = p.letter := by
  constructor
  · intro h
    unfold ofLetter? at h
    split at h <;> simp_all <;> subst h <;> rfl
  · rintro rfl
    simp

/-- The class whose instances hold a value of the primitive type. -/
def wrapper : Primitive → String
  | .boolean => "java/lang/Boolean"
  | .byte => "java/lang/Byte"
  | .char => "java/lang/Character"
  | .short => "java/lang/Short"
  | .int => "java/lang/Integer"
  | .long => "java/lang/Long"
  | .float => "java/lang/Float"
  | .double => "java/lang/Double"

def ofWrapper? (name : String) : Option Primitive := all.find? fun p => p.wrapper = name

end Primitive

/-- A type. Classes and type variables go by name. -/
inductive JvmType where
  | void
  | primitive (p : Primitive)
  | classType (name : String)
  | array (component : JvmType)
  | typeVar (name : String)
deriving DecidableEq, Repr, Hashable, Inhabited

namespace JvmType

/-- The place of a type's form in the order of types. -/
def rank : JvmType → Nat
  | .void => 0
  | .primitive _ => 1
  | .classType _ => 2
  | .array _ => 3
  | .typeVar _ => 4

/-- Types in order: by their form, then by what they are made of. -/
def order : JvmType → JvmType → Ordering
  | .primitive p, .primitive q => compare p q
  | .classType n, .classType m => compare n m
  | .array t, .array u => order t u
  | .typeVar n, .typeVar m => compare n m
  | t, u => compare t.rank u.rank

instance : Ord JvmType := ⟨order⟩

/-- The class above every reference type. -/
def objectName : String := "java/lang/Object"

/-- The type `java/lang/Object`. -/
def object : JvmType := .classType objectName

/-- The type `java/lang/String`. -/
def string : JvmType := .classType "java/lang/String"

/-- Classes, arrays and type variables: types whose values may be null. -/
def isReference : JvmType → Bool
  | .classType _ | .array _ | .typeVar _ => true
  | _ => false

def isPrimitive : JvmType → Bool
  | .primitive _ => true
  | _ => false

def className? : JvmType → Option String
  | .classType name => some name
  | _ => none

def unboxed? : JvmType → Option Primitive
  | .primitive p => some p
  | .classType name => Primitive.ofWrapper? name
  | _ => none

/-- Whether a type is made from a type variable. -/
def mentionsTypeVar : JvmType → Bool
  | .typeVar _ => true
  | .array component => component.mentionsTypeVar
  | _ => false

def chars : JvmType → List Char
  | .void => ['V']
  | .primitive p => [p.letter]
  | .classType name => 'L' :: name.toList ++ [';']
  | .array component => '[' :: component.chars
  | .typeVar name => 'T' :: name.toList ++ [';']

/-- A type's descriptor. -/
def display (t : JvmType) : String := String.ofList t.chars

def arrayDepth : JvmType → Nat
  | .array component => component.arrayDepth + 1
  | _ => 0

/-- The type below all array brackets. -/
def innermost : JvmType → JvmType
  | .array component => component.innermost
  | t => t

end JvmType

end NullCheck
