import NullCheck.JvmType.Basic

/-!
# The class hierarchy

A program declares classes with their superclass and interfaces. The declarations need not be complete: a class
may extend one that is not declared, and the declarations may even form a cycle. Two questions are asked of them.

- `ClassHierarchy.isAssignable`: is every value of one type a value of the other? It is answered with yes only if
  the declarations prove it.
- `ClassHierarchy.isConvertible`: may some value of one type be a value of the other? A class that is not declared may
  turn out to be anything; one that lies above a declared class is not asked for.
-/

namespace NullCheck

structure ClassDecl where
  name : String
  superclass : Option String
  interfaces : List String
  isInterface : Bool
deriving DecidableEq, Repr

namespace ClassDecl

/-- The names right above a class. -/
def parents (c : ClassDecl) : List String := c.superclass.toList ++ c.interfaces

end ClassDecl

/-- Declarations of classes, no name declared twice. -/
structure ClassHierarchy where
  classes : List ClassDecl
  distinct : (classes.map ClassDecl.name).Nodup

/-- Why declarations form no hierarchy: these names are declared more than once. -/
structure DuplicateClasses where
  names : List String
deriving DecidableEq, Repr

def DuplicateClasses.message (e : DuplicateClasses) : String :=
  "duplicate classes found: " ++ ", ".intercalate e.names

namespace ClassHierarchy

/-- Names that occur more than once, each once and in order. -/
def duplicates (names : List String) : List String :=
  ((names.filter fun n => 1 < names.count n).mergeSort (· ≤ ·)).eraseDups

def ofList (classes : List ClassDecl) : Except DuplicateClasses ClassHierarchy :=
  if h : (classes.map ClassDecl.name).Nodup then .ok ⟨classes, h⟩
  else .error ⟨duplicates (classes.map ClassDecl.name)⟩

def empty : ClassHierarchy := ⟨[], List.nodup_nil⟩

variable (h : ClassHierarchy)

def find? (name : String) : Option ClassDecl := h.classes.find? fun c => c.name = name

def contains (name : String) : Bool := (h.find? name).isSome

def isInterface (name : String) : Bool := (h.find? name).any ClassDecl.isInterface

/-- The names right above a name; none above a name that is not declared. -/
def parents (name : String) : List String := ((h.find? name).map ClassDecl.parents).getD []

/-! ## Subclasses -/

/-- How many declared names are not among `seen`. -/
def unseen (seen : List String) : Nat := (h.classes.filter fun c => c.name ∉ seen).length

/-- A declared name that is seen for the first time is one less to see. -/
theorem unseen_cons_lt {name : String} {seen : List String} (hd : h.contains name) (hs : name ∉ seen) :
    h.unseen (name :: seen) < h.unseen seen := by
  unfold contains find? at hd
  rw [List.find?_isSome] at hd
  obtain ⟨c, hc, hn⟩ := hd
  simp only [decide_eq_true_eq] at hn
  unfold unseen
  -- what is unseen afterwards are the classes unseen before, without those of this name
  have hsub : ∀ l : List ClassDecl,
      (l.filter fun c => c.name ∉ name :: seen) = (l.filter fun c => c.name ∉ seen).filter (·.name ≠ name) := by
    intro l
    rw [List.filter_filter]
    congr 1
    funext c
    simp [List.mem_cons, not_or]
  rw [hsub]
  refine List.length_filter_lt_length_iff_exists.2 ⟨c, ?_, by simp [hn]⟩
  simp [List.mem_filter, hc, hn, hs]

/-- Whether `goal` lies above one of the pending names. `seen` holds declared names that were dealt with. -/
def search (goal : String) (seen : List String) : List String → Bool
  | [] => false
  | name :: pending =>
    if name = goal then true
    else if _hs : name ∈ seen then search goal seen pending
    else if _hd : h.contains name then search goal (name :: seen) (pending ++ h.parents name)
    else search goal seen pending
termination_by pending => (h.unseen seen, pending.length)
decreasing_by
  · exact Prod.Lex.right _ (by simp)
  · exact Prod.Lex.left _ _ (h.unseen_cons_lt _hd _hs)
  · exact Prod.Lex.right _ (by simp)

/-- Whether a class is another one or lies below it. -/
def isSubclass (name ancestor : String) : Bool := h.search ancestor [] [name]

/-! ## Types -/

def arrayInterfaces : List String := ["java/lang/Cloneable", "java/io/Serializable"]

/-- Whether a value of type `source` may be stored where `target` is wanted. -/
def isAssignable (target source : JvmType) : Bool :=
  if target = source then true
  else
    match target, source with
    | .classType t, s =>
      if t = JvmType.objectName then s.isReference
      else
        match s with
        | .classType s => h.isSubclass s t
        | .array _ => t ∈ arrayInterfaces
        | _ => false
    -- arrays of primitive types are only assignable to themselves
    | .array t, .array s => if t.isPrimitive ∨ s.isPrimitive then false else isAssignable t s
    | _, _ => false

/-- Whether a cast between two types may succeed for some value. Type variables, interfaces and classes that are
not declared may turn out to be anything. -/
def isConvertible (target source : JvmType) : Bool :=
  if h.isAssignable target source ∨ h.isAssignable source target then true
  else
    match target, source with
    | .typeVar _, _ => true
    | _, .typeVar _ => true
    | .classType t, .classType s => !h.contains t || !h.contains s || h.isInterface t || h.isInterface s
    | .array t, .array s => t.isReference && s.isReference && isConvertible t s
    | _, _ => false

end ClassHierarchy

end NullCheck
