/-!
# Method descriptors by grammar

A method descriptor is a pair of parentheses with the parameter types in it, and the result type behind it. This
grammar knows no type variables, allows `V` wherever a type may stand, allows empty class names and at most 255
array brackets, and does not look at what follows the result type. It is used to count parameters, to tell the
kind of the result, and to check that a type descriptor is one that a class file may hold.
-/

namespace NullCheck

/-- Why a text is no method descriptor. -/
inductive GrammarError where
  | endOfInput
  | missingSemicolon
  | tooManyDimensions
  /-- An array bracket in front of a closing parenthesis. -/
  | arrayOfNothing
  | unrecognized
  | missingParenthesis
  | missingReturn
deriving DecidableEq, Repr

def GrammarError.message : GrammarError → String
  | .endOfInput => "Unexpected end of input."
  | .missingSemicolon => "Invalid descriptor: Missing semicolon in class name descriptor."
  | .tooManyDimensions => "Array has too many dimensions."
  | .arrayOfNothing => "Invalid descriptor: Invalid descriptor."
  | .unrecognized => "Invalid descriptor: Unrecognized type descriptor."
  | .missingParenthesis => "Invalid descriptor: Method descriptor must start with '('."
  | .missingReturn => "Invalid descriptor: Missing return type."

/-- What a type is, as far as calls are concerned. -/
inductive TypeKind where
  | void
  | primitive
  | reference
deriving DecidableEq, Repr

/-- A method descriptor, reduced to the kinds of its types. -/
structure MethodGrammar where
  parameters : List TypeKind
  result : TypeKind
deriving DecidableEq, Repr

namespace MethodGrammar

/-- The array brackets a text begins with, and what follows. -/
def brackets : List Char → Nat × List Char
  | '[' :: cs =>
    let (n, rest) := brackets cs
    (n + 1, rest)
  | cs => (0, cs)

def maxDimensions : Nat := 255

/-- One type that is no array, and what follows; `none` for a closing parenthesis. -/
def baseType : List Char → Except GrammarError (Option TypeKind × List Char)
  | [] => .error .endOfInput
  | c :: cs =>
    if c ∈ ['Z', 'B', 'C', 'S', 'I', 'J', 'F', 'D'] then .ok (some .primitive, cs)
    else if c = 'V' then .ok (some .void, cs)
    else if c = 'L' then
      match cs.dropWhile (· ≠ ';') with
      | _ :: rest => .ok (some .reference, rest)
      | [] => .error .missingSemicolon
    else if c = ')' then .ok (none, cs)
    else .error .unrecognized

/-- One type, and what follows; `none` for a closing parenthesis. -/
def nextType (cs : List Char) : Except GrammarError (Option TypeKind × List Char) :=
  match brackets cs with
  | (0, cs) => baseType cs
  | (n + 1, cs) =>
    if maxDimensions < n + 1 then .error .tooManyDimensions
    else
      match baseType cs with
      | .ok (some _, rest) => .ok (some .reference, rest)
      | .ok (none, _) => .error .arrayOfNothing
      | .error e => .error e

theorem length_brackets_le (cs : List Char) : (brackets cs).2.length ≤ cs.length := by
  fun_induction brackets cs with
  | case1 cs n rest heq ih =>
    rw [heq] at ih
    exact Nat.le_succ_of_le ih
  | case2 cs => exact Nat.le_refl _

theorem length_baseType_lt {cs rest : List Char} {k : Option TypeKind} (h : baseType cs = .ok (k, rest)) :
    rest.length < cs.length := by
  unfold baseType at h
  split at h
  · simp at h
  · rename_i c cs
    split at h
    · simp_all
    · split at h
      · simp_all
      · split at h
        · split at h
          · rename_i r heq
            have := (List.dropWhile_suffix (l := cs) (p := fun x => decide (x ≠ ';'))).length_le
            simp_all
            omega
          · simp at h
        · split at h <;> simp_all

theorem length_nextType_lt {cs rest : List Char} {k : Option TypeKind} (h : nextType cs = .ok (k, rest)) :
    rest.length < cs.length := by
  have hb := length_brackets_le cs
  unfold nextType at h
  split at h
  · rename_i heq
    have := length_baseType_lt h
    simp_all
    omega
  · rename_i heq
    split at h
    · simp at h
    · split at h
      · rename_i hbase
        have := length_baseType_lt hbase
        simp_all
        omega
      · simp at h
      · simp at h

/-- Types up to the closing parenthesis, and what follows it. -/
def parameterTypes (cs : List Char) : Except GrammarError (List TypeKind × List Char) :=
  match _h : nextType cs with
  | .error e => .error e
  | .ok (none, rest) => .ok ([], rest)
  | .ok (some k, rest) =>
    match parameterTypes rest with
    | .error e => .error e
    | .ok (ks, rest) => .ok (k :: ks, rest)
termination_by cs.length
decreasing_by exact length_nextType_lt _h

/-- Reads a method descriptor. -/
def ofChars : List Char → Except GrammarError MethodGrammar
  | '(' :: cs => do
    let (parameters, rest) ← parameterTypes cs
    match ← nextType rest with
    | (some result, _) => return ⟨parameters, result⟩
    | (none, _) => .error .missingReturn
  | _ => .error .missingParenthesis

end MethodGrammar

end NullCheck
