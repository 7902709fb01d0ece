import NullCheck.JvmType.Basic
import NullCheck.JvmType.MethodGrammar

/-!
# Reading descriptors

A type descriptor denotes one type. A method descriptor lists the types of the parameters in parentheses and has
the type of the result behind them. Unlike class files, the descriptors read here may mention type variables; a
descriptor that mentions none must also be one by `MethodGrammar`.
-/

namespace NullCheck

/-- Why a text is no descriptor. Each error tells the text it was met in. -/
inductive DescriptorError where
  | empty
  | arrayOfVoid (text : String)
  | unterminated (text : String)
  | emptyName (text : String)
  | unknown (text : String)
  | trailing (text : String)
  | grammar (text : String) (cause : GrammarError)
  /-- The text denotes none or several types by grammar. -/
  | notOneType (text : String)
  | noParenthesis (text : String)
  | openParameters (text : String)
  | voidParameter (text : String)
  | returnType (text : String) (cause : DescriptorError)
  /-- A text that is no method descriptor by grammar. -/
  | method (cause : GrammarError)
deriving DecidableEq, Repr

/-- The messages of an error, outermost first. -/
def DescriptorError.chain : DescriptorError → List String
  | .empty => ["empty type descriptor"]
  | .arrayOfVoid text => ["array of void in type descriptor " ++ text]
  | .unterminated text => ["unterminated type descriptor " ++ text]
  | .emptyName text => ["empty class name in type descriptor " ++ text]
  | .unknown text => ["unknown type descriptor " ++ text]
  | .trailing text => ["trailing characters in type descriptor " ++ text]
  | .grammar text cause => ["parse type descriptor " ++ text, cause.message]
  | .notOneType text => ["type descriptor " ++ text ++ " does not denote exactly one type"]
  | .noParenthesis text => ["method descriptor " ++ text ++ " must start with '('"]
  | .openParameters text => ["unterminated parameter list in " ++ text]
  | .voidParameter text => ["void parameter in method descriptor " ++ text]
  | .returnType text cause => ("parse return type of " ++ text) :: cause.chain
  | .method cause => ["parse method descriptor", cause.message]

namespace JvmType

/-- A name up to its semicolon, and what follows. `text` is the descriptor with its first letter. -/
def nameOf (text : List Char) (cs : List Char) : Except DescriptorError (String × List Char) :=
  match cs.dropWhile (· ≠ ';') with
  | [] => .error (.unterminated (String.ofList text))
  | _ :: rest =>
    match cs.takeWhile (· ≠ ';') with
    | [] => .error (.emptyName (String.ofList text))
    | name => .ok (String.ofList name, rest)

/-- The type a text begins with, and what follows it. -/
def ofFront : List Char → Except DescriptorError (JvmType × List Char)
  | [] => .error .empty
  | 'V' :: cs => .ok (.void, cs)
  | '[' :: cs =>
    match ofFront cs with
    | .ok (.void, _) => .error (.arrayOfVoid (String.ofList ('[' :: cs)))
    | .ok (component, rest) => .ok (.array component, rest)
    | .error e => .error e
  | 'L' :: cs => do
    let (name, rest) ← nameOf ('L' :: cs) cs
    return (.classType name, rest)
  | 'T' :: cs => do
    let (name, rest) ← nameOf ('T' :: cs) cs
    return (.typeVar name, rest)
  | c :: cs =>
    match Primitive.ofLetter? c with
    | some p => .ok (.primitive p, cs)
    | none => .error (.unknown (String.ofList (c :: cs)))

/-- Checks a descriptor by grammar: as the only parameter of a method. -/
def checkGrammar (cs : List Char) : Except DescriptorError Unit :=
  match MethodGrammar.ofChars ('(' :: cs ++ [')', 'V']) with
  | .error e => .error (.grammar (String.ofList cs) e)
  | .ok m => if m.parameters.length = 1 then .ok () else .error (.notOneType (String.ofList cs))

def ofChars (cs : List Char) : Except DescriptorError JvmType := do
  let (t, rest) ← ofFront cs
  if rest ≠ [] then .error (.trailing (String.ofList cs))
  else if t = .void ∨ t.mentionsTypeVar then return t
  else
    checkGrammar cs
    return t

def parse (text : String) : Except DescriptorError JvmType := ofChars text.toList

end JvmType

/-- A method descriptor: the types of the parameters and of the result. -/
structure Signature where
  parameters : List JvmType
  result : JvmType
deriving DecidableEq, Repr

namespace Signature

/-- The text left behind a type is shorter than the text it was read from. -/
theorem length_ofFront_lt {cs rest : List Char} {t : JvmType} (h : JvmType.ofFront cs = .ok (t, rest)) :
    rest.length < cs.length := by
  -- a name ends at a semicolon, which is taken with it
  have hname : ∀ {text cs rest : List Char} {n : String}, JvmType.nameOf text cs = .ok (n, rest) →
      rest.length < cs.length := by
    intro text cs rest n h
    unfold JvmType.nameOf at h
    split at h
    · simp at h
    · rename_i heq
      have hle := (List.dropWhile_suffix (fun x => decide (x ≠ ';')) : _ <:+ cs).length_le
      rw [heq, List.length_cons] at hle
      split at h
      · cases h
      · cases h
        omega
  fun_induction JvmType.ofFront cs generalizing t rest <;> simp_all [bind, Except.bind, pure, Except.pure]
  all_goals grind

/-- Parameter types up to the closing parenthesis, and what follows it. `text` is the whole descriptor. -/
def parametersOf (text : String) (cs : List Char) : Except DescriptorError (List JvmType × List Char) :=
  match cs with
  | [] => .error (.openParameters text)
  | ')' :: rest => .ok ([], rest)
  | cs =>
    match _h : JvmType.ofFront cs with
    | .error e => .error e
    | .ok (.void, _) => .error (.voidParameter text)
    | .ok (t, rest) =>
      match parametersOf text rest with
      | .error e => .error e
      | .ok (ts, rest) => .ok (t :: ts, rest)
termination_by cs.length
decreasing_by exact length_ofFront_lt _h

/-- Reads a method descriptor. -/
def parse (text : String) : Except DescriptorError Signature :=
  match text.toList with
  | '(' :: cs => do
    let (parameters, rest) ← parametersOf text cs
    match JvmType.ofChars rest with
    | .ok result => return ⟨parameters, result⟩
    | .error e => .error (.returnType text e)
  | _ => .error (.noParenthesis text)

end Signature

/-- How many parameters a method descriptor has, by grammar. -/
def parameterCount (text : String) : Except DescriptorError Nat :=
  match MethodGrammar.ofChars text.toList with
  | .ok m => .ok m.parameters.length
  | .error e => .error (.method e)

/-- The kind of a method descriptor's result, by grammar. -/
def resultKind (text : String) : Except DescriptorError TypeKind :=
  match MethodGrammar.ofChars text.toList with
  | .ok m => .ok m.result
  | .error e => .error (.method e)

def JvmType.kind : JvmType → TypeKind
  | .void => .void
  | .primitive _ => .primitive
  | _ => .reference

end NullCheck
