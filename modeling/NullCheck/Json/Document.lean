import NullCheck.Json.Lexeme

/-!
# From text to tree

The lexemes of a text are put together one after the other. `Container` is an array or object that is still open;
the open containers form a list, innermost first, and `Expecting` says what may come next. Where something else
comes, or the lexemes end, the tree gets a break and all open containers are closed around it. What follows the
document is not looked at.
-/

namespace NullCheck

namespace Json

/-- A container that is not closed yet, its finished part last first. -/
inductive Container where
  | arr (items : List Json)
  /-- An object, with the name of the member whose value is being read. -/
  | obj (members : List (Option String × Json)) (name : Option String)

/-- What may come next. -/
inductive Expecting where
  | value
  /-- The first item of an array, or its end. -/
  | item
  | name
  /-- The first name of an object, or its end. -/
  | member
  | colon
  | more

/-- Puts a value in which the text breaks off into its container, and closes all that is open. -/
def closeAround : List Container → Json → Json
  | [], j => j
  | .arr items :: outer, j => closeAround outer (.arr (j :: items).reverse none)
  | .obj members name :: outer, j => closeAround outer (.obj ((name, j) :: members).reverse none)

/-- Closes all that is open, the innermost container having a break behind its last item. -/
def closeAt (b : Break) : List Container → Json
  | [] => .broken b
  | .arr items :: outer => closeAround outer (.arr items.reverse (some b))
  | .obj members _ :: outer => closeAround outer (.obj members.reverse (some b))

/-- How far a document is put together. -/
inductive Progress where
  | finished (j : Json)
  | underway (containers : List Container) (expecting : Expecting)

/-- Adds a finished value to the container around it; the outermost value is the document. -/
def finish : List Container → Json → Progress
  | [], j => .finished j
  | .arr items :: outer, j => .underway (.arr (j :: items) :: outer) .more
  | .obj members name :: outer, j => .underway (.obj ((name, j) :: members) none :: outer) .more

def takeValue (containers : List Container) : Lexeme → Progress
  | .scalar j => finish containers j
  | .text (some s) => finish containers (.str s)
  | .text none => finish containers .unreadable
  | .openArray => .underway (.arr [] :: containers) .item
  | .openObject => .underway (.obj [] none :: containers) .member
  | .brokenText b | .brokenScalar b => .finished (closeAround containers (.broken b))
  | _ => .finished (closeAround containers (.broken .malformed))

def takeName (containers : List Container) : Lexeme → Progress
  | .text name =>
    match containers with
    | .obj members _ :: outer => .underway (.obj members name :: outer) .colon
    | _ => .finished (closeAt .malformed containers)
  | .brokenText b => .finished (closeAt b containers)
  | _ => .finished (closeAt .malformed containers)

def take (containers : List Container) (expecting : Expecting) (l : Lexeme) : Progress :=
  match expecting, l, containers with
  | .item, .closeArray, .arr items :: outer => finish outer (.arr items.reverse none)
  | .item, l, _ => takeValue containers l
  | .value, l, _ => takeValue containers l
  | .member, .closeObject, .obj members _ :: outer => finish outer (.obj members.reverse none)
  | .member, l, _ => takeName containers l
  | .name, l, _ => takeName containers l
  | .colon, .colon, _ => .underway containers .value
  | .colon, _, _ => .finished (closeAround containers (.broken .malformed))
  | .more, .comma, .arr _ :: _ => .underway containers .value
  | .more, .comma, .obj .. :: _ => .underway containers .name
  | .more, .closeArray, .arr items :: outer => finish outer (.arr items.reverse none)
  | .more, .closeObject, .obj members _ :: outer => finish outer (.obj members.reverse none)
  | .more, _, _ => .finished (closeAt .malformed containers)

/-- The tree where the lexemes end. -/
def breakOff (containers : List Container) : Expecting → Json
  | .value | .colon => closeAround containers (.broken .truncated)
  | .item | .name | .member | .more => closeAt .truncated containers

/-- The tree of the lexemes that remain. -/
def build : List Lexeme → Progress → Json
  | _, .finished j => j
  | [], .underway containers expecting => breakOff containers expecting
  | l :: ls, .underway containers expecting => build ls (take containers expecting l)

def ofText (text : String) : Json := build (Lexeme.all text.toList) (.underway [] .value)

end Json

end NullCheck
