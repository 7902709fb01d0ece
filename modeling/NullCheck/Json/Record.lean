import NullCheck.Json.Codec

/-!
# Records

A record is written as an object with a member for each field, and read from an object whose members come in any
order, or from an array that lists the fields in their own order. A `Record ρ α` describes fields of a record `ρ`
and how an `α` is made of what was read; `Record.field` adds a field, and once `α` is `ρ` the description is a
codec (`Record.codec`).

While members are read, each field has a slot. A field that comes twice is an error as soon as its name is read, a
field that is missing only when the object has ended. Members with unknown names are skimmed over, or refused.
-/

namespace NullCheck

/-- The items of an array that are not yet read. -/
structure Row where
  items : List Json
  index : Nat
  stop : Option Break

/-- Reads the next item, if there is one. -/
def Row.next? {α : Type} (r : Row) (p : Place) (c : Codec α) : Except ReadError (Option α × Row) :=
  match r.items with
  | [] => do
    Place.leave r.stop
    return (none, r)
  | j :: js => do
    let a ← c.read (p.item r.index) j
    return (some a, { r with items := js, index := r.index + 1 })

/-- Fields of a record `ρ`, and the `α` that is made of them. -/
structure Record (ρ α : Type) where
  /-- What has been read so far. -/
  Slots : Type
  empty : Slots
  names : List String
  /-- Puts the value of a named member into its slot; `none` for a name that is no field's. -/
  put : String → Option (Place → Json → Slots → Except ReadError Slots)
  /-- Makes the result when the object has ended. -/
  finish : Place → Slots → Except ReadError α
  /-- Reads the fields from the items of an array. The text is what a complete array is called. -/
  fromRow : Place → String → Row → Except ReadError (α × Row)
  write : ρ → List (String × Json)

namespace Record

variable {ρ α β : Type}

def make (a : α) : Record ρ α where
  Slots := Unit
  empty := ()
  names := []
  put _ := none
  finish _ _ := .ok a
  fromRow _ _ row := .ok (a, row)
  write _ := []

/-- Puts a value into a slot that must be empty. -/
def fill (name : String) (c : Codec β) (p : Place) (j : Json) (slot : Option β) : Except ReadError (Option β) :=
  match slot with
  | some _ => p.misfit (.duplicate name)
  | none => some <$> c.read (p.member name) j

/-- Adds a field. `initial` is the value of a field that is left out; without it the field is required. -/
def add (r : Record ρ (β → α)) (name : String) (get : ρ → β) (c : Codec β) (initial : Option β) :
    Record ρ α where
  Slots := r.Slots × Option β
  empty := (r.empty, none)
  names := r.names ++ [name]
  put n :=
    if n = name then some fun p j s => do return (s.1, ← fill name c p j s.2)
    else (r.put n).map fun f p j s => do return (← f p j s.1, s.2)
  finish p s := do
    let make ← r.finish p s.1
    match s.2 <|> initial with
    | some b => return make b
    | none => p.misfit (.missing name)
  fromRow p whole row := do
    let (make, row) ← r.fromRow p whole row
    let (found, row) ← row.next? p c
    match found <|> initial with
    | some b => return (make b, row)
    | none => p.misfit (.length row.index whole)
  write a := r.write a ++ [(name, c.write (get a))]

def field (r : Record ρ (β → α)) (name : String) (get : ρ → β) (c : Codec β) : Record ρ α := r.add name get c none

def fieldOr (r : Record ρ (β → α)) (initial : β) (name : String) (get : ρ → β) (c : Codec β) : Record ρ α :=
  r.add name get c (some initial)

/-- What a complete array of the fields is called. -/
def whole (r : Record ρ α) (label : String) : String :=
  label ++ " with " ++ toString r.names.length ++ (if r.names.length = 1 then " element" else " elements")

/-- Reads members into their slots. With `closed`, names that are no field's are refused. -/
def readMembers (r : Record ρ α) (closed : Bool) (p : Place) (s : r.Slots) :
    List (Option String × Json) → Except ReadError r.Slots
  | [] => .ok s
  | (none, _) :: _ => .error (.fault .malformed)
  | (some name, j) :: ms =>
    match r.put name with
    | some f => do
      let s ← f p j s
      readMembers r closed p s ms
    | none =>
      if closed then (p.member name).misfit (.unknownField name r.names)
      else
        match j.skim with
        | some f => .error (.fault f)
        | none => readMembers r closed p s ms

/-- Reads the members of an object and makes the result. -/
def fromMembers (r : Record ρ α) (closed : Bool) (p : Place) (members : List (Option String × Json))
    (stop : Option Break) : Except ReadError α := do
  let s ← r.readMembers closed p r.empty members
  Place.leave stop
  r.finish p s

/-- What an array is called that holds `count` items too many or not. -/
def counted (count : Nat) : String :=
  toString count ++ (if count = 1 then " element in sequence" else " elements in sequence")

/-- Ends an array: it must not have more items than the record has fields. -/
def endRow (p : Place) (row : Row) : Except ReadError Unit :=
  match row.items with
  | [] => Place.leave row.stop
  | _ :: _ =>
    if p.settled then p.misfit (.length (row.index + row.items.length) (counted row.index))
    else .error (.fault .malformed)

/-- Reads the items of an array and makes the result. -/
def fromItems (r : Record ρ α) (label : String) (p : Place) (first : Nat) (items : List Json)
    (stop : Option Break) : Except ReadError α := do
  let (a, row) ← r.fromRow p (r.whole label) ⟨items, first, stop⟩
  endRow p row
  return a

/-- Reads a record from an object or array, `wanted` being what is reported as wanted otherwise. -/
def read (r : Record ρ α) (label wanted : String) (closed : Bool) (p : Place) : Json → Except ReadError α
  | .obj members stop => do
    let inner ← p.enter
    r.fromMembers closed inner members stop
  | .arr items stop => do
    let inner ← p.enter
    r.fromItems label inner 0 items stop
  | j => p.wants wanted j

def codec (r : Record ρ ρ) (name : String) : Codec ρ where
  write a := .object (r.write a)
  read := r.read ("struct " ++ name) ("struct " ++ name) false

/-- The codec of a record that has no other members than its fields. -/
def closedCodec (r : Record ρ ρ) (name : String) : Codec ρ where
  write a := .object (r.write a)
  read := r.read ("struct " ++ name) ("struct " ++ name) true

end Record

end NullCheck
