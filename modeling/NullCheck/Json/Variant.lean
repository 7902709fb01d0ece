import NullCheck.Json.Record

/-!
# Variants

A value of a type with several variants is written in one of two ways.

- By name: a bare name for a variant without content, else an object whose only member is named after the variant
  and holds its content (`Variants`).
- Tagged: an object with a member that holds the name of the variant, beside the members of its content
  (`Tagged`). A tagged value is read through before its tag is looked for, so from there on it is settled.
-/

namespace NullCheck

/-- A variant that is chosen by its name. The content is `none` behind a bare name. -/
structure Variant (α : Type) where
  name : String
  read : Place → Option Json → Except ReadError α

namespace Variant

variable {α β : Type}

/-- A variant without content. It may be written as a member that is `null`, or in a settled value an empty object. -/
def bare (name : String) (a : α) : Variant α where
  name := name
  read p
    | none | some .null => .ok a
    | some (.obj [] stop) => if p.settled then .ok a else p.wants "unit" (.obj [] stop)
    | some j => p.wants "unit" j

def holding (name : String) (make : β → α) (c : Codec β) : Variant α where
  name := name
  read p
    | none => p.misfit (.kind .bareVariant "newtype variant")
    | some j => make <$> c.read p j

def record (name label : String) (r : Record α α) : Variant α where
  name := name
  read p
    | none => p.misfit (.kind .bareVariant "struct variant")
    | some j => r.read ("struct variant " ++ label) (if p.settled then "struct variant" else "struct variant " ++ label)
        false p j

def lookup (vs : List (Variant α)) (p : Place) (name : String) : Except ReadError (Variant α) :=
  match vs.find? fun v => v.name = name with
  | some v => .ok v
  | none => p.misfit (.unknownVariant name (vs.map Variant.name))

/-- Reads a variant by name. Outside a settled value the object must end right behind its only member, and what
is neither name nor object is no document at all. -/
def readByName (vs : List (Variant α)) (p : Place) (j : Json) : Except ReadError α :=
  match j with
  | .str s => do
    let v ← lookup vs p s
    v.read (p.member s) none
  | .obj members stop => do
    let inner ← p.enter
    match members with
    | (some name, j) :: more =>
      if inner.settled ∧ !more.isEmpty then
        p.misfit (.range .map "map with a single key")
      else
        let v ← lookup vs inner name
        let a ← v.read (inner.member name) (some j)
        if more.isEmpty then
          Place.leave stop
          return a
        else .error (.fault .malformed)
    | _ =>
      if inner.settled then p.misfit (.range .map "map with a single key")
      else do
        Place.leave stop
        .error (.fault .malformed)
  | .broken b => .error (.fault b.read)
  | j => if p.settled then p.wants "string or map" j else .error (.fault .malformed)

def namesCodec (name : α → String) (all : List α) : Codec α where
  write a := .str (name a)
  read := readByName (all.map fun a => bare (name a) a)

end Variant

/-- A variant of a tagged value. -/
structure Tagged (α : Type) where
  name : String
  /-- Reads the content from the members beside the tag. -/
  fromMembers : Place → List (Option String × Json) → Except ReadError α
  /-- Reads the content from the items behind the tag. -/
  fromItems : Place → List Json → Except ReadError α

namespace Tagged

variable {α β : Type}

/-- A variant without content. Other members do not matter. -/
def bare (name : String) (a : α) : Tagged α where
  name := name
  fromMembers _ _ := .ok a
  fromItems p
    | [] => .ok a
    | items => p.misfit (.length items.length (Record.counted 0))

def record (name label : String) (make : β → α) (r : Record β β) : Tagged α where
  name := name
  fromMembers p members := make <$> r.fromMembers false p members none
  fromItems p items := make <$> r.fromItems label p 0 items none

/-- What a tag may be, when it is given by number. -/
def numbered (vs : List (Tagged α)) : String := "variant index 0 <= i < " ++ toString vs.length

/-- The variant a tag stands for: its name, or its number in order of declaration. -/
def ofTag (vs : List (Tagged α)) (p : Place) : Json → Except ReadError (Tagged α)
  | .str s =>
    match vs.find? fun v => v.name = s with
    | some v => .ok v
    | none => p.misfit (.unknownVariant s (vs.map Tagged.name))
  | .int (.ofNat n) =>
    match vs[n]? with
    | some v => .ok v
    | none => p.misfit (.range (.int n) (numbered vs))
  | j => p.wants "variant identifier" j

/-- Parts a tagged value into its variant and the other members, in order. -/
def part (tag : String) (vs : List (Tagged α)) (p : Place) :
    Option (Tagged α) → List (Option String × Json) → Except ReadError (Option (Tagged α) × List (Option String × Json))
  | v, [] => .ok (v, [])
  | v, (name, j) :: ms =>
    if name = some tag then
      if v.isSome then p.misfit (.duplicate tag)
      else do
        let found ← ofTag vs p j
        part tag vs p (some found) ms
    else do
      let (v, rest) ← part tag vs p v ms
      return (v, (name, j) :: rest)

def readMembers (tag : String) (vs : List (Tagged α)) (p : Place) (members : List (Option String × Json)) :
    Except ReadError α := do
  match ← part tag vs p none members with
  | (some v, rest) => v.fromMembers p rest
  | (none, _) => p.misfit (.missing tag)

/-- Reads a tagged value. It may also be an array with the tag in front. -/
def read (tag label : String) (vs : List (Tagged α)) (p : Place) (j : Json) : Except ReadError α := do
  let p ← if p.settled then pure p
    else
      match j.readThrough p.depth with
      | some f => .error (.fault f)
      | none => pure p.settle
  match j with
  | .obj members _ => readMembers tag vs p members
  | .arr [] _ => p.misfit (.missing tag)
  | .arr (t :: items) _ => do
    let v ← ofTag vs p t
    v.fromItems p items
  | j => p.wants label j

end Tagged

end NullCheck
