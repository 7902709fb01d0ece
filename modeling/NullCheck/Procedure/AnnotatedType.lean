import NullCheck.JvmType.Descriptor
import NullCheck.Json.Record

/-!
# Annotated types

A type may carry annotations of its own. A generic declaration is made concrete at a call by bindings, which give
annotated types for type variables.
-/

namespace NullCheck

/-- A type in a document: its descriptor. -/
def JvmType.codec : Codec JvmType :=
  .text JvmType.display fun text =>
    match JvmType.parse text with
    | .ok t => .ok t
    | .error e => .error (e.chain.headD "")

/-- A type with annotations. -/
structure AnnotatedType where
  type : JvmType
  annotations : List String
deriving DecidableEq, Repr

def AnnotatedType.codec : Codec AnnotatedType :=
  Record.make AnnotatedType.mk
    |>.field "ty" type JvmType.codec
    |>.fieldOr [] "annotations" annotations (.list .string)
    |>.codec "AnnotatedType"

/-- Annotated types for type variables, each variable bound once. -/
structure TypeBindings where
  entries : List (String × AnnotatedType)
  distinct : (entries.map Prod.fst).Nodup
deriving DecidableEq, Repr

namespace TypeBindings

def empty : TypeBindings := ⟨[], List.nodup_nil⟩

def find? (b : TypeBindings) (name : String) : Option AnnotatedType :=
  (b.entries.find? fun e => e.1 = name).map (·.2)

/-- Binds a variable; an earlier binding of it gives way. -/
def insert (name : String) (t : AnnotatedType) (b : TypeBindings) : TypeBindings where
  entries := b.entries.filter (fun e => e.1 ≠ name) ++ [(name, t)]
  distinct := by
    have h := b.distinct
    rw [List.map_append, List.nodup_append]
    refine ⟨(h.sublist ((List.filter_sublist).map _)), by simp, ?_⟩
    intro x hx y hy
    simp only [List.mem_map, List.mem_filter] at hx
    obtain ⟨e, ⟨_, he⟩, rfl⟩ := hx
    simp only [List.map_cons, List.map_nil, List.mem_singleton] at hy
    subst hy
    simpa using he

def codec : Codec TypeBindings := .table entries empty insert AnnotatedType.codec

end TypeBindings

/-- A type with its variables replaced; variables that are not bound stay. -/
def JvmType.substitute (b : TypeBindings) : JvmType → JvmType
  | .typeVar name => ((b.find? name).map AnnotatedType.type).getD (.typeVar name)
  | .array component => .array (component.substitute b)
  | t => t

/-- An annotated type with its variables replaced. A type that is itself a bound variable also takes on the
annotations of its binding, behind its own. -/
def AnnotatedType.substitute (b : TypeBindings) (t : AnnotatedType) : AnnotatedType :=
  let bound : List String :=
    match t.type with
    | .typeVar name => ((b.find? name).map AnnotatedType.annotations).getD []
    | _ => []
  ⟨t.type.substitute b, t.annotations ++ bound⟩

end NullCheck
