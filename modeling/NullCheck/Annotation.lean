/-!
# Nullability annotations

Declarations carry annotations, by qualified name. Some names say that a value may be null, others that it is not;
an `AnnotationResolver` knows which.
-/

namespace NullCheck

/-- What is declared or known about the nullness of a value. -/
inductive Nullness where
  | nonNull
  | nullable
  | unknown
deriving DecidableEq, Repr, Ord, Hashable

namespace Nullness

def all : List Nullness := [.nonNull, .nullable, .unknown]

def name : Nullness → String
  | .nonNull => "non_null"
  | .nullable => "nullable"
  | .unknown => "unknown"

end Nullness

/-- The annotations that are understood. -/
structure AnnotationResolver where
  nullable : List String
  notNull : List String
deriving DecidableEq, Repr

namespace AnnotationResolver

/-- The annotations that mean nullable when nothing else is configured. -/
def defaultNullable : List String :=
  ["org.jetbrains.annotations.Nullable",
   "javax.annotation.Nullable",
   "javax.annotation.CheckForNull",
   "org.jspecify.annotations.Nullable",
   "androidx.annotation.Nullable",
   "android.support.annotation.Nullable",
   "org.checkerframework.checker.nullness.qual.Nullable"]

/-- The annotations that mean not null when nothing else is configured. -/
def defaultNotNull : List String :=
  ["org.jetbrains.annotations.NotNull",
   "javax.annotation.Nonnull",
   "org.jspecify.annotations.NonNull",
   "androidx.annotation.NonNull",
   "android.support.annotation.NonNull",
   "org.checkerframework.checker.nullness.qual.NonNull"]

def standard : AnnotationResolver := ⟨defaultNullable, defaultNotNull⟩

variable (r : AnnotationResolver)

def isNullable (annotations : List String) : Bool := annotations.any (· ∈ r.nullable)

def isNotNull (annotations : List String) : Bool := annotations.any (· ∈ r.notNull)

/-- What one annotation says. Nullable wins where a name means both. -/
def nullness? (name : String) : Option Nullness :=
  if name ∈ r.nullable then some .nullable
  else if name ∈ r.notNull then some .nonNull
  else none

/-- The nullness of a declared element: its own annotations come first, then those of its type, in order. -/
def elementNullness (owner type : List String) : Nullness :=
  if r.isNullable owner then .nullable
  else if r.isNotNull owner then .nonNull
  else (type.findSome? r.nullness?).getD .unknown

end AnnotationResolver

end NullCheck
