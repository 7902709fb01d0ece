import NullCheck.Value.Basic

/-!
# The table of values

All values that come up while a procedure is analysed are kept in a table, each once, in the order in which they
came up. A value's position in the table is its number. The table begins with the unknown value, null, true and
false.
-/

namespace NullCheck

/-- Values in the order in which they came up, each once. -/
structure ValueTable where
  values : Array Value
  distinct : values.toList.Nodup

namespace ValueTable

/-- The table that every analysis begins with. -/
def initial : ValueTable where
  values := #[.unknown, .null, .boolean true, .boolean false]
  distinct := by decide

/-- How many values have come up. -/
def size (t : ValueTable) : Nat := t.values.size

def number? (t : ValueTable) (v : Value) : Option Nat := t.values.finIdxOf? v |>.map Fin.val

/-- Adds a value, unless it is in the table already. -/
def insert (t : ValueTable) (v : Value) : ValueTable :=
  if h : v ∈ t.values then t
  else
    { values := t.values.push v
      distinct := by
        rw [Array.toList_push, List.nodup_append]
        refine ⟨t.distinct, by simp, ?_⟩
        intro a ha b hb
        simp only [List.mem_singleton] at hb
        subst hb
        rintro rfl
        exact h (Array.mem_toList_iff.1 ha) }

def insertAll (t : ValueTable) (vs : List Value) : ValueTable := vs.foldl insert t

theorem mem_insert (t : ValueTable) (v : Value) : v ∈ (t.insert v).values := by
  unfold insert
  split
  · assumption
  · simp

/-- A table only grows. -/
theorem mem_insert_of_mem {t : ValueTable} {w : Value} (v : Value) (h : w ∈ t.values) :
    w ∈ (t.insert v).values := by
  unfold insert
  split
  · assumption
  · simp [h]

end ValueTable

end NullCheck
