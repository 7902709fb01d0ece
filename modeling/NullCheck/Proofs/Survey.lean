import Mathlib.Data.List.Nodup
import NullCheck.Survey

/-!
# What surveys keep

A survey grows by one visit at a time. This module says what can be read back from it: how many visits there were,
and what they observed at an instruction.

## The architecture

* **Tables.** A key that is given a value leaves the other keys alone, and keys stay apart.
* **`Survey.totalVisits_add`**: a visit is counted once, whatever its operation.
* **`Survey.observation_add`**: what a visit observes is joined with what was observed before at its instruction.
-/

namespace NullCheck

/-! ## Tables -/

namespace Sorted

variable {α β : Type} [Ord α] [DecidableEq α]

/-- An entry that is placed is found at its own key only. -/
theorem get?_placeEntry_of_ne {k j : α} (hj : k ≠ j) (b : β) (es : List (α × β)) :
    get? j (placeEntry k b es) = get? j es := by
  induction es with
  | nil => simp [placeEntry, get?, hj]
  | cons e es ih =>
    rw [placeEntry]
    split
    · rw [get?, if_neg hj]
    · rw [get?, get?, ih]

omit [Ord α] in
theorem get?_map_of_ne {k j : α} (hj : k ≠ j) (b : β) (es : List (α × β)) :
    get? j (es.map fun e => if e.1 = k then (k, b) else e) = get? j es := by
  induction es with
  | nil => rfl
  | cons e es ih =>
    rw [List.map_cons, get?, get?, ih]
    by_cases he : e.1 = k
    · have hej : e.1 ≠ j := fun h => hj (he.symm.trans h)
      rw [if_pos he, if_neg hj, if_neg hej]
    · rw [if_neg he]

/-- A key that is given a value leaves the other keys alone. -/
theorem get?_put_of_ne {k j : α} (hj : k ≠ j) (b : β) (es : List (α × β)) : get? j (put k b es) = get? j es := by
  unfold put
  split
  · exact get?_map_of_ne hj b es
  · exact get?_placeEntry_of_ne hj b es

omit [Ord α] in
/-- What a filter by keys keeps is found as before. -/
theorem get?_filter (kept : α → Bool) (k : α) (es : List (α × β)) :
    get? k (es.filter fun e => kept e.1) = if kept k then get? k es else none := by
  induction es with
  | nil => cases kept k <;> rfl
  | cons e es ih =>
    by_cases he : e.1 = k
    · rw [List.filter_cons, he]
      split
      · rw [get?, get?, if_pos he, if_pos he]
      · rename_i hk
        rw [ih, if_neg hk]
    · rw [get?, if_neg he, ← ih, List.filter_cons]
      split
      · rw [get?, if_neg he]
      · rfl

/-- The keys of a table. -/
def keys (es : List (α × β)) : List α := es.map Prod.fst

omit [DecidableEq α] in
/-- Placing an entry adds its key. -/
theorem mem_keys_placeEntry {k j : α} {b : β} {es : List (α × β)} :
    j ∈ keys (placeEntry k b es) ↔ j = k ∨ j ∈ keys es := by
  induction es with
  | nil => simp [placeEntry, keys]
  | cons e es ih =>
    rw [placeEntry]
    split
    · simp [keys]
    · simp only [keys, List.map_cons, List.mem_cons] at ih ⊢
      rw [ih]
      exact or_left_comm

omit [Ord α] in
/-- Replacing a value changes no key. -/
theorem keys_map_replace (k : α) (b : β) (es : List (α × β)) :
    keys (es.map fun e => if e.1 = k then (k, b) else e) = keys es := by
  unfold keys
  rw [List.map_map]
  refine List.map_congr_left fun e _ => ?_
  show (if e.1 = k then (k, b) else e).1 = e.1
  split
  · rename_i he
    exact he.symm
  · rfl

omit [Ord α] in
theorem any_key_iff {k : α} {es : List (α × β)} : (es.any fun e => e.1 = k) ↔ k ∈ keys es := by
  simp [keys]

omit [DecidableEq α] in
/-- Placing an entry of a new key keeps keys distinct. -/
theorem nodup_keys_placeEntry {k : α} {es : List (α × β)} (h : (keys es).Nodup) (hk : k ∉ keys es) (b : β) :
    (keys (placeEntry k b es)).Nodup := by
  induction es with
  | nil => simp [placeEntry, keys]
  | cons e es ih =>
    simp only [keys, List.map_cons, List.nodup_cons, List.mem_cons, not_or] at h hk
    rw [placeEntry]
    split
    · simp only [keys, List.map_cons, List.nodup_cons, List.mem_cons, not_or]
      exact ⟨hk, h⟩
    · have he : e.1 ∉ keys (placeEntry k b es) := by
        rw [mem_keys_placeEntry]
        rintro (he | he)
        · exact hk.1 he.symm
        · exact h.1 he
      exact List.nodup_cons.mpr ⟨he, ih h.2 hk.2⟩

/-- Keys that are apart stay apart. -/
theorem nodup_keys_put {es : List (α × β)} (h : (keys es).Nodup) (k : α) (b : β) : (keys (put k b es)).Nodup := by
  unfold put
  split
  · rwa [keys_map_replace]
  · rename_i hk
    rw [any_key_iff] at hk
    exact nodup_keys_placeEntry h hk b

/-- The sum of a table of numbers. -/
def sum (es : List (α × Nat)) : Nat := es.foldr (fun e n => e.2 + n) 0

omit [DecidableEq α] in
/-- A new entry adds its number to the sum. -/
theorem sum_placeEntry (k : α) (n : Nat) (es : List (α × Nat)) : sum (placeEntry k n es) = n + sum es := by
  induction es with
  | nil => rfl
  | cons e es ih =>
    rw [placeEntry]
    split
    · rfl
    · show e.2 + sum (placeEntry k n es) = n + (e.2 + sum es)
      omega

omit [Ord α] in
theorem map_replace_of_notMem {k : α} {b : β} {es : List (α × β)} (hk : k ∉ keys es) :
    (es.map fun e => if e.1 = k then (k, b) else e) = es := by
  conv_rhs => rw [← List.map_id es]
  refine List.map_congr_left fun e he => ?_
  rw [if_neg]
  · rfl
  · rintro rfl
    exact hk (List.mem_map_of_mem he)

omit [Ord α] in
theorem get?_eq_none {k : α} {es : List (α × β)} (hk : k ∉ keys es) : get? k es = none := by
  induction es with
  | nil => rfl
  | cons e es ih =>
    simp only [keys, List.map_cons, List.mem_cons, not_or] at hk
    rw [get?, if_neg (Ne.symm hk.1)]
    exact ih hk.2

/-- To raise the number of a key raises the sum. -/
theorem sum_put {es : List (α × Nat)} (h : (keys es).Nodup) (k : α) (n : Nat) :
    sum (put k ((get? k es).getD 0 + n) es) = sum es + n := by
  unfold put
  split
  · rename_i hk
    rw [any_key_iff] at hk
    induction es with
    | nil => simp [keys] at hk
    | cons e es ih =>
      simp only [keys, List.map_cons, List.nodup_cons] at h
      rw [List.map_cons, get?]
      by_cases he : e.1 = k
      · -- the rest of the table does not have the key
        have hes : k ∉ keys es := he ▸ h.1
        rw [if_pos he, if_pos he, map_replace_of_notMem hes]
        show e.2 + n + sum es = e.2 + sum es + n
        omega
      · -- the key comes later
        rw [if_neg he, if_neg he]
        have hes : k ∈ keys es := by
          simp only [keys, List.map_cons, List.mem_cons] at hk
          exact hk.resolve_left (Ne.symm he)
        have hsum := ih h.2 hes
        show e.2 + sum _ = e.2 + sum es + n
        omega
  · rename_i hk
    rw [any_key_iff] at hk
    rw [sum_placeEntry, get?_eq_none hk]
    show 0 + n + sum es = sum es + n
    omega

end Sorted

/-! ## Counts -/

namespace Survey

variable {s : Survey} {i : Instruction} {v : Visit}

@[simp] theorem visits_observe (s : Survey) (i : Instruction) (o : Observation) :
    (s.observe i o).visits = s.visits := by
  unfold observe
  split <;> rfl

theorem visits_add (s : Survey) (i : Instruction) (v : Visit) : (s.add i v).visits = (s.count i.operation).visits :=
  visits_observe _ i v.observation

/-- **A visit is counted once.** The names of operations stay apart in the table of counts. -/
theorem totalVisits_add (h : (Sorted.keys s.visits).Nodup) (i : Instruction) (v : Visit) :
    (s.add i v).totalVisits = s.totalVisits + 1 ∧ (Sorted.keys (s.add i v).visits).Nodup := by
  have hvisits : (s.add i v).visits =
      Sorted.put i.operation.name ((Sorted.get? i.operation.name s.visits).getD 0 + 1) s.visits := visits_add s i v
  constructor
  · show Sorted.sum (s.add i v).visits = Sorted.sum s.visits + 1
    rw [hvisits, Sorted.sum_put h]
  · rw [hvisits]
    exact Sorted.nodup_keys_put h _ _

/-! ## Observations -/

/-- An observation is joined to those at its own instruction, if it was made at all. -/
theorem observation_observe (s : Survey) (i : Instruction) (o : Observation) (index : Nat) :
    (s.observe i o).observation index =
      if o.reached ∧ i.index = index then (s.observation index).join o else s.observation index := by
  unfold observe
  by_cases ho : o.reached
  · rw [if_pos ho]
    -- at the instruction itself it is joined, elsewhere nothing changes
    by_cases hi : i.index = index
    · subst hi
      rw [if_pos (show o.reached ∧ i.index = i.index from ⟨ho, rfl⟩)]
      show (Sorted.get? i.index (Sorted.put i.index _ s.observations)).getD .none = _
      rw [Sorted.get?_put_self]
      rfl
    · rw [if_neg (show ¬(o.reached ∧ i.index = index) from fun h => hi h.2)]
      show (Sorted.get? index (Sorted.put i.index _ s.observations)).getD .none = _
      rw [Sorted.get?_put_of_ne hi]
      rfl
  · rw [if_neg ho, if_neg fun h => ho h.1]

/-- **What a visit observes is joined with what was observed before at its instruction.** -/
theorem observation_add (s : Survey) (i : Instruction) (v : Visit) (index : Nat) :
    (s.add i v).observation index =
      if v.observation.reached ∧ i.index = index then (s.observation index).join v.observation
      else s.observation index :=
  observation_observe ((s.count i.operation).withValues v.built) i v.observation index

end Survey

end NullCheck
