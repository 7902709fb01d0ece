/-!
# Lists kept in order

Sets and tables whose equality matters are lists kept in order: a set is the list of its elements, a table the list
of its entries by key. Order serves only to give one list to one set; membership is what the laws are about.
-/

namespace NullCheck

namespace Sorted

variable {α β : Type} [Ord α] [DecidableEq α]

/-- Puts an element before the first one that comes after it. -/
def place (a : α) : List α → List α
  | [] => [a]
  | b :: bs => if (compare a b).isLT then a :: b :: bs else b :: place a bs

/-- Adds an element, unless it is there. -/
def insert (a : α) (as : List α) : List α := if a ∈ as then as else place a as

/-- Adds elements. -/
def insertAll (new as : List α) : List α := new.foldl (fun as a => insert a as) as

/-- The value of a key. -/
def get? (k : α) : List (α × β) → Option β
  | [] => none
  | e :: es => if e.1 = k then some e.2 else get? k es

/-- Puts an entry before the first one whose key comes after its key. -/
def placeEntry (k : α) (b : β) : List (α × β) → List (α × β)
  | [] => [(k, b)]
  | e :: es => if (compare k e.1).isLT then (k, b) :: e :: es else e :: placeEntry k b es

/-- Gives a key a value. -/
def put (k : α) (b : β) (es : List (α × β)) : List (α × β) :=
  if es.any fun e => e.1 = k then es.map fun e => if e.1 = k then (k, b) else e
  else placeEntry k b es

omit [DecidableEq α] in
@[simp] theorem mem_place {a b : α} {as : List α} : b ∈ place a as ↔ b = a ∨ b ∈ as := by
  induction as with
  | nil => simp [place]
  | cons c cs ih => rw [place]; split <;> simp [ih, or_left_comm]

@[simp] theorem mem_insert {a b : α} {as : List α} : b ∈ insert a as ↔ b = a ∨ b ∈ as := by
  unfold insert
  split
  · constructor
    · exact Or.inr
    · rintro (rfl | h) <;> assumption
  · exact mem_place

@[simp] theorem mem_insertAll {b : α} {new as : List α} : b ∈ insertAll new as ↔ b ∈ new ∨ b ∈ as := by
  induction new generalizing as with
  | nil => simp [insertAll]
  | cons c cs ih =>
    have h := @ih (insert c as)
    unfold insertAll at h ⊢
    rw [List.foldl_cons, h, mem_insert, List.mem_cons]
    constructor
    · rintro (h | h | h) <;> simp [h]
    · rintro ((h | h) | h) <;> simp [h]

/-- A key that was given a value has it. -/
theorem get?_put_self (k : α) (b : β) (es : List (α × β)) : get? k (put k b es) = some b := by
  -- a new key is found where it is placed
  have hplace : ∀ es : List (α × β), (∀ e ∈ es, e.1 ≠ k) → get? k (placeEntry k b es) = some b := by
    intro es
    induction es with
    | nil => intro _; simp [placeEntry, get?]
    | cons e es ih =>
      intro h
      rw [placeEntry]
      split
      · simp [get?]
      · rw [get?, if_neg (h e (List.mem_cons_self ..))]
        exact ih fun f hf => h f (List.mem_cons_of_mem _ hf)
  -- a key that is there is found with its new value
  have hmap : ∀ es : List (α × β), (es.any fun e => e.1 = k) →
      get? k (es.map fun e => if e.1 = k then (k, b) else e) = some b := by
    intro es
    induction es with
    | nil => intro h; simp at h
    | cons e es ih =>
      intro h
      by_cases he : e.1 = k
      · simp [get?, he]
      · simp only [List.any_cons, he, decide_false, Bool.false_or] at h
        rw [List.map_cons, if_neg he, get?, if_neg he]
        exact ih h
  unfold put
  split
  · rename_i h
    exact hmap es h
  · rename_i h
    refine hplace es fun e he hk => h ?_
    simp only [List.any_eq_true, decide_eq_true_eq]
    exact ⟨e, he, hk⟩

end Sorted

end NullCheck
