import NullCheck.JvmType.Descriptor

/-!
# Types and their descriptors

Not every type can be read from its descriptor: a name may be empty or hold a semicolon, and there is no array of
`void`. All other types are read from every text that begins with their descriptor, and what is read from the front of
a text is such a type. Where the descriptor of a type is accepted at all, it denotes that type.

## The architecture

* **`JvmType.IsProper`**: the types that can be read.
* **`JvmType.nameOf_eq_ok_iff`**: names are read up to the first semicolon.
* **`JvmType.ofFront_eq_ok_iff`**: a type is read from the front of a text just if it is proper and the text begins with
  its descriptor.
* **`JvmType.eq_of_parse_display`**: the headline.
-/

namespace NullCheck

/-- A sequence of checks that succeeds is made of checks that succeed. -/
theorem exists_of_bind_eq_ok {α β ε : Type} {x : Except ε α} {f : α → Except ε β} {b : β}
    (h : x >>= f = .ok b) : ∃ a, x = .ok a ∧ f a = .ok b := by
  cases x with
  | error e => cases h
  | ok a => exact ⟨a, rfl, h⟩

namespace JvmType

variable {t u : JvmType} {cs rest : List Char}

/-- The names that can stand in a descriptor. -/
def IsName (name : String) : Prop := name ≠ "" ∧ ';' ∉ name.toList

/-- The types that can be read: their names can stand in a descriptor, and no array has `void` as its component. -/
def IsProper : JvmType → Prop
  | .void | .primitive _ => True
  | .classType name | .typeVar name => IsName name
  | .array component => component ≠ .void ∧ component.IsProper

/-- Different types have different descriptors, proper or not. -/
theorem eq_of_chars (h : t.chars = u.chars) : t = u := by
  have hname : ∀ {c d : Char} {n m : String}, c :: n.toList ++ [';'] = d :: m.toList ++ [';'] → n = m := by
    intro c d n m h
    exact String.toList_inj.mp (List.append_cancel_right (List.cons.inj h).2)
  -- the first character tells the form of the type
  induction t generalizing u with
  | void => cases u with
    | primitive q => cases q <;> cases h
    | _ => first | rfl | cases h
  | primitive p => cases u with
    | primitive q => cases p <;> cases q <;> first | rfl | cases h
    | _ => cases p <;> cases h
  | classType name => cases u with
    | primitive q => cases q <;> cases h
    | classType n => rw [hname h]
    | _ => cases h
  | typeVar name => cases u with
    | primitive q => cases q <;> cases h
    | typeVar n => rw [hname h]
    | _ => cases h
  | array component ih => cases u with
    | primitive q => cases q <;> cases h
    | array c => rw [ih (List.cons.inj h).2]
    | _ => cases h

/-! ## Reading from the front of a text -/

/-- **A name is read up to the first semicolon.** -/
theorem nameOf_eq_ok_iff {text : List Char} {name : String} :
    nameOf text cs = .ok (name, rest) ↔ IsName name ∧ cs = name.toList ++ ';' :: rest := by
  unfold nameOf
  constructor
  · intro h
    have hsplit := List.takeWhile_append_dropWhile (p := (· ≠ ';')) (l := cs)
    split at h
    · cases h
    · rename_i c rest' hdrop
      split at h
      · cases h
      · rename_i hne
        cases h
        -- what is dropped begins with a semicolon, and what is taken holds none
        have hsemicolon : c = ';' := by
          have hhead := List.head?_dropWhile_not (· ≠ ';') cs
          rw [hdrop] at hhead
          simpa using hhead
        subst hsemicolon
        refine ⟨⟨fun h => hne (String.ofList_eq_empty_iff.mp h), fun hmem => ?_⟩, ?_⟩
        · rw [String.toList_ofList] at hmem
          simpa using List.all_eq_true.mp List.all_takeWhile ';' hmem
        · rw [String.toList_ofList, ← hdrop, hsplit]
  · rintro ⟨⟨hne, hnot⟩, rfl⟩
    have hall : ∀ c ∈ name.toList, decide (c ≠ ';') = true := by
      intro c hc
      exact decide_eq_true fun h => hnot (h ▸ hc)
    rw [List.dropWhile_append_of_pos hall, List.takeWhile_append_of_pos hall]
    simp only [List.dropWhile_cons, List.takeWhile_cons, ne_eq, not_true_eq_false, decide_false, Bool.false_eq_true,
      if_false, List.append_nil]
    split
    · rename_i h
      exact absurd (String.toList_eq_nil_iff.mp h) hne
    · rw [String.ofList_toList]

/-- A type that is read from the front of a text is proper, and the text begins with its descriptor. -/
theorem isProper_of_ofFront (h : ofFront cs = .ok (t, rest)) : t.IsProper ∧ cs = t.chars ++ rest := by
  fun_induction ofFront cs generalizing t rest with
  | case1 => cases h
  | case2 cs =>
    cases h
    exact ⟨trivial, rfl⟩
  | case3 cs => cases h
  -- an array: its component is proper and is not `void`
  | case4 cs component rest' hvoid hcomponent ih =>
    cases h
    obtain ⟨hproper, rfl⟩ := ih hcomponent
    exact ⟨⟨hvoid, hproper⟩, rfl⟩
  | case5 cs e he => cases h
  | case6 cs =>
    obtain ⟨⟨name, rest'⟩, hname, h⟩ := exists_of_bind_eq_ok h
    cases h
    obtain ⟨hproper, rfl⟩ := nameOf_eq_ok_iff.mp hname
    exact ⟨hproper, by simp [chars]⟩
  | case7 cs =>
    obtain ⟨⟨name, rest'⟩, hname, h⟩ := exists_of_bind_eq_ok h
    cases h
    obtain ⟨hproper, rfl⟩ := nameOf_eq_ok_iff.mp hname
    exact ⟨hproper, by simp [chars]⟩
  | case8 c cs _ _ _ _ p hp =>
    cases h
    exact ⟨trivial, by rw [Primitive.ofLetter?_eq_some.mp hp]; rfl⟩
  | case9 c cs => cases h

/-- A proper type is read from every text that begins with its descriptor. -/
theorem IsProper.ofFront_append (ht : t.IsProper) (rest : List Char) : ofFront (t.chars ++ rest) = .ok (t, rest) := by
  induction t with
  | void => rfl
  | primitive p => cases p <;> rfl
  | classType name =>
    -- (name :: a name is read up to the semicolon behind it
    have hname : nameOf ('L' :: (name.toList ++ ';' :: rest)) (name.toList ++ ';' :: rest) = .ok (name, rest) :=
      nameOf_eq_ok_iff.mpr ⟨ht, rfl⟩
    rw [chars, List.cons_append, List.cons_append, List.append_assoc, List.singleton_append, ofFront, hname]
    rfl
  | typeVar name =>
    have hname : nameOf ('T' :: (name.toList ++ ';' :: rest)) (name.toList ++ ';' :: rest) = .ok (name, rest) :=
      nameOf_eq_ok_iff.mpr ⟨ht, rfl⟩
    rw [chars, List.cons_append, List.cons_append, List.append_assoc, List.singleton_append, ofFront, hname]
    rfl
  | array component ih =>
    obtain ⟨hvoid, hproper⟩ := ht
    rw [chars, List.cons_append, ofFront, ih hproper]
    -- an array of `void` would be refused
    cases component with
    | void => exact absurd rfl hvoid
    | _ => rfl

/-- **A type is read from the front of a text** just if it is proper and the text begins with its descriptor. -/
theorem ofFront_eq_ok_iff : ofFront cs = .ok (t, rest) ↔ t.IsProper ∧ cs = t.chars ++ rest := by
  constructor
  · exact isProper_of_ofFront
  · rintro ⟨hproper, rfl⟩
    exact hproper.ofFront_append rest

/-! ## Reading a whole text -/

/-- A text that denotes a type is read to its end. -/
theorem ofFront_of_ofChars (h : ofChars cs = .ok u) : ofFront cs = .ok (u, []) := by
  obtain ⟨⟨v, rest⟩, hfront, h⟩ := exists_of_bind_eq_ok h
  simp only at h
  split at h
  · cases h
  · rename_i hrest
    obtain rfl : rest = [] := Decidable.of_not_not hrest
    split at h
    · cases h
      exact hfront
    · obtain ⟨-, -, h⟩ := exists_of_bind_eq_ok h
      cases h
      exact hfront

/-- **The descriptor of a type denotes no other type.** -/
theorem eq_of_parse_display (h : parse t.display = .ok u) : u = t := by
  rw [parse, display, String.toList_ofList] at h
  obtain ⟨-, hchars⟩ := ofFront_eq_ok_iff.mp (ofFront_of_ofChars h)
  rw [List.append_nil] at hchars
  exact (eq_of_chars hchars).symm

end JvmType

end NullCheck
