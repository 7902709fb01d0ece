import Mathlib.Control.Monad.Basic
import NullCheck.Proofs.JvmType.Display

/-!
# What texts denote types

A type descriptor is a letter, or a letter and a name, behind some array brackets. What is read from the front of a text
is checked a second time, by the grammar of method descriptors, which knows neither type variables nor more than 255
brackets and is more permissive otherwise. The check agrees with the first reading but for these two: it ends a type
where the first reading ends it, whatever characters the names are made of.

## The architecture

* **`MethodGrammar.nextType_eq_ok_iff`**: the descriptor of a proper type is one type by grammar, if a class file can
  hold it.
* **`MethodGrammar.ofChars_eq_ok_iff`**: so a method descriptor that is made of proper types is split by grammar into
  just these types.
* **`JvmType.ofChars_eq_ok_iff`**: what a whole text denotes.
* **`IsTypeText`**, **`JvmType.exists_readable_iff`**: the texts that denote types.
* **`JvmType.parse_exact`**: the headline.
-/

namespace NullCheck

namespace JvmType

variable {t : JvmType}

/-- The types that a class file can hold, as far as their form is concerned. -/
structure FitsClassFile (t : JvmType) : Prop where
  noTypeVar : t.mentionsTypeVar = false
  depth : t.arrayDepth ≤ 255

/-- The types that can be read from a text of their own. -/
structure IsReadable (t : JvmType) : Prop where
  proper : t.IsProper
  depth : t.mentionsTypeVar = true ∨ t.arrayDepth ≤ 255

/-! ## Types and their innermost component -/

/-- A type is spelled by its brackets and then by what is innermost. -/
theorem chars_eq (t : JvmType) : t.chars = List.replicate t.arrayDepth '[' ++ t.innermost.chars := by
  induction t with
  | array component ih => rw [chars, arrayDepth, innermost, List.replicate_succ, List.cons_append, ← ih]
  | _ => rfl

theorem mentionsTypeVar_innermost (t : JvmType) : t.innermost.mentionsTypeVar = t.mentionsTypeVar := by
  induction t with
  | array component ih => exact ih
  | _ => rfl

theorem IsProper.innermost (h : t.IsProper) : t.innermost.IsProper := by
  induction t with
  | array component ih => exact ih h.2
  | _ => exact h

theorem innermost_ne_array (t component : JvmType) : t.innermost ≠ .array component := by
  induction t with
  | array c ih => exact ih
  | _ =>
    intro h
    cases h

theorem eq_innermost_of_arrayDepth (h : t.arrayDepth = 0) : t.innermost = t := by
  cases t with
  | array component => cases h
  | _ => rfl

theorem kind_of_arrayDepth {n : Nat} (h : t.arrayDepth = n + 1) : t.kind = .reference := by
  cases t with
  | array component => rfl
  | _ => cases h

end JvmType

/-! ## Types by grammar -/

namespace MethodGrammar

open JvmType (chars)

variable {t : JvmType} {rest rest' : List Char}

/-- All brackets in front are counted. -/
theorem brackets_replicate (n : Nat) {cs : List Char} (h : ∀ rest, cs ≠ '[' :: rest) :
    brackets (List.replicate n '[' ++ cs) = (n, cs) := by
  induction n with
  | zero =>
    rw [List.replicate_zero, List.nil_append]
    unfold brackets
    split
    · rename_i rest
      exact absurd rfl (h rest)
    · rfl
  | succ n ih => rw [List.replicate_succ, List.cons_append, brackets, ih]

/-- So reading a type takes its brackets, and leaves what is innermost. -/
theorem brackets_chars (t : JvmType) (rest : List Char) :
    brackets (t.chars ++ rest) = (t.arrayDepth, t.innermost.chars ++ rest) := by
  rw [t.chars_eq, List.append_assoc]
  refine brackets_replicate _ fun cs h => ?_
  -- what is innermost starts with a letter and not with a bracket
  have hform := t.innermost_ne_array
  cases hinnermost : t.innermost with
  | array component => exact hform component hinnermost
  | primitive p =>
    rw [hinnermost] at h
    cases p <;> cases h
  | _ =>
    rw [hinnermost] at h
    cases h

/-- A proper type that is no array is one type by grammar, unless it is a type variable. -/
theorem baseType_chars (ht : t.IsProper) (harray : ∀ component, t ≠ .array component) (rest : List Char) :
    baseType (t.chars ++ rest) =
      if t.mentionsTypeVar = true then .error .unrecognized else .ok (some t.kind, rest) := by
  cases t with
  | void => rfl
  | primitive p => cases p <;> rfl
  | typeVar name => rfl
  | array component => exact absurd rfl (harray component)
  | classType name =>
    -- the name is skipped up to the semicolon behind it
    have hname : ∀ c ∈ name.toList, decide (c ≠ ';') = true := fun c hc => decide_eq_true fun h => ht.2 (h ▸ hc)
    have hdrop : (name.toList ++ [';'] ++ rest).dropWhile (· ≠ ';') = ';' :: rest := by
      rw [List.append_assoc, List.dropWhile_append_of_pos hname]
      rfl
    rw [chars, List.cons_append, List.cons_append, baseType, if_neg (by decide), if_neg (by decide), if_pos rfl, hdrop]
    rfl

/-- **A proper type is one type by grammar,** unless it has too many brackets or is made from a type variable. -/
theorem nextType_chars (ht : t.IsProper) (rest : List Char) :
    nextType (t.chars ++ rest) =
      if 255 < t.arrayDepth then .error .tooManyDimensions
      else if t.mentionsTypeVar = true then .error .unrecognized
      else .ok (some t.kind, rest) := by
  -- behind the brackets stands a base type
  have hbase := baseType_chars ht.innermost t.innermost_ne_array rest
  rw [t.mentionsTypeVar_innermost] at hbase
  unfold nextType
  rw [brackets_chars]
  cases hdepth : t.arrayDepth with
  | zero =>
    rw [JvmType.eq_innermost_of_arrayDepth hdepth] at hbase ⊢
    exact hbase
  | succ n =>
    rw [JvmType.kind_of_arrayDepth hdepth]
    show (if 255 < n + 1 then _ else _) = _
    rw [hbase]
    split
    · rfl
    · cases t.mentionsTypeVar <;> rfl

/-- The class file reader accepts a type in front iff it fits a class file, and then it goes on behind it. -/
theorem nextType_eq_ok_iff (ht : t.IsProper) {k : Option TypeKind} :
    nextType (t.chars ++ rest) = .ok (k, rest') ↔ t.FitsClassFile ∧ k = some t.kind ∧ rest' = rest := by
  rw [nextType_chars ht]
  constructor
  · intro h
    split at h
    · cases h
    · rename_i hdepth
      split at h
      · cases h
      · rename_i hvar
        cases h
        exact ⟨⟨Bool.eq_false_iff.mpr hvar, Nat.le_of_not_lt hdepth⟩, rfl, rfl⟩
  · rintro ⟨⟨hvar, hdepth⟩, rfl, rfl⟩
    rw [if_neg (Nat.not_lt.mpr hdepth), if_neg (Bool.eq_false_iff.mp hvar)]

/-! ## Method descriptors by grammar -/

theorem nextType_parenthesis (rest : List Char) : nextType (')' :: rest) = .ok (none, rest) := rfl

/-- A list of types is read up to the closing parenthesis just if a class file can hold them all. -/
theorem parameterTypes_eq_ok_iff {ts : List JvmType} (hts : ∀ t ∈ ts, t.IsProper) {ks : List TypeKind} :
    parameterTypes (ts.flatMap chars ++ ')' :: rest) = .ok (ks, rest') ↔
      (∀ t ∈ ts, t.FitsClassFile) ∧ ks = ts.map JvmType.kind ∧ rest' = rest := by
  induction ts generalizing ks rest' with
  | nil =>
    rw [List.flatMap_nil, List.nil_append, parameterTypes, nextType_parenthesis]
    simp [eq_comm]
  | cons t ts ih =>
    obtain ⟨ht, hts⟩ := List.forall_mem_cons.mp hts
    rw [List.flatMap_cons, List.append_assoc, parameterTypes, List.forall_mem_cons, List.map_cons]
    split
    · rename_i e he
      refine iff_of_false (fun h => by cases h) fun h => ?_
      rw [(nextType_eq_ok_iff ht).mpr ⟨h.1.1, rfl, rfl⟩] at he
      cases he
    · rename_i hk
      cases ((nextType_eq_ok_iff ht).mp hk).2.1
    · rename_i k rest'' hk
      -- the first type is read, and the others are what is left
      obtain ⟨hfits, hkind, rfl⟩ := (nextType_eq_ok_iff ht).mp hk
      cases hkind
      split
      · rename_i e he
        refine iff_of_false (fun h => by cases h) fun h => ?_
        rw [(ih hts).mpr ⟨h.1.2, rfl, rfl⟩] at he
        cases he
      · rename_i ks' rest'' hks
        obtain ⟨hall, rfl, rfl⟩ := (ih hts).mp hks
        rw [Except.ok.injEq, Prod.mk.injEq]
        exact ⟨fun h => ⟨⟨hfits, hall⟩, h.1.symm, h.2.symm⟩, fun h => ⟨h.2.1.symm, h.2.2.symm⟩⟩

/-- **A method descriptor that is made of proper types** is split into just these types by grammar, if a class file can
hold them all; what follows the result does not matter. -/
theorem ofChars_eq_ok_iff {ts : List JvmType} {r : JvmType} (hts : ∀ t ∈ ts, t.IsProper) (hr : r.IsProper)
    {m : MethodGrammar} :
    ofChars ('(' :: (ts.flatMap chars ++ ')' :: (r.chars ++ rest))) = .ok m ↔
      ((∀ t ∈ ts, t.FitsClassFile) ∧ r.FitsClassFile) ∧ m = ⟨ts.map JvmType.kind, r.kind⟩ := by
  rw [ofChars]
  constructor
  · intro h
    obtain ⟨⟨ks, rest'⟩, hks, hresult⟩ := exists_of_bind_eq_ok h
    obtain ⟨hall, rfl, rfl⟩ := (parameterTypes_eq_ok_iff hts).mp hks
    obtain ⟨⟨k, rest''⟩, hk, hmade⟩ := exists_of_bind_eq_ok hresult
    obtain ⟨hfits, rfl, rfl⟩ := (nextType_eq_ok_iff hr).mp hk
    cases hmade
    exact ⟨⟨hall, hfits⟩, rfl⟩
  · rintro ⟨⟨hall, hfits⟩, rfl⟩
    rw [(parameterTypes_eq_ok_iff hts).mpr ⟨hall, rfl, rfl⟩]
    show (nextType (r.chars ++ rest) >>= _) = _
    rw [(nextType_eq_ok_iff hr).mpr ⟨hfits, rfl, rfl⟩]
    rfl

end MethodGrammar

/-! ## What a whole text denotes -/

namespace JvmType

variable {t : JvmType} {cs : List Char}

/-- **The check by grammar** is passed just by the types that a class file can hold. -/
theorem checkGrammar_eq_ok_iff (ht : t.IsProper) : checkGrammar t.chars = .ok () ↔ t.FitsClassFile := by
  -- the type is wrapped as the only parameter of a method without a result
  have hwrapped : '(' :: t.chars ++ [')', 'V'] = '(' :: ([t].flatMap chars ++ ')' :: (void.chars ++ [])) := by
    simp [chars]
  have hread := @MethodGrammar.ofChars_eq_ok_iff [] [t] void (by simpa using ht) trivial
  have hvoid : void.FitsClassFile := ⟨rfl, Nat.zero_le _⟩
  unfold checkGrammar
  rw [hwrapped]
  split
  · rename_i e he
    refine iff_of_false (fun h => by cases h) fun h => ?_
    rw [hread.mpr ⟨⟨by simpa using h, hvoid⟩, rfl⟩] at he
    cases he
  · rename_i m hm
    obtain ⟨⟨hfits, -⟩, rfl⟩ := hread.mp hm
    simpa using hfits

/-- A type that was spelled is read back as itself. Its grammar is checked, unless it is `void` or mentions a type
variable. -/
theorem ofChars_chars (ht : t.IsProper) :
    ofChars t.chars =
      if t = .void ∨ t.mentionsTypeVar = true then .ok t else (checkGrammar t.chars).map fun _ => t := by
  have hfront : ofFront t.chars = .ok (t, []) := ofFront_eq_ok_iff.mpr ⟨ht, (List.append_nil _).symm⟩
  unfold ofChars
  rw [hfront]
  cases checkGrammar t.chars <;> rfl

/-- **A text denotes a type** just if it is the descriptor of the type and the type is readable. -/
theorem ofChars_eq_ok_iff : ofChars cs = .ok t ↔ t.IsReadable ∧ t.chars = cs := by
  constructor
  · intro h
    obtain ⟨hproper, hchars⟩ := ofFront_eq_ok_iff.mp (ofFront_of_ofChars h)
    rw [List.append_nil] at hchars
    subst hchars
    refine ⟨⟨hproper, ?_⟩, rfl⟩
    rw [ofChars_chars hproper] at h
    split at h
    · -- nothing is checked: it is `void`, or it mentions a type variable
      rename_i hexempt
      rcases hexempt with rfl | hvar
      · exact Or.inr (Nat.zero_le _)
      · exact Or.inl hvar
    · cases hcheck : checkGrammar t.chars with
      | error e =>
        rw [hcheck] at h
        cases h
      | ok _ => exact Or.inr ((checkGrammar_eq_ok_iff hproper).mp hcheck).depth
  · rintro ⟨⟨hproper, hdepth⟩, rfl⟩
    rw [ofChars_chars hproper]
    split
    · rfl
    · rename_i hexempt
      rw [not_or] at hexempt
      have hfits : t.FitsClassFile := ⟨Bool.eq_false_iff.mpr hexempt.2, hdepth.resolve_left hexempt.2⟩
      rw [(checkGrammar_eq_ok_iff hproper).mpr hfits]
      rfl

end JvmType

/-! ## The texts that denote types -/

/-- The texts of types that are neither `void` nor arrays: a letter of a primitive type, or `L` or `T` and a name that
is not empty, up to a semicolon. -/
inductive IsElementText : List Char → Prop
  | primitive (p : Primitive) : IsElementText [p.letter]
  | named {letter : Char} {name : List Char} (hletter : letter = 'L' ∨ letter = 'T') (hname : name ≠ [])
      (hsemicolon : ';' ∉ name) : IsElementText (letter :: name ++ [';'])

/-- The texts of types: `V`, or the text of an element behind some array brackets, no more than 255 of them unless the
element is a type variable. -/
inductive IsTypeText : List Char → Prop
  | void : IsTypeText ['V']
  | element {cs : List Char} (helement : IsElementText cs) : IsTypeText cs
  | array {n : Nat} {cs : List Char} (hn : 1 ≤ n) (helement : IsElementText cs)
      (hdepth : n ≤ 255 ∨ cs.head? = some 'T') : IsTypeText (List.replicate n '[' ++ cs)

namespace JvmType

variable {t : JvmType} {cs : List Char}

/-- A type behind some array brackets. -/
def behind (t : JvmType) : Nat → JvmType
  | 0 => t
  | n + 1 => .array (t.behind n)

theorem chars_behind (t : JvmType) (n : Nat) : (t.behind n).chars = List.replicate n '[' ++ t.chars := by
  induction n with
  | zero => rfl
  | succ n ih => rw [behind, chars, ih, List.replicate_succ, List.cons_append]

@[simp] theorem arrayDepth_behind (t : JvmType) (n : Nat) : (t.behind n).arrayDepth = t.arrayDepth + n := by
  induction n with
  | zero => rfl
  | succ n ih => rw [behind, arrayDepth, ih, Nat.add_assoc]

@[simp] theorem mentionsTypeVar_behind (t : JvmType) (n : Nat) :
    (t.behind n).mentionsTypeVar = t.mentionsTypeVar := by
  induction n with
  | zero => rfl
  | succ n ih => exact ih

/-- Array brackets do no harm to a proper type that is not `void`. -/
theorem IsProper.behind (ht : t.IsProper) (hvoid : t ≠ .void) (n : Nat) :
    (t.behind n).IsProper ∧ t.behind n ≠ .void := by
  induction n with
  | zero => exact ⟨ht, hvoid⟩
  | succ n ih => exact ⟨⟨ih.2, ih.1⟩, fun h => by cases h⟩

/-- The innermost component of a proper array is not `void`. -/
theorem IsProper.innermost_ne_void {n : Nat} (ht : t.IsProper) (hdepth : t.arrayDepth = n + 1) : t.innermost ≠ .void := by
  induction t generalizing n with
  | array component ih =>
    cases n with
    | zero =>
      have hinnermost : component.innermost = component :=
        eq_innermost_of_arrayDepth (Nat.succ.inj hdepth)
      exact fun h => ht.1 (hinnermost ▸ h)
    | succ n => exact ih ht.2 (Nat.succ.inj hdepth)
  | _ => cases hdepth

/-- The descriptor of a proper type that is neither `void` nor an array is the text of an element, and the element is a
type variable just if the text begins with `T`. -/
theorem IsProper.isElementText (ht : t.IsProper) (hvoid : t ≠ .void) (harray : ∀ component, t ≠ .array component) :
    IsElementText t.chars ∧ (t.mentionsTypeVar = true → t.chars.head? = some 'T') := by
  cases t with
  | void => exact absurd rfl hvoid
  | primitive p => exact ⟨.primitive p, fun h => by cases h⟩
  | classType name =>
    exact ⟨.named (Or.inl rfl) (fun h => ht.1 (String.toList_eq_nil_iff.mp h)) ht.2, fun h => by cases h⟩
  | typeVar name => exact ⟨.named (Or.inr rfl) (fun h => ht.1 (String.toList_eq_nil_iff.mp h)) ht.2, fun _ => rfl⟩
  | array component => exact absurd rfl (harray component)

/-- The text of an element is the descriptor of a proper type that is neither `void` nor an array. -/
theorem exists_of_isElementText (h : IsElementText cs) :
    ∃ t : JvmType, t.chars = cs ∧ t.IsProper ∧ t ≠ .void ∧ t.arrayDepth = 0 ∧
      (cs.head? = some 'T' → t.mentionsTypeVar = true) := by
  cases h with
  | primitive p =>
    refine ⟨.primitive p, rfl, trivial, (fun h => by cases h), rfl, fun h => ?_⟩
    cases p <;> cases h
  | @named letter name hletter hname hsemicolon =>
    have hproper : IsName (String.ofList name) :=
      ⟨fun h => hname (String.ofList_eq_empty_iff.mp h), by rwa [String.toList_ofList]⟩
    have hchars : (String.ofList name).toList = name := String.toList_ofList
    rcases hletter with rfl | rfl
    · refine ⟨.classType (String.ofList name), by rw [chars, hchars], hproper, (fun h => by cases h), rfl, fun h => ?_⟩
      cases h
    · exact ⟨.typeVar (String.ofList name), by rw [chars, hchars], hproper, (fun h => by cases h), rfl, fun _ => rfl⟩

/-- **The texts of types are the descriptors of the readable types.** -/
theorem exists_readable_iff : (∃ t : JvmType, t.IsReadable ∧ t.chars = cs) ↔ IsTypeText cs := by
  constructor
  · rintro ⟨t, ⟨hproper, hdepth⟩, rfl⟩
    cases hn : t.arrayDepth with
    | zero =>
      by_cases hvoid : t = .void
      · rw [hvoid]
        exact .void
      · have hinnermost := eq_innermost_of_arrayDepth hn
        exact .element (hproper.isElementText hvoid (hinnermost ▸ t.innermost_ne_array)).1
    | succ n =>
      -- brackets, and then what is innermost is an element
      obtain ⟨helement, hvar⟩ :=
        hproper.innermost.isElementText (hproper.innermost_ne_void hn) t.innermost_ne_array
      rw [t.mentionsTypeVar_innermost] at hvar
      rw [t.chars_eq, hn]
      exact .array (Nat.le_add_left 1 n) helement (hdepth.symm.imp (hn ▸ ·) hvar)
  · intro h
    cases h with
    | void => exact ⟨.void, ⟨trivial, Or.inr (Nat.zero_le _)⟩, rfl⟩
    | element helement =>
      obtain ⟨t, hchars, hproper, -, hdepth, -⟩ := exists_of_isElementText helement
      exact ⟨t, ⟨hproper, Or.inr (by omega)⟩, hchars⟩
    | @array n cs hn helement hdepth =>
      obtain ⟨t, rfl, hproper, hvoid, ht, hvar⟩ := exists_of_isElementText helement
      refine ⟨t.behind n, ⟨(hproper.behind hvoid n).1, ?_⟩, t.chars_behind n⟩
      rw [mentionsTypeVar_behind, arrayDepth_behind, ht, Nat.zero_add]
      exact hdepth.symm.imp_left hvar

/-- **Reading a type is exact.** A text denotes a type just if the type is readable and the text is its descriptor; and a
text denotes some type just if it has the form of a descriptor. -/
theorem parse_exact (text : String) :
    (∀ t, parse text = .ok t ↔ t.IsReadable ∧ t.display = text) ∧
      ((∃ t, parse text = .ok t) ↔ IsTypeText text.toList) := by
  have hexact : ∀ t, parse text = .ok t ↔ t.IsReadable ∧ t.chars = text.toList := fun t => ofChars_eq_ok_iff
  constructor
  · intro t
    rw [hexact, ← String.toList_inj, display, String.toList_ofList]
  · simp only [hexact]
    exact exists_readable_iff

/-- Parentheses and brackets in a name are part of the name. -/
example : parse "[[La)[(b;" = .ok (.array (.array (.classType "a)[(b"))) := by decide +kernel

end JvmType

end NullCheck
