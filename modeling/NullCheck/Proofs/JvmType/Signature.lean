import NullCheck.Proofs.JvmType.Grammar

/-!
# Two readings of method descriptors

A method descriptor is read twice: for the types in it, and by grammar, for the number of its parameters and the kind of
its result. Where the types can be read, the reading by grammar succeeds just if a class file can hold them, and it
splits the descriptor into the same types.

* **`Signature.parse_eq_ok_iff`**: what a method descriptor denotes.
* **`Signature.ofChars_eq_ok_iff`**: what the grammar makes of it.
* **`Signature.parameterCount_eq_ok_iff`**, **`Signature.resultKind_eq_ok_iff`**: the number of parameters and the kind
  of the result, by grammar.
-/

namespace NullCheck

open JvmType (chars)

namespace Signature

variable {s : Signature} {text : String} {cs rest : List Char} {ts : List JvmType}

/-- The descriptor of a method. -/
def chars (s : Signature) : List Char := '(' :: (s.parameters.flatMap JvmType.chars ++ ')' :: s.result.chars)

/-- The signatures that can be read. -/
structure IsReadable (s : Signature) : Prop where
  parameters : ∀ t ∈ s.parameters, t.IsProper ∧ t ≠ .void
  result : s.result.IsReadable

/-- The signatures that a class file can hold: no type in them is made from a type variable, and no parameter has too
many array brackets. -/
structure FitsClassFile (s : Signature) : Prop where
  parameters : ∀ t ∈ s.parameters, t.mentionsTypeVar = false ∧ t.arrayDepth ≤ 255
  result : s.result.mentionsTypeVar = false

/-! ## The types of a descriptor -/

/-- A type begins with neither the end of the text nor a closing parenthesis. -/
theorem chars_append_ne (t : JvmType) (cs rest : List Char) : t.chars ++ cs ≠ [] ∧ t.chars ++ cs ≠ ')' :: rest := by
  cases t with
  | primitive p => cases p <;> exact ⟨(fun h => by cases h), fun h => by cases h⟩
  | _ => exact ⟨(fun h => by cases h), fun h => by cases h⟩

/-- A proper type in front is the first parameter. -/
theorem parametersOf_append {t : JvmType} (ht : t.IsProper) (hvoid : t ≠ .void) (cs : List Char) :
    parametersOf text (t.chars ++ cs) = (parametersOf text cs).map fun r => (t :: r.1, r.2) := by
  -- the text starts with a type, which is not the closing parenthesis
  have hfront := ht.ofFront_append cs
  rw [parametersOf.eq_def]
  split
  · rename_i h
    exact absurd h (chars_append_ne t cs []).1
  · rename_i rest h
    exact absurd h (chars_append_ne t cs rest).2
  · split
    · rename_i e h
      rw [hfront] at h
      cases h
    · rename_i rest h
      rw [hfront] at h
      cases h
      exact absurd rfl hvoid
    · rename_i u rest _ h
      rw [hfront] at h
      cases h
      cases parametersOf text cs <;> rfl

/-- **Parameters are read up to the closing parenthesis.** -/
theorem parametersOf_eq_ok_iff :
    parametersOf text cs = .ok (ts, rest) ↔
      (∀ t ∈ ts, t.IsProper ∧ t ≠ .void) ∧ cs = ts.flatMap JvmType.chars ++ ')' :: rest := by
  constructor
  · intro h
    fun_induction parametersOf text cs generalizing ts with
    | case2 rest =>
      cases h
      exact ⟨fun _ h => absurd h List.not_mem_nil, rfl⟩
    | case6 cs _ _ t front hvoid hfront ts' rest' hrest ih =>
      -- a type, and then the other parameters
      cases h
      obtain ⟨hproper, rfl⟩ := JvmType.ofFront_eq_ok_iff.mp hfront
      obtain ⟨hts, rfl⟩ := ih hrest
      refine ⟨List.forall_mem_cons.mpr ⟨⟨hproper, hvoid⟩, hts⟩, ?_⟩
      rw [List.flatMap_cons, List.append_assoc]
    | _ => cases h
  · rintro ⟨hts, rfl⟩
    induction ts with
    | nil => rw [List.flatMap_nil, List.nil_append, parametersOf]
    | cons t ts ih =>
      obtain ⟨⟨hproper, hvoid⟩, hts⟩ := List.forall_mem_cons.mp hts
      rw [List.flatMap_cons, List.append_assoc, parametersOf_append hproper hvoid, ih hts]
      rfl

/-- **A text denotes a signature** just if it is the descriptor of the signature and the signature is readable. -/
theorem parse_eq_ok_iff : parse text = .ok s ↔ s.IsReadable ∧ s.chars = text.toList := by
  unfold parse
  constructor
  · intro h
    split at h
    · rename_i cs hcs
      obtain ⟨⟨ts, rest⟩, hparameters, h⟩ := exists_of_bind_eq_ok h
      -- the parameters up to the parenthesis, then the result up to the end
      obtain ⟨hts, hchars⟩ := parametersOf_eq_ok_iff.mp hparameters
      simp only at h
      split at h
      · rename_i r hr
        obtain ⟨hreadable, hrest⟩ := JvmType.ofChars_eq_ok_iff.mp hr
        cases h
        refine ⟨⟨hts, hreadable⟩, ?_⟩
        rw [hcs, hchars, ← hrest]
        rfl
      · cases h
    · cases h
  · rintro ⟨hreadable, hchars⟩
    have hresult : JvmType.ofChars s.result.chars = .ok s.result := JvmType.ofChars_eq_ok_iff.mpr ⟨hreadable.result, rfl⟩
    rw [← hchars]
    show (parametersOf text (s.parameters.flatMap JvmType.chars ++ ')' :: s.result.chars) >>= _) = _
    rw [parametersOf_eq_ok_iff.mpr ⟨hreadable.parameters, rfl⟩]
    simp only [bind, Except.bind, hresult]
    rfl

/-! ## What the grammar makes of it -/

/-- The descriptor of a readable signature is split by grammar into the types of the signature, if a class file can hold
it. -/
theorem ofChars_eq_ok_iff (hs : s.IsReadable) {m : MethodGrammar} :
    MethodGrammar.ofChars s.chars = .ok m ↔
      s.FitsClassFile ∧ m = ⟨s.parameters.map JvmType.kind, s.result.kind⟩ := by
  have hparameters : ∀ t ∈ s.parameters, t.IsProper := fun t ht => (hs.parameters t ht).1
  have hgrammar := @MethodGrammar.ofChars_eq_ok_iff [] s.parameters s.result hparameters hs.result.proper m
  rw [List.append_nil] at hgrammar
  rw [chars, hgrammar]
  refine and_congr_left' ⟨fun h => ?_, fun h => ?_⟩
  · exact ⟨fun t ht => ⟨(h.1 t ht).noTypeVar, (h.1 t ht).depth⟩, h.2.noTypeVar⟩
  · -- a readable result without a type variable has no more than 255 brackets
    have hresult : s.result.arrayDepth ≤ 255 := hs.result.depth.resolve_left (Bool.eq_false_iff.mp h.result)
    exact ⟨fun t ht => ⟨(h.parameters t ht).1, (h.parameters t ht).2⟩, h.result, hresult⟩

variable (h : parse text = .ok s)
include h

/-- The grammar agrees with the types that were read, or accepts nothing. -/
theorem ofChars_cases :
    (s.FitsClassFile ∧
        MethodGrammar.ofChars text.toList = .ok ⟨s.parameters.map JvmType.kind, s.result.kind⟩) ∨
      (¬s.FitsClassFile ∧ ∃ e, MethodGrammar.ofChars text.toList = .error e) := by
  obtain ⟨hreadable, hchars⟩ := parse_eq_ok_iff.mp h
  rw [← hchars]
  cases hread : MethodGrammar.ofChars s.chars with
  | ok m =>
    obtain ⟨hfits, rfl⟩ := (ofChars_eq_ok_iff hreadable).mp hread
    exact Or.inl ⟨hfits, rfl⟩
  | error e =>
    refine Or.inr ⟨fun hfits => ?_, e, rfl⟩
    rw [(ofChars_eq_ok_iff hreadable).mpr ⟨hfits, rfl⟩] at hread
    cases hread

/-- **The number of parameters by grammar** is that of the types that were read. -/
theorem parameterCount_eq_ok_iff {n : Nat} :
    parameterCount text = .ok n ↔ s.FitsClassFile ∧ n = s.parameters.length := by
  unfold parameterCount
  rcases ofChars_cases h with ⟨hfits, hread⟩ | ⟨hfits, e, hread⟩
  · simp [hread, hfits, eq_comm]
  · simp [hread, hfits]

/-- **The kind of the result by grammar** is that of the type that was read. -/
theorem resultKind_eq_ok_iff {k : TypeKind} : resultKind text = .ok k ↔ s.FitsClassFile ∧ k = s.result.kind := by
  unfold resultKind
  rcases ofChars_cases h with ⟨hfits, hread⟩ | ⟨hfits, e, hread⟩
  · simp [hread, hfits, eq_comm]
  · simp [hread, hfits]

end Signature

end NullCheck
