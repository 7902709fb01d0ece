import NullCheck.Program.Validation
import NullCheck.Proofs.JvmType.Signature

/-!
# Declarations of methods and their descriptors

The declaration of a method is completed from its descriptor, which is read twice: for the types, and for their number
and the kind of the result. Both readings are of the same types, so every parameter gets its type, and a result that is
filled in has the kind that a declared one is checked against.

* **`MethodDecl.fillTypes_eq_zipWith`**: lists of the same length are joined in full.
* **`MethodDecl.normalize_eq_ok_iff`**: when a declaration is accepted, and what becomes of it.
* **`MethodDecl.descriptor_readings_agree`**: the headline.
-/

namespace NullCheck

/-- A parameter with a type: its own, or else the given one. -/
def ParameterDecl.complete (p : ParameterDecl) (t : JvmType) : ParameterDecl := { p with type := some (p.type.getD t) }

namespace MethodDecl

variable {m m' : MethodDecl} {s : Signature}

/-- The parameters of a declaration; where none are declared, as many blank ones as the descriptor has. -/
def declared (m : MethodDecl) (count : Nat) : List ParameterDecl :=
  if m.parameters.isEmpty then List.replicate count .blank else m.parameters

/-- Parameters and types of the same number are joined one by one, and none is left over. -/
theorem fillTypes_eq_zipWith {ps : List ParameterDecl} {ts : List JvmType} (h : ps.length = ts.length) :
    fillTypes ps ts = List.zipWith ParameterDecl.complete ps ts := by
  induction ps generalizing ts with
  | nil => rfl
  | cons p ps ih =>
    cases ts with
    | nil => cases h
    | cons t ts =>
      rw [fillTypes, List.zipWith_cons_cons, ih (Nat.succ.inj h)]
      rfl

theorem readDescriptor_eq_ok_iff {α : Type} {x : Except DescriptorError α} {a : α} :
    readDescriptor x = .ok a ↔ x = .ok a := by
  cases x <;> simp [readDescriptor]

/-- What becomes of a declaration whose descriptor can be read both ways. -/
theorem normalize_of_parse (hs : Signature.parse m.descriptor = .ok s) (hfits : s.FitsClassFile) :
    m.normalize =
      let count := s.parameters.length
      if (m.declared count).length ≠ count then .error (.parameterCount (m.declared count).length count)
      else
        let parameters := List.zipWith ParameterDecl.complete (m.declared count) s.parameters
        match m.returnType with
        | none => .ok { m with parameters := parameters, returnType := some s.result }
        | some t => if t.kind ≠ s.result.kind then .error (.returnType t) else .ok { m with parameters := parameters } := by
  have hcount := (Signature.parameterCount_eq_ok_iff hs).mpr ⟨hfits, rfl⟩
  have hkind := (Signature.resultKind_eq_ok_iff hs).mpr ⟨hfits, rfl⟩
  unfold normalize
  rw [hcount, hs, hkind]
  show (if (m.declared s.parameters.length).length ≠ s.parameters.length then _ else _) = _
  -- the parameters are completed only if their number is right
  by_cases hlength : (m.declared s.parameters.length).length = s.parameters.length
  · simp only [ne_eq, hlength, not_true_eq_false, if_false, ← fillTypes_eq_zipWith hlength]
    rfl
  · rw [if_pos hlength]
    exact (if_pos hlength).symm

/-- **When a declaration is accepted, and what becomes of it:** the descriptor can be read both ways, the parameters are
as many as it has and get their types from it, and a result is either filled in or of the kind that it has. -/
theorem normalize_eq_ok_iff :
    m.normalize = .ok m' ↔ ∃ s, Signature.parse m.descriptor = .ok s ∧ s.FitsClassFile ∧
      (m.declared s.parameters.length).length = s.parameters.length ∧
      (∀ t, m.returnType = some t → t.kind = s.result.kind) ∧
      m' = { m with
        parameters := List.zipWith ParameterDecl.complete (m.declared s.parameters.length) s.parameters
        returnType := some (m.returnType.getD s.result) } := by
  constructor
  · intro h
    -- the descriptor can be read by both of its readers
    obtain ⟨n, hn, hrest⟩ := exists_of_bind_eq_ok h
    obtain ⟨s, hs, -⟩ := exists_of_bind_eq_ok hrest
    rw [readDescriptor_eq_ok_iff] at hn hs
    obtain ⟨hfits, -⟩ := (Signature.parameterCount_eq_ok_iff hs).mp hn
    refine ⟨s, hs, hfits, ?_⟩
    rw [normalize_of_parse hs hfits] at h
    simp only at h
    split at h
    · cases h
    · -- as many parameters are declared as the descriptor has
      rename_i hlength
      refine ⟨Decidable.of_not_not hlength, ?_⟩
      cases hreturn : m.returnType with
      | none =>
        rw [hreturn] at h
        exact ⟨fun _ h => absurd h (Option.some_ne_none _).symm, (Except.ok.inj h).symm⟩
      | some t =>
        simp only [hreturn] at h
        split at h
        · cases h
        · rename_i hkind
          refine ⟨fun u hu => Option.some.inj hu ▸ Decidable.of_not_not hkind, (Except.ok.inj h).symm⟩
  · rintro ⟨s, hs, hfits, hlength, hkind, rfl⟩
    rw [normalize_of_parse hs hfits]
    simp only [ne_eq, hlength, not_true_eq_false, if_false]
    cases hreturn : m.returnType with
    | none => rfl
    | some t =>
      simp only [hkind t hreturn]
      rfl

/-- **The two readings of a descriptor agree.** Where the types of a method descriptor can be read, its parameters can be
counted, and the kind of its result can be told, just if no type in it is made from a type variable and no parameter has
more than 255 array brackets; and then these are the number of the types that were read and the kind of the result that
was. So parameters that pass the check of their number are joined with the types one by one, and a result that is filled
in is of the kind that is expected. -/
theorem descriptor_readings_agree {text : String} (h : Signature.parse text = .ok s) :
    (∀ n, parameterCount text = .ok n ↔ s.FitsClassFile ∧ n = s.parameters.length) ∧
      (∀ k, resultKind text = .ok k ↔ s.FitsClassFile ∧ k = s.result.kind) ∧
      ∀ m : MethodDecl, m.descriptor = text →
        (∀ n, parameterCount text = .ok n → (m.declared n).length = n →
          (m.declared n).length = s.parameters.length ∧
            fillTypes (m.declared n) s.parameters = List.zipWith ParameterDecl.complete (m.declared n) s.parameters) ∧
        ∀ m', m.normalize = .ok m' →
          m'.parameters = List.zipWith ParameterDecl.complete (m.declared s.parameters.length) s.parameters ∧
            (m.returnType = none → m'.returnType = some s.result ∧ resultKind text = .ok s.result.kind) := by
  refine ⟨fun n => Signature.parameterCount_eq_ok_iff h, fun k => Signature.resultKind_eq_ok_iff h, ?_⟩
  rintro m rfl
  refine ⟨fun n hn hlength => ?_, fun m' hm => ?_⟩
  · have hcount := ((Signature.parameterCount_eq_ok_iff h).mp hn).2
    exact ⟨hlength.trans hcount, fillTypes_eq_zipWith (hlength.trans hcount)⟩
  · obtain ⟨s', hs', hfits, -, -, rfl⟩ := normalize_eq_ok_iff.mp hm
    -- a descriptor has one signature
    obtain rfl : s = s' := Except.ok.inj (h.symm.trans hs')
    refine ⟨rfl, fun hnone => ⟨?_, (Signature.resultKind_eq_ok_iff h).mpr ⟨hfits, rfl⟩⟩⟩
    rw [hnone]
    rfl

/-- A descriptor with parentheses and brackets in its names, and the signature that it denotes. -/
def oddDescriptor : String := "(ILp/A)[;[[La(b;)[J"

def oddSignature : Signature where
  parameters := [.primitive .int, .classType "p/A)[", .array (.array (.classType "a(b"))]
  result := .array (.primitive .long)

/-- A declaration with that descriptor and nothing else. -/
def oddDecl : MethodDecl := ⟨"p/A", "m", oddDescriptor, [], none, [], [], false⟩

/-- The odd descriptor is split in the same way by both readings. -/
theorem descriptor_readings_agree_of_odd_names :
    Signature.parse oddDescriptor = .ok oddSignature ∧ oddSignature.FitsClassFile ∧
      parameterCount oddDescriptor = .ok 3 ∧ resultKind oddDescriptor = .ok .reference ∧
      ∃ m', oddDecl.normalize = .ok m' ∧ m'.parameters.map ParameterDecl.type = oddSignature.parameters.map some ∧
        m'.returnType = some oddSignature.result := by
  have h : Signature.parse oddDescriptor = .ok oddSignature := by decide +kernel
  have hfits : oddSignature.FitsClassFile := ⟨by decide, by decide⟩
  obtain ⟨hcount, hkind, hdecl⟩ := descriptor_readings_agree h
  obtain ⟨m', hm⟩ : ∃ m', oddDecl.normalize = .ok m' :=
    ⟨_, normalize_eq_ok_iff.mpr ⟨oddSignature, h, hfits, rfl, (fun t ht => by cases ht), rfl⟩⟩
  obtain ⟨hparameters, hreturn⟩ := (hdecl oddDecl rfl).2 m' hm
  refine ⟨h, hfits, (hcount 3).mpr ⟨hfits, rfl⟩, (hkind .reference).mpr ⟨hfits, rfl⟩, m', hm, ?_, (hreturn rfl).1⟩
  rw [hparameters]
  rfl

end MethodDecl

end NullCheck
