import NullCheck.Proofs.Program.Declaration
import NullCheck.Proofs.Program.Validation
import NullCheck.Proofs.Visit.Successors

/-!
# Valid programs

A program that is read from a text has declarations that are complete and agree with their descriptors, and procedures
that are valid. To validate it once more changes nothing: what was filled in from one reading of a descriptor passes the
check against the other. And no visit leads past the end of its procedure.

## The architecture

* **`MethodDecl.IsValid`**, **`MethodDecl.normalize_eq_self_iff`**, **`MethodDecl.isValid_of_normalize`**: the
  declarations that are accepted as they are, among them all that were accepted before.
* **`Program.validate_eq_self_iff`**, **`Program.isValid_of_validate`**: the same for programs.
* **`Context.index_le_of_mem_visit`**: no visit leads past the end.
* **`Program.valid_of_ofText`**: the headline.
-/

namespace NullCheck

namespace MethodDecl

variable {m m' : MethodDecl}

/-- The declarations that are complete and agree with their descriptors. -/
structure IsValid (m : MethodDecl) : Prop where
  signature : ∃ s, Signature.parse m.descriptor = .ok s
  parameterCount : parameterCount m.descriptor = .ok m.parameters.length
  typed : ∀ p ∈ m.parameters, p.type.isSome = true
  returnType : ∃ t, m.returnType = some t ∧ resultKind m.descriptor = .ok t.kind

/-- Parameters that have their types are not changed by other types. -/
theorem zipWith_complete_eq_self {ps : List ParameterDecl} {ts : List JvmType} (hlength : ps.length = ts.length)
    (h : ∀ p ∈ ps, p.type.isSome = true) : List.zipWith ParameterDecl.complete ps ts = ps := by
  induction ps generalizing ts with
  | nil => rfl
  | cons p ps ih =>
    cases ts with
    | nil => cases hlength
    | cons t ts =>
      obtain ⟨hp, hps⟩ := List.forall_mem_cons.mp h
      obtain ⟨u, hu⟩ := Option.isSome_iff_exists.mp hp
      have hcomplete : p.complete t = p := by
        rw [ParameterDecl.complete, hu, Option.getD_some, ← hu]
      rw [List.zipWith_cons_cons, hcomplete, ih (Nat.succ.inj hlength) hps]

/-- A list that is as long as the descriptor has parameters stands for itself. -/
theorem declared_length (m : MethodDecl) : m.declared m.parameters.length = m.parameters := by
  unfold declared
  split
  · rename_i h
    rw [List.isEmpty_iff.mp h]
    rfl
  · rfl

theorem isSome_of_mem_zipWith {ps : List ParameterDecl} {ts : List JvmType} {p : ParameterDecl}
    (h : p ∈ List.zipWith ParameterDecl.complete ps ts) : p.type.isSome = true := by
  rw [← List.map_uncurry_zip_eq_zipWith] at h
  obtain ⟨-, -, rfl⟩ := List.mem_map.mp h
  rfl

/-- **What is accepted is valid.** -/
theorem isValid_of_normalize (h : m.normalize = .ok m') : m'.IsValid := by
  obtain ⟨s, hs, hfits, hlength, hkind, rfl⟩ := normalize_eq_ok_iff.mp h
  have hcount : s.parameters.length =
      (List.zipWith ParameterDecl.complete (m.declared s.parameters.length) s.parameters).length := by
    rw [List.length_zipWith, hlength, Nat.min_self]
  refine ⟨⟨s, hs⟩, (Signature.parameterCount_eq_ok_iff hs).mpr ⟨hfits, hcount.symm⟩,
    fun p hp => isSome_of_mem_zipWith hp, _, rfl, (Signature.resultKind_eq_ok_iff hs).mpr ⟨hfits, ?_⟩⟩
  cases hreturn : m.returnType with
  | none => rfl
  | some t => exact hkind t hreturn

/-- **A declaration is accepted as it is just if it is valid.** -/
theorem normalize_eq_self_iff : m.normalize = .ok m ↔ m.IsValid := by
  constructor
  · exact isValid_of_normalize
  · rintro ⟨⟨s, hs⟩, hcount, htyped, t, ht, hkind⟩
    obtain ⟨hfits, hlength⟩ := (Signature.parameterCount_eq_ok_iff hs).mp hcount
    have hdeclared : m.declared s.parameters.length = m.parameters := hlength ▸ m.declared_length
    refine normalize_eq_ok_iff.mpr ⟨s, hs, hfits, by rw [hdeclared, hlength], fun u hu => ?_, ?_⟩
    · obtain rfl : t = u := Option.some.inj (ht.symm.trans hu)
      exact ((Signature.resultKind_eq_ok_iff hs).mp hkind).2
    · rw [hdeclared, zipWith_complete_eq_self hlength htyped, ht, Option.getD_some, ← ht]

end MethodDecl

namespace Program

variable {p : Program}

/-- Checks that change nothing in a list leave it as it is. -/
theorem mapM_eq_self_iff {α ε : Type} {f : α → Except ε α} {as : List α} :
    as.mapM f = .ok as ↔ ∀ a ∈ as, f a = .ok a := by
  induction as with
  | nil => simp [pure, Except.pure]
  | cons a as ih =>
    rw [List.mapM_cons, List.forall_mem_cons, ← ih]
    constructor
    · intro h
      obtain ⟨b, hb, hrest⟩ := exists_of_bind_eq_ok h
      obtain ⟨bs, hbs, hmade⟩ := exists_of_bind_eq_ok hrest
      cases hmade
      exact ⟨hb, hbs⟩
    · rintro ⟨ha, has⟩
      rw [ha, has]
      rfl

/-- The programs that are accepted as they are. -/
structure IsValid (p : Program) : Prop where
  methods : ∀ m ∈ p.methods, m.IsValid
  procedures : ∀ q ∈ p.procedures, q.IsValid

theorem validateMethod_eq_ok_iff {m m' : MethodDecl} : validateMethod m = .ok m' ↔ m.normalize = .ok m' := by
  unfold validateMethod
  cases m.normalize <;> simp

/-- **What is accepted is valid.** -/
theorem isValid_of_validate {raw : Program} (h : raw.validate = .ok p) : p.IsValid := by
  refine ⟨fun m hm => ?_, fun q hq => ?_⟩
  · obtain ⟨methods, hmethods, hrest⟩ := exists_of_bind_eq_ok h
    obtain ⟨procedures, -, hmade⟩ := exists_of_bind_eq_ok hrest
    cases hmade
    obtain ⟨m', -, hm'⟩ := exists_of_mem_mapM hmethods hm
    exact MethodDecl.isValid_of_normalize (validateMethod_eq_ok_iff.mp hm')
  · obtain ⟨q', -, hq'⟩ := exists_of_validate h hq
    exact Procedure.isValid_of_validate hq'

/-- **A program is accepted as it is just if it is valid.** -/
theorem validate_eq_self_iff : p.validate = .ok p ↔ p.IsValid := by
  constructor
  · exact isValid_of_validate
  · rintro ⟨hmethods, hprocedures⟩
    have hm : p.methods.mapM validateMethod = .ok p.methods :=
      mapM_eq_self_iff.mpr fun m hm =>
        validateMethod_eq_ok_iff.mpr (MethodDecl.normalize_eq_self_iff.mpr (hmethods m hm))
    have hq : p.procedures.mapM validateProcedure = .ok p.procedures :=
      mapM_eq_self_iff.mpr fun q hq =>
        validateProcedure_eq_ok_iff.mpr (Procedure.validate_eq_self_iff.mpr (hprocedures q hq))
    unfold validate
    rw [hm, hq]
    rfl

end Program

/-- **No visit leads past the end** of a valid procedure, whatever the frame. -/
theorem Context.index_le_of_mem_visit {c : Context} (hvalid : c.procedure.IsValid) {i : Instruction}
    (hi : i ∈ c.procedure.instructions) {f : Frame} {q : Successor} (hq : q ∈ (visit c i f).next) :
    q.index ≤ c.procedure.instructions.length := by
  rcases Visit.index_of_mem_visit hq with hnext | hjump
  · obtain ⟨k, hk⟩ := List.getElem?_of_mem hi
    obtain ⟨hlt, -⟩ := List.getElem?_eq_some_iff.mp hk
    rw [hnext, hvalid.numbered k i hk]
    exact hlt
  · exact hvalid.jumps i hi q.index hjump

namespace Program

/-- **A program that is read from a text is valid.** Its methods have as many parameters as their descriptors, all with
a type, and a result of the descriptor's kind; the instructions of its procedures are numbered in order, do not jump
past the end and mention anchors in the table, as the anchors do. To validate it again succeeds and changes nothing,
and a visit to an instruction in any frame goes on inside the procedure or right behind the last instruction. -/
theorem valid_of_ofText {text : String} {p : Program} (h : ofText text = .ok p) :
    (∀ m ∈ p.methods, m.IsValid) ∧ (∀ q ∈ p.procedures, q.IsValid) ∧ p.validate = .ok p ∧
      ∀ procedure ∈ p.procedures, ∀ (methods : MethodIndex) (resolver : AnnotationResolver) (hierarchy : ClassHierarchy),
        ∀ i ∈ procedure.instructions, ∀ f, ∀ q ∈ (visit ⟨procedure, methods, resolver, hierarchy⟩ i f).next,
          q.index ≤ procedure.instructions.length := by
  obtain ⟨raw, hraw⟩ := exists_validate_of_ofText h
  have hvalid : p.IsValid := isValid_of_validate hraw
  refine ⟨hvalid.methods, hvalid.procedures, validate_eq_self_iff.mpr hvalid, ?_⟩
  intro procedure hprocedure methods resolver hierarchy i hi f q hq
  exact Context.index_le_of_mem_visit (hvalid.procedures procedure hprocedure) hi hq

/-- A text with a method of which only the descriptor is given, and with a jump to the end of a procedure. -/
def jumpToEndText : String :=
  "\x7b\"methods\": [\x7b\"owner\": \"p/A\", \"name\": \"m\", \"descriptor\": \"(I[Lp/B;)J\"\x7d],
    \"procedures\": [\x7b\"name\": \"m\",
    \"anchors\": [\x7b\"text\": \"x\", \"line\": 3\x7d, \x7b\"text\": \"y\", \"parent\": 0\x7d], \"instructions\": [
    \x7b\"index\": 7, \"op\": \"push\", \"value\": \x7b\"kind\": \"unknown\"\x7d, \"anchor\": 1\x7d,
    \x7b\"op\": \"conditional_goto\", \"target\": 3\x7d, \x7b\"op\": \"return\"\x7d]\x7d]\x7d"

/-- The method, completed. -/
def describedMethod : MethodDecl where
  owner := "p/A"
  name := "m"
  descriptor := "(I[Lp/B;)J"
  parameters :=
    [⟨"", some (.primitive .int), [], []⟩,
     ⟨"", some (.array (.classType "p/B")), [], []⟩]
  returnType := some (.primitive .long)
  returnTypeAnnotations := []
  annotations := []
  varArgs := false

/-- The procedure, with its instructions numbered. -/
def jumpToEnd : Procedure where
  name := "m"
  sourceFile := none
  vars := []
  anchors := [⟨"x", some 3, none⟩, ⟨"y", none, some 0⟩]
  instructions :=
    [⟨0, some 1, .push .unknown⟩,
     ⟨1, none, .conditionalGoto 3 false⟩,
     ⟨2, none, .leave⟩]

set_option maxRecDepth 8000 in
theorem ofText_jumpToEndText : ofText jumpToEndText = .ok ⟨[], [describedMethod], [jumpToEnd]⟩ := by
  refine ofText_of_toOption ?_
  -- to compute with the characters, rather than with their encoding
  have hchars : jumpToEndText.toList = _ := String.toList_ofList
  unfold ofText Json.ofText
  rw [hchars]
  decide +kernel

/-- The method and the procedure of that text are valid, and the jump leads no further than to the end. -/
theorem valid_of_ofText_of_jump_to_end :
    ofText jumpToEndText = .ok ⟨[], [describedMethod], [jumpToEnd]⟩ ∧ describedMethod.IsValid ∧ jumpToEnd.IsValid ∧
      (⟨[], [describedMethod], [jumpToEnd]⟩ : Program).validate = .ok ⟨[], [describedMethod], [jumpToEnd]⟩ ∧
      ∀ f, ∀ q ∈ (visit ⟨jumpToEnd, .empty, AnalysisConfig.standard.resolver, .empty⟩
        ⟨1, none, .conditionalGoto 3 false⟩ f).next, q.index ≤ 3 := by
  obtain ⟨hmethods, hprocedures, hvalidate, hvisits⟩ := valid_of_ofText ofText_jumpToEndText
  refine ⟨ofText_jumpToEndText, hmethods _ (List.mem_singleton_self _), hprocedures _ (List.mem_singleton_self _),
    hvalidate, ?_⟩
  exact hvisits jumpToEnd (List.mem_singleton_self _) .empty _ .empty ⟨1, none, .conditionalGoto 3 false⟩ (by decide)

end Program

end NullCheck
