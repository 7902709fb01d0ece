import Mathlib.Tactic.MkIffOfInductiveProp
import NullCheck.Program.Basic
import NullCheck.Proofs.Json.Lossless
import NullCheck.Proofs.JvmType.Display

/-!
# Programs that are written and read back

A program that documents can express is the same after it was written and read back. What documents cannot express are
types whose descriptors are not accepted, floating point constants other than the NaN that has a name, and numbers that
are too large for the machine.

## The architecture

* **`Program.Expressible`**: what documents can express, from types and constants up.
* **`JvmType.lossless_codec`**, **`Constant.lossless_codec`**, …, **`Program.lossless_codec`**: one lemma for each kind
  of data, each made of those for its parts.
* **`Instruction.foldlM_push_members`**: an instruction shares one object with its operation.
* **`Program.ofJson_write`**: the headline.
-/

namespace NullCheck

variable {n : Nat}

/-! ## Types and constants -/

/-- The descriptor of the type is accepted. -/
def JvmType.Expressible (t : JvmType) : Prop := ∃ u, parse t.display = .ok u

instance (t : JvmType) : Decidable t.Expressible :=
  match h : JvmType.parse t.display with
  | .ok u => isTrue ⟨u, h⟩
  | .error _ => isFalse fun ⟨_, hu⟩ => nomatch h.symm.trans hu

/-- A type is written as its descriptor, and a descriptor is read back if the type can be spelled in one. -/
theorem JvmType.lossless_codec : JvmType.codec.Lossless JvmType.Expressible n :=
  Codec.lossless_text fun {t} ht => by
    obtain ⟨u, hu⟩ := ht
    obtain rfl := eq_of_parse_display hu
    rw [hu]

/-- Integers are those of 64 bits, and the one floating point constant is the NaN that documents can name. -/
def Constant.Expressible : Constant → Prop
  | .integer i => Codec.integerLow ≤ i ∧ i ≤ Codec.integerHigh
  | .float _ => False
  | .double bits => Constant.double bits = .nan
  | .null | .boolean _ | .string _ | .enumeration .. => True

instance : DecidablePred Constant.Expressible
  | .integer _ => inferInstanceAs (Decidable (_ ∧ _))
  | .float _ => inferInstanceAs (Decidable False)
  | .double _ => inferInstanceAs (Decidable (_ = _))
  | .null | .boolean _ | .string _ | .enumeration .. => inferInstanceAs (Decidable True)

namespace Constant

theorem lossless_enumerationRecord :
    enumerationRecord.Lossless (fun _ => True)
      (fun k => .enumeration (match k with | .enumeration c _ => c | _ => "")
        (match k with | .enumeration _ n => n | _ => "")) n :=
  (Record.lossless_make _).add Codec.lossless_string (fun _ => trivial) |>.add Codec.lossless_string fun _ => trivial

/-- Constants are told apart by a name, beside which stands what they hold; of floating constants only the NaN of a
double has one. -/
theorem lossless_codec : Constant.codec.Lossless Constant.Expressible (n + 2) where
  read {k} hk p hp := by
    cases k with
    | null => exact Variant.readByName_name rfl rfl
    | boolean b => exact Variant.readByName_holding Codec.lossless_bool rfl trivial hp
    | integer i => exact Variant.readByName_holding Codec.lossless_integer rfl hk hp
    -- a float cannot be written
    | float bits => exact hk.elim
    | double bits =>
      rw [show Constant.double bits = nan from hk]
      exact Variant.readByName_name rfl rfl
    | string s => exact Variant.readByName_holding Codec.lossless_string rfl trivial hp
    | enumeration c n => exact Variant.readByName_record lossless_enumerationRecord rfl trivial hp
  readable {k} hk := by
    cases k with
    | null => exact fun _ _ => rfl
    | boolean | integer | string => exact Json.isReadable_member fun _ _ => rfl
    | float bits => exact hk.elim
    | double bits =>
      rw [show Constant.double bits = nan from hk]
      exact fun _ _ => rfl
    | enumeration c n =>
      exact Json.isReadable_member (Json.isReadable_object (lossless_enumerationRecord.readable trivial))

/-- No constant is written as `null`, so that an absent one can be. -/
theorem write_ne_null {k : Constant} (hk : k.Expressible) : Constant.codec.write k ≠ .null := by
  intro h
  cases k with
  | double bits =>
    rw [show Constant.double bits = nan from hk] at h
    cases h
  | float bits => exact hk.elim
  | _ => cases h

end Constant

/-! ## Operands -/

theorem Nullness.lossless_codec : Nullness.codec.Lossless (fun _ => True) n :=
  Variant.lossless_namesCodec (fun a => by cases a <;> decide) (by decide)

namespace Operand

def Expressible : Operand → Prop
  | .var id _ => id < UInt64.size
  | .constant value => value.Expressible
  | .typed type _ | .notNull type => type.Expressible
  | .unknown => True

instance : DecidablePred Operand.Expressible
  | .var _ _ => inferInstanceAs (Decidable (_ < _))
  | .constant value => inferInstanceAs (Decidable value.Expressible)
  | .typed type _ | .notNull type => inferInstanceAs (Decidable type.Expressible)
  | .unknown => inferInstanceAs (Decidable True)

theorem lossless_variableRecord : variableRecord.Lossless (fun v => v.1 < UInt64.size) (fun v => (v.1, v.2)) n :=
  (Record.lossless_make _).add Codec.lossless_index id |>.add Codec.lossless_bool fun _ => trivial

theorem lossless_constantRecord : constantRecord.Lossless Constant.Expressible id (n + 2) :=
  (Record.lossless_make _).add Constant.lossless_codec id

theorem lossless_typedRecord : typedRecord.Lossless (fun t => t.1.Expressible) (fun t => (t.1, t.2)) n :=
  (Record.lossless_make _).add JvmType.lossless_codec id |>.add Nullness.lossless_codec fun _ => trivial

theorem lossless_notNullRecord : notNullRecord.Lossless JvmType.Expressible id n :=
  (Record.lossless_make _).add JvmType.lossless_codec id

/-- One case for each kind of operand. -/
theorem restores_members {o : Operand} (ho : o.Expressible) : Tagged.Restores "kind" variants o.members o (n + 2) := by
  cases o with
  | var => exact Tagged.restores_record lossless_variableRecord rfl ho rfl
  | constant => exact Tagged.restores_record lossless_constantRecord rfl ho rfl
  | typed => exact Tagged.restores_record lossless_typedRecord rfl ho rfl
  | notNull => exact Tagged.restores_record lossless_notNullRecord rfl ho rfl
  | unknown => exact Tagged.restores_bare rfl

/-- An operand is read back from its kind and the members that the kind has. -/
theorem lossless_codec : Operand.codec.Lossless Operand.Expressible (n + 3) :=
  Tagged.lossless_codec restores_members _

end Operand

/-! ## Calls and casts -/

theorem BinaryOperator.lossless_codec : BinaryOperator.codec.Lossless (fun _ => True) n :=
  Variant.lossless_namesCodec (fun a => by cases a <;> decide) (by decide)

theorem CallKind.lossless_codec : CallKind.codec.Lossless (fun _ => True) n :=
  Variant.lossless_namesCodec (fun a => by cases a <;> decide) (by decide)

theorem MethodKey.lossless_codec : MethodKey.codec.Lossless (fun _ => True) (n + 1) :=
  (Record.lossless_make _).add Codec.lossless_string (fun _ => trivial)
    |>.add Codec.lossless_string (fun _ => trivial)
    |>.add Codec.lossless_string (fun _ => trivial)
    |>.codec (fun _ => rfl) _

@[mk_iff]
structure Argument.Expressible (a : Argument) : Prop where
  type : ∀ t ∈ a.type, t.Expressible
  anchor : ∀ i ∈ a.anchor, i < UInt64.size

instance (a : Argument) : Decidable a.Expressible := decidable_of_iff' _ (Argument.expressible_iff a)

theorem Argument.lossless_codec : Argument.codec.Lossless Argument.Expressible (n + 1) :=
  (Record.lossless_make _).add (JvmType.lossless_codec.option fun _ => nofun) Expressible.type
    |>.add (Codec.lossless_index.option fun _ => nofun) Expressible.anchor
    |>.codec (fun _ => rfl) _

def AnnotatedType.Expressible (t : AnnotatedType) : Prop := t.type.Expressible
deriving Decidable

/-- A type and its annotations, which are a list of names. -/
theorem AnnotatedType.lossless_codec : AnnotatedType.codec.Lossless AnnotatedType.Expressible (n + 2) :=
  (Record.lossless_make _).add JvmType.lossless_codec id
    |>.add Codec.lossless_string.list (fun _ _ _ => trivial)
    |>.codec (fun _ => rfl) _

namespace TypeBindings

def Expressible (b : TypeBindings) : Prop := ∀ e ∈ b.entries, e.2.Expressible
deriving Decidable

/-- Entries for variables that are not bound yet are put behind the others. -/
theorem entries_foldl_insert (es : List (String × AnnotatedType)) (b : TypeBindings)
    (h : ((b.entries ++ es).map Prod.fst).Nodup) :
    (es.foldl (fun b e => b.insert e.1 e.2) b).entries = b.entries ++ es := by
  induction es generalizing b with
  | nil => exact (List.append_nil _).symm
  | cons e es ih =>
    have hnew : ∀ k ∈ b.entries, k.1 ≠ e.1 := by
      rw [List.map_append, List.nodup_append] at h
      exact fun k hk => h.2.2 k.1 (List.mem_map_of_mem hk) e.1 (by simp)
    have hinsert : (b.insert e.1 e.2).entries = b.entries ++ [e] := by
      -- no earlier binding gives way
      show b.entries.filter (fun k => k.1 ≠ e.1) ++ [e] = _
      rw [List.filter_eq_self.mpr fun k hk => decide_eq_true (hnew k hk)]
    rw [List.foldl_cons, ih, hinsert, List.append_assoc]
    · rfl
    · rwa [hinsert, List.append_assoc]

/-- The entries of a table, put into the empty one, make the table. -/
theorem foldl_insert (b : TypeBindings) : b.entries.foldl (fun b e => b.insert e.1 e.2) empty = b := by
  have h := entries_foldl_insert b.entries empty b.distinct
  generalize b.entries.foldl (fun b e => b.insert e.1 e.2) empty = c at h ⊢
  cases b
  cases c
  cases h
  rfl

theorem lossless_codec : TypeBindings.codec.Lossless TypeBindings.Expressible (n + 3) :=
  AnnotatedType.lossless_codec.table foldl_insert

end TypeBindings

@[mk_iff]
structure MethodCall.Expressible (call : MethodCall) : Prop where
  arguments : ∀ a ∈ call.arguments, a.Expressible
  resultType : ∀ t ∈ call.resultType, t.Expressible
  precalculated : ∀ k ∈ call.precalculated, k.Expressible
  typeBindings : call.typeBindings.Expressible

instance (call : MethodCall) : Decidable call.Expressible := decidable_of_iff' _ (MethodCall.expressible_iff call)

/-- All that a call holds, member by member, the defaults included. -/
theorem MethodCall.lossless_record : MethodCall.record.Lossless MethodCall.Expressible id (n + 3) :=
  (Record.lossless_make _).add (MethodKey.lossless_codec.option fun _ => nofun) (fun _ _ _ => trivial)
    |>.add Argument.lossless_codec.list Expressible.arguments
    |>.add (JvmType.lossless_codec.option fun _ => nofun) Expressible.resultType
    |>.add CallKind.lossless_codec (fun _ => trivial)
    |>.add Codec.lossless_bool (fun _ => trivial)
    |>.add (Constant.lossless_codec.option Constant.write_ne_null) Expressible.precalculated
    |>.add Codec.lossless_bool (fun _ => trivial)
    |>.add TypeBindings.lossless_codec Expressible.typeBindings

@[mk_iff]
structure TypeCast.Expressible (cast : TypeCast) : Prop where
  casted : ∀ o ∈ cast.casted, o.Expressible
  target : cast.target.Expressible

instance (cast : TypeCast) : Decidable cast.Expressible := decidable_of_iff' _ (TypeCast.expressible_iff cast)

theorem TypeCast.lossless_record : TypeCast.record.Lossless TypeCast.Expressible id (n + 3) :=
  (Record.lossless_make _).add (Operand.lossless_codec.option fun _ => nofun) Expressible.casted
    |>.add JvmType.lossless_codec Expressible.target

/-! ## Instructions -/

namespace Operation

def Expressible : Operation → Prop
  | .push value => value.Expressible
  | .typeCast cast => cast.Expressible
  | .methodCall call => call.Expressible
  | .goto target | .conditionalGoto target _ => target < UInt64.size
  | .flushVariable id => id < UInt64.size
  | .pop | .dup | .assign | .checkReturnValue | .fieldReference _ | .binop _ | .leave => True

instance : DecidablePred Operation.Expressible
  | .push value => inferInstanceAs (Decidable value.Expressible)
  | .typeCast cast => inferInstanceAs (Decidable cast.Expressible)
  | .methodCall call => inferInstanceAs (Decidable call.Expressible)
  | .goto _ | .conditionalGoto .. | .flushVariable _ => inferInstanceAs (Decidable (_ < _))
  | .pop | .dup | .assign | .checkReturnValue | .fieldReference _ | .binop _ | .leave =>
    inferInstanceAs (Decidable True)

/-- One case for each kind of operation: its name, and then the record of what it holds. -/
theorem restores_content {o : Operation} (ho : o.Expressible) :
    Tagged.Restores "op" variants (("op", .str o.name) :: o.content) o (n + 3) := by
  cases o with
  | push =>
    have hrecord : pushRecord.Lossless Operand.Expressible id (n + 3) :=
      (Record.lossless_make _).add Operand.lossless_codec id
    exact Tagged.restores_record hrecord rfl ho rfl
  | fieldReference =>
    have hrecord : fieldReferenceRecord.Lossless (fun _ => True) id (n + 3) :=
      (Record.lossless_make _).add Codec.lossless_bool id
    exact Tagged.restores_record hrecord rfl trivial rfl
  | typeCast => exact Tagged.restores_record TypeCast.lossless_record rfl ho rfl
  | methodCall => exact Tagged.restores_record MethodCall.lossless_record rfl ho rfl
  | binop =>
    have hrecord : binopRecord.Lossless (fun _ => True) id (n + 3) :=
      (Record.lossless_make _).add (BinaryOperator.lossless_codec.option fun _ => nofun) fun _ _ _ => trivial
    exact Tagged.restores_record hrecord rfl trivial rfl
  | goto =>
    have hrecord : gotoRecord.Lossless (· < UInt64.size) id (n + 3) :=
      (Record.lossless_make _).add Codec.lossless_index id
    exact Tagged.restores_record hrecord rfl ho rfl
  | conditionalGoto =>
    have hrecord : conditionalGotoRecord.Lossless (fun g => g.1 < UInt64.size) (fun g => (g.1, g.2)) (n + 3) :=
      (Record.lossless_make _).add Codec.lossless_index id |>.add Codec.lossless_bool fun _ => trivial
    exact Tagged.restores_record hrecord rfl ho rfl
  | flushVariable =>
    have hrecord : flushVariableRecord.Lossless (· < UInt64.size) id (n + 3) :=
      (Record.lossless_make _).add Codec.lossless_index id
    exact Tagged.restores_record hrecord rfl ho rfl
  -- operations that hold nothing are a name only
  | pop | dup | assign | checkReturnValue | leave => exact Tagged.restores_bare rfl

end Operation

@[mk_iff]
structure Instruction.Expressible (i : Instruction) : Prop where
  index : i.index < UInt64.size
  anchor : ∀ a ∈ i.anchor, a < UInt64.size
  operation : i.operation.Expressible

instance (i : Instruction) : Decidable i.Expressible := decidable_of_iff' _ (Instruction.expressible_iff i)

namespace Instruction

/-- What is neither position nor anchor is kept for the operation. -/
theorem foldlM_push {p : Place} (hp : p.HasRoom n) {ms : List (String × Json)}
    (hms : ∀ m ∈ ms, m.1 ≠ "index" ∧ m.1 ≠ "anchor" ∧ m.2.IsReadable n) (g : Gathered) :
    (Json.named ms).foldlM (Gathered.push p) g = .ok { g with others := (Json.named ms).reverse ++ g.others } := by
  induction ms generalizing g with
  | nil => rfl
  | cons m ms ih =>
    obtain ⟨hindex, hanchor, hreadable⟩ := hms m (by simp)
    -- a member of another name is kept for the operation
    have hpush : g.push p (some m.1, m.2) = .ok { g with others := (some m.1, m.2) :: g.others } := by
      simp only [Gathered.push, if_neg hindex, if_neg hanchor, hreadable _ hp]
      rfl
    rw [show Json.named (m :: ms) = (some m.1, m.2) :: Json.named ms from rfl, List.foldlM_cons, hpush]
    refine (ih (fun k hk => hms k (by simp [hk])) _).trans ?_
    simp

/-- Operations have members of other names than instructions. -/
theorem name_of_mem_content {o : Operation} {m : String × Json} (hm : m ∈ o.content) :
    m.1 ≠ "index" ∧ m.1 ≠ "anchor" := by
  have hnames : ∀ name ∈ o.content.map Prod.fst, name ≠ "index" ∧ name ≠ "anchor" := by
    -- the names do not depend on what the members hold
    cases o <;> exact of_decide_eq_true rfl
  exact hnames _ (List.mem_map_of_mem hm)

/-- The members of an instruction, with the operation behind position and anchor. -/
theorem foldlM_push_members {i : Instruction} (hi : i.Expressible) {p : Place} (hp : p.HasRoom (n + 3)) :
    (Json.named i.members).foldlM (Gathered.push p) ⟨none, none, []⟩ =
      .ok ⟨some i.index, some i.anchor,
        (Json.named (("op", .str i.operation.name) :: i.operation.content)).reverse⟩ := by
  have hindex : Codec.index.read (p.member "index") (Codec.index.write i.index) = .ok i.index :=
    Codec.lossless_index.read hi.index ((Place.hasRoom_member _).mpr hp)
  have hanchor : (Codec.option .index).read (p.member "anchor") ((Codec.option .index).write i.anchor) = .ok i.anchor :=
    (Codec.lossless_index.option fun _ => nofun).read hi.anchor ((Place.hasRoom_member _).mpr hp)
  have hothers : ∀ m ∈ ("op", Json.str i.operation.name) :: i.operation.content,
      m.1 ≠ "index" ∧ m.1 ≠ "anchor" ∧ m.2.IsReadable (n + 3) := by
    intro m hm
    have hreadable := (Operation.restores_content (n := n) hi.operation).readable m hm
    rcases List.mem_cons.mp hm with rfl | hm
    · exact ⟨(by decide : "op" ≠ "index"), (by decide : "op" ≠ "anchor"), hreadable⟩
    · exact ⟨(name_of_mem_content hm).1, (name_of_mem_content hm).2, hreadable⟩
  -- position and anchor come first and are read at once
  have hpushIndex : Gathered.push p ⟨none, none, []⟩ (some "index", Codec.index.write i.index) =
      .ok ⟨some i.index, none, []⟩ := by
    simp only [Gathered.push, if_pos, Record.fill, hindex]
    rfl
  have hpushAnchor : Gathered.push p ⟨some i.index, none, []⟩
      (some "anchor", (Codec.option .index).write i.anchor) = .ok ⟨some i.index, some i.anchor, []⟩ := by
    simp only [Gathered.push, Record.fill, hanchor]
    rfl
  have hmembers : Json.named i.members = (some "index", Codec.index.write i.index) ::
      (some "anchor", (Codec.option .index).write i.anchor) ::
        Json.named (("op", .str i.operation.name) :: i.operation.content) := rfl
  rw [hmembers, List.foldlM_cons, hpushIndex]
  show ((some "anchor", _) :: Json.named (("op", _) :: _)).foldlM (Gathered.push p) _ = _
  rw [List.foldlM_cons, hpushAnchor]
  exact (foldlM_push hp hothers _).trans (by rw [List.append_nil])

/-- An instruction is read in one pass: its number and anchor are taken out, and the rest is left for the operation. -/
theorem lossless_codec : Instruction.codec.Lossless Instruction.Expressible (n + 4) where
  read {i} hi p hp := by
    obtain ⟨inner, henter, hinner⟩ := hp.enter
    show (p.enter >>= fun inner => (Json.named i.members).foldlM (Gathered.push inner) ⟨none, none, []⟩ >>= _) = _
    rw [henter]
    show ((Json.named i.members).foldlM (Gathered.push inner) ⟨none, none, []⟩ >>= _) = _
    rw [foldlM_push_members hi hinner]
    show (Tagged.readMembers "op" Operation.variants inner.settle (List.reverse (List.reverse _)) >>= _) = _
    rw [List.reverse_reverse, (Operation.restores_content hi.operation).read (p := inner.settle) hinner]
    rfl
  readable {i} hi := by
    refine Json.isReadable_object fun m hm => ?_
    rcases List.mem_cons.mp hm with rfl | hm
    · exact fun _ _ => rfl
    · rcases List.mem_cons.mp hm with rfl | hm
      · exact (Codec.lossless_index.option fun _ => nofun).readable hi.anchor
      · exact (Operation.restores_content hi.operation).readable m hm

end Instruction

/-! ## Procedures -/

theorem VariableKind.lossless_codec : VariableKind.codec.Lossless (fun _ => True) n :=
  Variant.lossless_namesCodec (fun a => by cases a <;> decide) (by decide)

def VariableDecl.Expressible (v : VariableDecl) : Prop := v.type.Expressible
deriving Decidable

/-- A declaration with its kind, type and annotations. -/
theorem VariableDecl.lossless_codec : VariableDecl.codec.Lossless VariableDecl.Expressible (n + 2) :=
  (Record.lossless_make _).add Codec.lossless_string (fun _ => trivial)
    |>.add JvmType.lossless_codec id
    |>.add VariableKind.lossless_codec (fun _ => trivial)
    |>.add Codec.lossless_bool (fun _ => trivial)
    |>.add Codec.lossless_string.list (fun _ _ _ => trivial)
    |>.codec (fun _ => rfl) _

@[mk_iff]
structure SourceAnchor.Expressible (a : SourceAnchor) : Prop where
  line : ∀ l ∈ a.line, l < UInt32.size
  parent : ∀ b ∈ a.parent, b < UInt64.size

instance (a : SourceAnchor) : Decidable a.Expressible := decidable_of_iff' _ (SourceAnchor.expressible_iff a)

/-- The line of an anchor is a machine word, the rest of it text. -/
theorem SourceAnchor.lossless_codec : SourceAnchor.codec.Lossless SourceAnchor.Expressible (n + 1) :=
  (Record.lossless_make _).add Codec.lossless_string (fun _ => trivial)
    |>.add (Codec.lossless_line.option fun _ => nofun) Expressible.line
    |>.add (Codec.lossless_index.option fun _ => nofun) Expressible.parent
    |>.codec (fun _ => rfl) _

@[mk_iff]
structure Procedure.Expressible (p : Procedure) : Prop where
  vars : ∀ v ∈ p.vars, v.Expressible
  anchors : ∀ a ∈ p.anchors, a.Expressible
  instructions : ∀ i ∈ p.instructions, i.Expressible

instance (p : Procedure) : Decidable p.Expressible := decidable_of_iff' _ (Procedure.expressible_iff p)

/-- Anchors are a table, variables and instructions are lists. -/
theorem Procedure.lossless_codec : Procedure.codec.Lossless Procedure.Expressible (n + 6) :=
  (Record.lossless_make _).add Codec.lossless_string (fun _ => trivial)
    |>.add (Codec.lossless_string.option fun _ => nofun) (fun _ _ _ => trivial)
    |>.add VariableDecl.lossless_codec.list Expressible.vars
    |>.add SourceAnchor.lossless_codec.list Expressible.anchors
    |>.add Instruction.lossless_codec.list Expressible.instructions
    |>.codec (fun _ => rfl) _

/-! ## Programs -/

theorem ClassDecl.lossless_codec : ClassDecl.codec.Lossless (fun _ => True) (n + 2) :=
  (Record.lossless_make _).add Codec.lossless_string (fun _ => trivial)
    |>.add (Codec.lossless_string.option fun _ => nofun) (fun _ _ _ => trivial)
    |>.add Codec.lossless_string.list (fun _ _ _ => trivial)
    |>.add Codec.lossless_bool (fun _ => trivial)
    |>.codec (fun _ => rfl) _

def ParameterDecl.Expressible (p : ParameterDecl) : Prop := ∀ t ∈ p.type, t.Expressible
deriving Decidable

theorem ParameterDecl.lossless_codec : ParameterDecl.codec.Lossless ParameterDecl.Expressible (n + 2) :=
  (Record.lossless_make _).add Codec.lossless_string (fun _ => trivial)
    |>.add (JvmType.lossless_codec.option fun _ => nofun) id
    |>.add Codec.lossless_string.list (fun _ _ _ => trivial)
    |>.add Codec.lossless_string.list (fun _ _ _ => trivial)
    |>.codec (fun _ => rfl) _

@[mk_iff]
structure MethodDecl.Expressible (m : MethodDecl) : Prop where
  parameters : ∀ p ∈ m.parameters, p.Expressible
  returnType : ∀ t ∈ m.returnType, t.Expressible

instance (m : MethodDecl) : Decidable m.Expressible := decidable_of_iff' _ (MethodDecl.expressible_iff m)

/-- A declared method with its parameters and its result. -/
theorem MethodDecl.lossless_codec : MethodDecl.codec.Lossless MethodDecl.Expressible (n + 4) :=
  (Record.lossless_make _).add Codec.lossless_string (fun _ => trivial)
    |>.add Codec.lossless_string (fun _ => trivial)
    |>.add Codec.lossless_string (fun _ => trivial)
    |>.add ParameterDecl.lossless_codec.list Expressible.parameters
    |>.add (JvmType.lossless_codec.option fun _ => nofun) Expressible.returnType
    |>.add Codec.lossless_string.list (fun _ _ _ => trivial)
    |>.add Codec.lossless_string.list (fun _ _ _ => trivial)
    |>.add Codec.lossless_bool (fun _ => trivial)
    |>.codec (fun _ => rfl) _

/-- All types, constants and numbers of the program are ones that documents can express. -/
@[mk_iff]
structure Program.Expressible (p : Program) : Prop where
  methods : ∀ m ∈ p.methods, m.Expressible
  procedures : ∀ q ∈ p.procedures, q.Expressible

instance (p : Program) : Decidable p.Expressible := decidable_of_iff' _ (Program.expressible_iff p)

namespace Program

/-- A program is its classes, methods and procedures; each is read back by the codec of its kind. -/
theorem lossless_codec : Program.codec.Lossless Program.Expressible (n + 8) :=
  (Record.lossless_make _).add ClassDecl.lossless_codec.list (fun _ _ _ => trivial)
    |>.add MethodDecl.lossless_codec.list Expressible.methods
    |>.add Procedure.lossless_codec.list Expressible.procedures
    |>.codec (fun _ => rfl) _

/-- **Reading a program undoes writing it.** A program all of whose types have descriptors that are accepted, whose
constants hold no floating point number other than the NaN that documents can name, and whose numbers have the size that
they have on the machine, is read back from the document that is written of it. -/
theorem ofJson_write {p : Program} (hp : p.Expressible) : Program.codec.ofJson (Program.codec.write p) = .ok p :=
  (lossless_codec (n := 0)).read hp (p := .document) (show 0 + 8 ≤ Json.depthLimit by decide)

/-- A program that calls a method whose result has the type that a type variable is bound to. -/
def genericCall : Program where
  classes := [⟨"a/Box", some "java/lang/Object", [], false⟩]
  methods := [⟨"a/Box", "get", "()Ljava/lang/Object;", [], some (.typeVar "T"), [], [], false⟩]
  procedures :=
    [{ name := "m"
       sourceFile := none
       vars := [⟨"x", .array .object, .parameter, false, ["org.jetbrains.annotations.Nullable"]⟩]
       anchors := [⟨"x.get()", some 3, none⟩]
       instructions :=
         [⟨0, none, .push (.var 0 false)⟩,
          ⟨1, none, .typeCast ⟨some (.var 0 false), .classType "a/Box"⟩⟩,
          ⟨2, some 0, .methodCall ⟨some ⟨"a/Box", "get", "()Ljava/lang/Object;"⟩, [], some .object, .regular, false,
            none, true, TypeBindings.empty.insert "T" ⟨.string, []⟩⟩⟩,
          ⟨3, none, .push (.constant .nan)⟩,
          ⟨4, none, .binop (some .eq)⟩,
          ⟨5, none, .conditionalGoto 6 true⟩,
          ⟨6, none, .leave⟩] }]

theorem ofJson_write_of_genericCall :
    genericCall.Expressible ∧ Program.codec.ofJson (Program.codec.write genericCall) = .ok genericCall := by
  have h : genericCall.Expressible := by decide +kernel
  exact ⟨h, ofJson_write h⟩

end Program

end NullCheck
