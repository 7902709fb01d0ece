import NullCheck.Program.Validation
import NullCheck.Proofs.JvmType.Display

/-!
# What validation ensures

The instructions of a valid procedure are numbered in order, whatever numbers the document gave them; they jump to an
instruction or right behind the last one, and the anchors that are mentioned are in the table. Validation demands no
more than that and changes nothing but the numbers, so a procedure that it has accepted is accepted again as it is. What
is read from a text is valid.

## The architecture

* **`Procedure.Numbered`**: every instruction knows its own position.
* **`Instruction.FitsInto`**, **`Procedure.checkInstructions_eq_ok_iff`**: what is demanded of the instructions.
* **`Procedure.validate_eq_ok_iff`**: when a procedure is accepted, and what becomes of it.
* **`Procedure.IsValid`**, **`Procedure.validate_eq_self_iff`**: the procedures that are accepted as they are.
* **`Program.exists_of_validate`**: the procedures of a valid program are valid.
-/

namespace NullCheck

/-- What is demanded of an instruction in a procedure with so many instructions and anchors. -/
structure Instruction.FitsInto (i : Instruction) (length anchors : Nat) : Prop where
  jump : ∀ target, i.operation.jumpTarget? = some target → target ≤ length
  anchor : ∀ anchor, i.anchor = some anchor → anchor < anchors

namespace Procedure

variable {p q : Procedure} {length anchors position : Nat}

/-- Every instruction has its own position as its number. -/
def Numbered (p : Procedure) : Prop :=
  ∀ (k : Nat) (i : Instruction), p.instructions[k]? = some i → i.index = k

/-- Instructions, numbered in order from a position on. -/
def number (position : Nat) (is : List Instruction) : List Instruction :=
  is.mapIdx fun k i => { i with index := position + k }

theorem number_cons (i : Instruction) (is : List Instruction) :
    number position (i :: is) = { i with index := position } :: number (position + 1) is := by
  simp [number, List.mapIdx_cons, Nat.add_assoc, Nat.add_comm 1]

/-- Parents are accepted if they are in the table. -/
theorem checkParents_eq_ok_iff {count : Nat} {as : List SourceAnchor} :
    checkParents count position as = .ok () ↔ ∀ a ∈ as, ∀ parent, a.parent = some parent → parent < count := by
  induction as generalizing position with
  | nil => simp [checkParents]
  | cons a as ih =>
    rw [checkParents, List.forall_mem_cons]
    cases a.parent with
    | none => simp [ih]
    | some parent => by_cases h : count ≤ parent <;> simp [h, ih, Nat.not_lt.mpr, Nat.lt_of_not_le]

/-- An instruction is accepted iff all that it points to exists, and then only its number changes. -/
theorem checkInstruction_eq_ok_iff {i j : Instruction} :
    checkInstruction length anchors position i = .ok j ↔
      i.FitsInto length anchors ∧ j = { i with index := position } := by
  have hfits : i.FitsInto length anchors ↔ (∀ target, i.operation.jumpTarget? = some target → target ≤ length) ∧
      ∀ anchor, i.anchor = some anchor → anchor < anchors :=
    ⟨fun h => ⟨h.jump, h.anchor⟩, fun h => ⟨h.1, h.2⟩⟩
  rw [hfits, checkInstruction]
  -- there may be a target to be checked, and there may be an anchor
  cases i.operation.jumpTarget? <;> cases i.anchor <;> simp [bind, Except.bind, pure, Except.pure] <;> grind

/-- **What is demanded of the instructions of a procedure,** and what becomes of them. -/
theorem checkInstructions_eq_ok_iff {is js : List Instruction} :
    checkInstructions length anchors position is = .ok js ↔
      (∀ i ∈ is, i.FitsInto length anchors) ∧ js = number position is := by
  induction is generalizing position js with
  | nil => simp [checkInstructions, number, eq_comm]
  | cons i is ih =>
    rw [checkInstructions, List.forall_mem_cons, number_cons]
    constructor
    · intro h
      obtain ⟨j, hj, hrest⟩ := exists_of_bind_eq_ok h
      -- the first instruction passes, then the others from the next number on
      obtain ⟨js', hjs, hmade⟩ := exists_of_bind_eq_ok hrest
      obtain ⟨hi, rfl⟩ := checkInstruction_eq_ok_iff.mp hj
      obtain ⟨his, rfl⟩ := ih.mp hjs
      exact ⟨⟨hi, his⟩, (Except.ok.inj hmade).symm⟩
    · rintro ⟨⟨hi, his⟩, rfl⟩
      rw [checkInstruction_eq_ok_iff.mpr ⟨hi, rfl⟩]
      show (checkInstructions length anchors (position + 1) is >>= _) = _
      rw [ih.mpr ⟨his, rfl⟩]
      rfl

/-- **When a procedure is accepted, and what becomes of it:** the anchors that are mentioned are in the table, jumps do
not lead past the end, and the instructions get their numbers. -/
theorem validate_eq_ok_iff :
    p.validate = .ok q ↔
      (∀ a ∈ p.anchors, ∀ parent, a.parent = some parent → parent < p.anchors.length) ∧
        (∀ i ∈ p.instructions, i.FitsInto p.instructions.length p.anchors.length) ∧
        q = { p with instructions := number 0 p.instructions } := by
  rw [validate]
  constructor
  · intro h
    obtain ⟨_, hparents, hrest⟩ := exists_of_bind_eq_ok h
    -- the parents of anchors are checked before the instructions
    obtain ⟨is, his, hmade⟩ := exists_of_bind_eq_ok hrest
    obtain ⟨hfit, rfl⟩ := checkInstructions_eq_ok_iff.mp his
    exact ⟨checkParents_eq_ok_iff.mp hparents, hfit, (Except.ok.inj hmade).symm⟩
  · rintro ⟨hparents, hfit, rfl⟩
    rw [checkParents_eq_ok_iff.mpr hparents]
    show (checkInstructions _ _ 0 p.instructions >>= _) = _
    rw [checkInstructions_eq_ok_iff.mpr ⟨hfit, rfl⟩]
    rfl

/-- Numbering gives each instruction its place as its number. -/
theorem getElem?_number {is : List Instruction} {k : Nat} :
    (number position is)[k]? = is[k]?.map fun i => { i with index := position + k } := by
  rw [number, List.getElem?_mapIdx]

/-- To number instructions gives each its position. -/
theorem index_of_getElem?_number {is : List Instruction} {k : Nat} {i : Instruction} (h : (number 0 is)[k]? = some i) :
    i.index = k := by
  rw [getElem?_number, Option.map_eq_some_iff] at h
  obtain ⟨j, -, rfl⟩ := h
  exact Nat.zero_add k

/-- **The instructions of a valid procedure are numbered in order.** -/
theorem numbered_of_validate {raw p : Procedure} (h : raw.validate = .ok p) : p.Numbered := by
  obtain ⟨-, -, rfl⟩ := validate_eq_ok_iff.mp h
  exact fun k i hi => index_of_getElem?_number hi

/-- The procedures that are accepted as they are. -/
structure IsValid (p : Procedure) : Prop where
  numbered : p.Numbered
  jumps : ∀ i ∈ p.instructions, ∀ target, i.operation.jumpTarget? = some target → target ≤ p.instructions.length
  anchors : ∀ i ∈ p.instructions, ∀ anchor, i.anchor = some anchor → anchor < p.anchors.length
  parents : ∀ a ∈ p.anchors, ∀ parent, a.parent = some parent → parent < p.anchors.length

/-- Instructions with the right numbers keep them. -/
theorem number_eq_self_iff : number 0 p.instructions = p.instructions ↔ p.Numbered := by
  constructor
  · intro h k i hi
    rw [← h] at hi
    exact index_of_getElem?_number hi
  · intro h
    refine List.ext_getElem? fun k => ?_
    rw [getElem?_number]
    cases hk : p.instructions[k]? with
    | none => rfl
    | some i =>
      have hindex : i.index = 0 + k := by rw [h k i hk, Nat.zero_add]
      rw [Option.map_some, ← hindex]

/-- **A procedure is accepted as it is just if it is valid.** -/
theorem validate_eq_self_iff : p.validate = .ok p ↔ p.IsValid := by
  rw [validate_eq_ok_iff]
  constructor
  · rintro ⟨hparents, hfit, hself⟩
    exact ⟨number_eq_self_iff.mp (congrArg instructions hself).symm, fun i hi => (hfit i hi).jump,
      fun i hi => (hfit i hi).anchor, hparents⟩
  · intro h
    refine ⟨h.parents, fun i hi => ⟨h.jumps i hi, h.anchors i hi⟩, ?_⟩
    rw [number_eq_self_iff.mpr h.numbered]

theorem exists_of_mem_number {is : List Instruction} {i : Instruction} (h : i ∈ number position is) :
    ∃ j ∈ is, i = { j with index := i.index } := by
  obtain ⟨k, hk⟩ := List.getElem?_of_mem h
  rw [getElem?_number, Option.map_eq_some_iff] at hk
  obtain ⟨j, hj, rfl⟩ := hk
  exact ⟨j, List.mem_of_getElem? hj, rfl⟩

/-- **What is accepted is valid.** -/
theorem isValid_of_validate (h : p.validate = .ok q) : q.IsValid := by
  have hnumbered := numbered_of_validate h
  obtain ⟨hparents, hfit, rfl⟩ := validate_eq_ok_iff.mp h
  have hlength : (number 0 p.instructions).length = p.instructions.length := List.length_mapIdx
  refine ⟨hnumbered, fun i hi target htarget => ?_, fun i hi anchor hanchor => ?_, hparents⟩
  · obtain ⟨j, hj, hij⟩ := exists_of_mem_number hi
    rw [hij] at htarget
    exact hlength ▸ (hfit j hj).jump target htarget
  · obtain ⟨j, hj, hij⟩ := exists_of_mem_number hi
    rw [hij] at hanchor
    exact (hfit j hj).anchor anchor hanchor

end Procedure

namespace Program

/-- What is made of a list is made of its members. -/
theorem exists_of_mem_mapM {α β ε : Type} {f : α → Except ε β} {as : List α} {bs : List β}
    (h : as.mapM f = .ok bs) {b : β} (hb : b ∈ bs) : ∃ a ∈ as, f a = .ok b := by
  induction as generalizing bs with
  | nil =>
    rw [List.mapM_nil] at h
    cases h
    cases hb
  | cons a as ih =>
    rw [List.mapM_cons] at h
    obtain ⟨first, hfirst, h⟩ := exists_of_bind_eq_ok h
    obtain ⟨rest, hrest, h⟩ := exists_of_bind_eq_ok h
    cases h
    rcases List.mem_cons.mp hb with rfl | hb
    · exact ⟨a, List.mem_cons_self .., hfirst⟩
    · obtain ⟨a', ha', hb'⟩ := ih hrest hb
      exact ⟨a', List.mem_cons_of_mem _ ha', hb'⟩

theorem validateProcedure_eq_ok_iff {q q' : Procedure} : validateProcedure q = .ok q' ↔ q.validate = .ok q' := by
  unfold validateProcedure
  cases q.validate <;> simp

/-- **The procedures of a valid program are valid.** -/
theorem exists_of_validate {raw p : Program} (h : raw.validate = .ok p) {procedure : Procedure}
    (hp : procedure ∈ p.procedures) : ∃ q ∈ raw.procedures, q.validate = .ok procedure := by
  unfold validate at h
  obtain ⟨methods, -, h⟩ := exists_of_bind_eq_ok h
  obtain ⟨procedures, hprocedures, h⟩ := exists_of_bind_eq_ok h
  cases h
  obtain ⟨q, hq, hvalid⟩ := exists_of_mem_mapM hprocedures hp
  exact ⟨q, hq, validateProcedure_eq_ok_iff.mp hvalid⟩

/-- The instructions of an accepted program are numbered by their places. -/
theorem numbered_of_validate {raw p : Program} (h : raw.validate = .ok p) {procedure : Procedure}
    (hp : procedure ∈ p.procedures) : procedure.Numbered := by
  obtain ⟨q, _, hq⟩ := exists_of_validate h hp
  exact Procedure.numbered_of_validate hq

/-- To compute what is read from a text, it is enough to compute whether it is read. -/
theorem ofText_of_toOption {text : String} {p : Program} (h : (ofText text).toOption = some p) :
    ofText text = .ok p := by
  cases hread : ofText text with
  | error e =>
    rw [hread] at h
    cases h
  | ok q =>
    rw [hread] at h
    exact congrArg Except.ok (Option.some.inj h)

/-- What is read from a text was validated. -/
theorem exists_validate_of_ofText {text : String} {p : Program} (h : ofText text = .ok p) :
    ∃ raw : Program, raw.validate = .ok p := by
  unfold ofText ofJson at h
  split at h
  · cases h
  · rename_i raw _
    split at h
    · cases h
    · rename_i q hq
      rw [Except.ok.injEq] at h
      subst h
      exact ⟨raw, hq⟩

end Program

end NullCheck
