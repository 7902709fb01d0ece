import Mathlib.Data.Finset.Card
import Mathlib.Data.Finset.Image
import Mathlib.Data.Nat.Find
import Mathlib.Logic.Relation
import NullCheck.Proofs.Program.Validation
import NullCheck.Proofs.Survey.Agreement

/-!
# Walks along the parents of anchors

The parents of an anchor are followed for as many steps as there are anchors. In a table with all its parents nothing is
lost by that, even if the parents form a cycle: a walk that comes to an anchor at all comes to it before it has passed
more anchors than the table has, as up to the first time it is there it passes none twice.

## The architecture

* **`Procedure.up?`**: the walk without a bound; **`Procedure.getElem?_ancestors`**: the bounded one is its beginning.
* **`Procedure.exists_lt_of_up?`**: the pigeonhole argument.
* **`Procedure.isAncestor_iff`**, **`Procedure.anchorLine?_eq_some_iff`**, **`Survey.isSilenced_addAll_iff`**: what the
  walks are for; **`Context.isSilenced_run_iff`**: the anchors that are recorded in a run.
* **`Procedure.walks_exact`**: the headline.
-/

namespace NullCheck

/-- What is found first in a list, by position. -/
theorem findSome?_eq_some_iff_getElem? {α β : Type} {f : α → Option β} {as : List α} {b : β} :
    as.findSome? f = some b ↔
      ∃ (k : Nat) (a : α), as[k]? = some a ∧ f a = some b ∧ ∀ j < k, ∀ a', as[j]? = some a' → f a' = none := by
  rw [List.findSome?_eq_some_iff]
  constructor
  · rintro ⟨before, a, after, rfl, ha, hbefore⟩
    refine ⟨before.length, a, by simp, ha, fun j hj a' ha' => ?_⟩
    rw [List.getElem?_append_left hj] at ha'
    exact hbefore a' (List.mem_of_getElem? ha')
  · -- what lies before `k` is the front of the list
    rintro ⟨k, a, hk, ha, hbefore⟩
    obtain ⟨hlt, rfl⟩ := List.getElem?_eq_some_iff.mp hk
    refine ⟨as.take k, as[k], as.drop (k + 1), by simp, ha, fun a' ha' => ?_⟩
    obtain ⟨j, hj⟩ := List.getElem?_of_mem ha'
    rw [List.getElem?_take] at hj
    split at hj
    · exact hbefore j ‹_› a' hj
    · cases hj

namespace Procedure

variable {p : Procedure} {a b d : AnchorId} {k : Nat}

variable (p) in
/-- All parents of anchors are in the table. -/
def ParentsInside : Prop := ∀ x ∈ p.anchors, ∀ parent, x.parent = some parent → parent < p.anchors.length

theorem IsValid.parentsInside (h : p.IsValid) : p.ParentsInside := h.parents

/-! ## The walk without a bound -/

variable (p) in
/-- The anchor that is so many steps up from another one, if its parents lead that far. -/
def up? : Nat → AnchorId → Option AnchorId
  | 0, d => some d
  | k + 1, d => (p.parent? d).bind (up? k)

/-- To go up in two stages. -/
theorem up?_add (j k : Nat) (d : AnchorId) : p.up? (j + k) d = (p.up? j d).bind (p.up? k) := by
  induction j generalizing d with
  | zero => rw [Nat.zero_add, up?, Option.bind_some]
  | succ j ih =>
    rw [Nat.add_right_comm, up?, up?, Option.bind_assoc]
    exact congrArg _ (funext ih)

/-- An anchor is reached from another one by zero or more steps from an anchor to its parent. -/
def LeadsTo (p : Procedure) : AnchorId → AnchorId → Prop := Relation.ReflTransGen fun d a => p.parent? d = some a

/-- An anchor leads to another one iff it is some number of steps away. -/
theorem leadsTo_iff : p.LeadsTo d a ↔ ∃ k, p.up? k d = some a := by
  constructor
  · intro h
    induction h using Relation.ReflTransGen.head_induction_on with
    | refl => exact ⟨0, rfl⟩
    -- the first step is to the parent
    | head hparent _ ih =>
      obtain ⟨k, hk⟩ := ih
      exact ⟨k + 1, by rw [up?, hparent, Option.bind_some, hk]⟩
  · rintro ⟨k, hk⟩
    induction k generalizing d with
    | zero => exact Option.some.inj hk ▸ .refl
    | succ k ih =>
      obtain ⟨parent, hparent, hrest⟩ := Option.bind_eq_some_iff.mp hk
      exact .head hparent (ih hrest)

/-- The bounded walk is the beginning of the one without a bound. -/
theorem getElem?_ancestors (count k : Nat) (d : AnchorId) :
    (p.ancestors count d)[k]? = if k < count then p.up? k d else none := by
  induction count generalizing k d with
  | zero => rfl
  | succ count ih =>
    cases k with
    | zero => rfl
    | succ k =>
      rw [ancestors, List.getElem?_cons_succ, up?]
      cases p.parent? d with
      | none => simp
      | some parent => simp [ih]

/-- The walk passes what is fewer steps away than there are anchors. -/
theorem getElem?_anchorChain_eq_some_iff :
    (p.anchorChain d)[k]? = some a ↔ k < max p.anchors.length 1 ∧ p.up? k d = some a := by
  rw [anchorChain, getElem?_ancestors]
  split <;> simp [*]

/-! ## The pigeonhole argument -/

theorem lt_length_of_parent? (h : p.parent? d = some a) : d < p.anchors.length := by
  obtain ⟨x, hx, -⟩ := Option.bind_eq_some_iff.mp h
  exact (List.getElem?_eq_some_iff.mp hx).1

theorem ParentsInside.parent_lt (hp : p.ParentsInside) (h : p.parent? d = some a) : a < p.anchors.length := by
  obtain ⟨x, hx, hparent⟩ := Option.bind_eq_some_iff.mp h
  exact hp x (List.mem_of_getElem? hx) a hparent

/-- A walk of at least one step passes nothing but anchors in the table. -/
theorem ParentsInside.exists_of_up? (hp : p.ParentsInside) (h : p.up? (k + 1) d = some a) {j : Nat} (hj : j ≤ k + 1) :
    ∃ b < p.anchors.length, p.up? j d = some b := by
  obtain ⟨rest, hrest⟩ := Nat.exists_eq_add_of_le hj
  rw [hrest, up?_add] at h
  obtain ⟨b, hb, hup⟩ := Option.bind_eq_some_iff.mp h
  refine ⟨b, ?_, hb⟩
  cases rest with
  | zero =>
    -- the last one is a parent
    obtain rfl : j = k + 1 := hrest.symm
    rw [up?_add] at hb
    obtain ⟨c, -, hc⟩ := Option.bind_eq_some_iff.mp hb
    obtain ⟨parent, hparent, hself⟩ := Option.bind_eq_some_iff.mp hc
    exact Option.some.inj hself ▸ hp.parent_lt hparent
  | succ rest =>
    -- all others have one
    obtain ⟨parent, hparent, -⟩ := Option.bind_eq_some_iff.mp hup
    exact lt_length_of_parent? hparent

/-- **A walk that comes to an anchor comes to it within as many steps as there are anchors.** -/
theorem ParentsInside.exists_lt_of_up? (hp : p.ParentsInside) (h : p.up? k d = some a) :
    ∃ j ≤ k, j < max p.anchors.length 1 ∧ p.up? j d = some a := by
  classical
  have hexists : ∃ j, p.up? j d = some a := ⟨k, h⟩
  -- the first time that the walk is there
  obtain ⟨j, hj, hfirst⟩ : ∃ j, p.up? j d = some a ∧ ∀ i < j, p.up? i d ≠ some a :=
    ⟨Nat.find hexists, Nat.find_spec hexists, fun i hi => Nat.find_min hexists hi⟩
  have hjk : j ≤ k := Nat.le_of_not_lt fun hkj => hfirst k hkj h
  refine ⟨j, hjk, ?_, hj⟩
  by_contra hfar
  obtain ⟨steps, rfl⟩ : ∃ steps, j = steps + 1 := Nat.exists_eq_succ_of_ne_zero (by omega)
  -- there are fewer anchors than the walk has passed, so it was at one of them twice
  have hmaps : ∀ i ∈ Finset.range (steps + 2), p.up? i d ∈ (Finset.range p.anchors.length).image some := by
    intro i hi
    obtain ⟨b, hb, hup⟩ := hp.exists_of_up? hj (Nat.le_of_lt_succ (Finset.mem_range.mp hi))
    exact Finset.mem_image.mpr ⟨b, Finset.mem_range.mpr hb, hup.symm⟩
  have hcard : ((Finset.range p.anchors.length).image some).card < (Finset.range (steps + 2)).card := by
    have himage := Finset.card_image_le (s := Finset.range p.anchors.length) (f := some)
    rw [Finset.card_range] at himage ⊢
    omega
  obtain ⟨i, hi, i', hi', hne, hsame⟩ := Finset.exists_ne_map_eq_of_card_lt_of_maps_to hcard hmaps
  rw [Finset.mem_range] at hi hi'
  -- without the steps in between it would have come to its end sooner
  have hshorter : ∀ i i', i < i' → i' ≤ steps + 1 → p.up? i d = p.up? i' d → False := by
    intro i i' hlt hle hsame
    refine hfirst (i + (steps + 1 - i')) (by omega) ?_
    rw [up?_add, hsame, ← up?_add, Nat.add_sub_cancel' hle, hj]
  rcases Nat.lt_or_gt_of_ne hne with hlt | hlt
  · exact hshorter i i' hlt (Nat.le_of_lt_succ hi') hsame
  · exact hshorter i' i hlt (Nat.le_of_lt_succ hi) hsame.symm

/-! ## What the walks are for -/

/-- The walk is long enough: what can be reached is reached before an anchor comes twice. -/
theorem mem_anchorChain_iff (hp : p.ParentsInside) : a ∈ p.anchorChain d ↔ p.LeadsTo d a := by
  rw [leadsTo_iff, List.mem_iff_getElem?]
  simp only [getElem?_anchorChain_eq_some_iff]
  constructor
  · rintro ⟨k, -, hk⟩
    exact ⟨k, hk⟩
  · rintro ⟨k, hk⟩
    obtain ⟨j, -, hj, hup⟩ := hp.exists_lt_of_up? hk
    exact ⟨j, hj, hup⟩

/-- So the bounded search for an ancestor finds all of them. -/
theorem isAncestor_iff (hp : p.ParentsInside) : p.isAncestor a d = true ↔ p.LeadsTo d a := by
  rw [isAncestor, decide_eq_true_iff, mem_anchorChain_iff hp]

variable (p) in
/-- The line that an anchor has itself. -/
def line? (a : AnchorId) : Option Nat := p.anchors[a]?.bind SourceAnchor.line

/-- The first anchor with a line, on the walk up from an anchor, has this one. -/
def FirstLine (p : Procedure) (d : AnchorId) (line : Nat) : Prop :=
  ∃ k a, p.up? k d = some a ∧ p.line? a = some line ∧ ∀ j < k, ∀ b, p.up? j d = some b → p.line? b = none

/-- The line of an anchor is the first one on the way to the root. -/
theorem anchorLine?_eq_some_iff (hp : p.ParentsInside) {line : Nat} :
    p.anchorLine? d = some line ↔ p.FirstLine d line := by
  show (p.anchorChain d).findSome? p.line? = some line ↔ _
  rw [findSome?_eq_some_iff_getElem?]
  simp only [getElem?_anchorChain_eq_some_iff]
  constructor
  · rintro ⟨k, a, ⟨hlt, hk⟩, ha, hfirst⟩
    exact ⟨k, a, hk, ha, fun j hj b hb => hfirst j hj b ⟨hj.trans hlt, hb⟩⟩
  · rintro ⟨k, a, hk, ha, hfirst⟩
    -- the walk is there the first time that it comes to a line, so within the bound
    obtain ⟨j, hjk, hlt, hj⟩ := hp.exists_lt_of_up? hk
    rcases hjk.lt_or_eq with hlt' | rfl
    · rw [hfirst j hlt' a hj] at ha
      cases ha
    · exact ⟨j, a, ⟨hlt, hj⟩, ha, fun i hi b hb => hfirst i hi b hb.2⟩

/-- An anchor has no line iff nothing on the way to the root has one. -/
theorem anchorLine?_eq_none_iff (hp : p.ParentsInside) :
    p.anchorLine? d = none ↔ ∀ a, p.LeadsTo d a → p.line? a = none := by
  show (p.anchorChain d).findSome? p.line? = none ↔ _
  rw [List.findSome?_eq_none_iff]
  simp only [mem_anchorChain_iff hp]

end Procedure

namespace Survey

variable {s : Survey} {visits : List (Instruction × Visit)} {b : AnchorId}

/-- What visits to instructions come to, on top of a survey. -/
def addAll (s : Survey) (visits : List (Instruction × Visit)) : Survey :=
  visits.foldl (fun s v => s.add v.1 v.2) s

/-- An anchor is recorded by a visit that silences what is said about the outcome of its comparison. -/
def Records (visits : List (Instruction × Visit)) (b : AnchorId) : Prop :=
  ∃ v ∈ visits, v.2.observation.reached = true ∧ v.2.observation.silenced = true ∧ v.1.anchor = some b

/-- An anchor is silenced by a visit at it that gets to its end and asks for it. -/
theorem mem_silenced_add {i : Instruction} {v : Visit} : b ∈ (s.add i v).silenced ↔
    (v.observation.reached = true ∧ v.observation.silenced = true ∧ i.anchor = some b) ∨ b ∈ s.silenced := by
  rw [silenced_add]
  split
  · rename_i h
    rw [Sorted.mem_insertAll, Option.mem_toList]
    simp [h]
  · rename_i h
    rw [← and_assoc]
    simp [h]

/-- By induction on the visits, the anchors that are silenced are those that were recorded. -/
theorem mem_silenced_addAll : b ∈ (s.addAll visits).silenced ↔ Records visits b ∨ b ∈ s.silenced := by
  unfold addAll Records
  induction visits generalizing s with
  | nil => simp
  | cons v visits ih =>
    rw [List.foldl_cons, ih, mem_silenced_add, List.exists_mem_cons_iff, or_left_comm, or_assoc]

/-- **Nothing is said about comparisons with an anchor just if it encloses one that was recorded,** before the visits or
by one of them. -/
theorem isSilenced_addAll_iff {p : Procedure} (hp : p.ParentsInside) {a : AnchorId} :
    (s.addAll visits).isSilenced p (some a) = true ↔ ∃ b, (Records visits b ∨ b ∈ s.silenced) ∧ p.LeadsTo b a := by
  rw [isSilenced, List.any_eq_true]
  simp only [mem_silenced_addAll, Procedure.isAncestor_iff hp]

end Survey

namespace Context

variable {c : Context}

variable (c) in
/-- The visits to pairs, with their instructions. -/
def visitsTo (order : List Successor) : List (Instruction × Visit) :=
  order.filterMap fun q => c.procedure.instructions[q.index]?.map fun i => (i, visit c i q.frame)

/-- To visit in some order is to add the visits in that order. -/
theorem tallyAll_eq_addAll (s : Survey) (order : List Successor) :
    c.tallyAll s order = s.addAll (c.visitsTo order) := by
  unfold tallyAll visitsTo Survey.addAll
  induction order generalizing s with
  | nil => rfl
  | cons q order ih =>
    rw [List.foldl_cons, ih, List.filterMap_cons, tally]
    cases c.procedure.instructions[q.index]? <;> rfl

/-- **In a run** the anchors are recorded by the visits to what it explores. -/
theorem isSilenced_run_iff (hp : c.procedure.ParentsInside) (config : AnalysisConfig) :
    ∃ order, c.Explores config order ∧ ∀ a, (c.run config).survey.isSilenced c.procedure (some a) = true ↔
      ∃ b, Survey.Records (c.visitsTo order) b ∧ c.procedure.LeadsTo b a := by
  obtain ⟨order, horder⟩ := c.exists_explores config
  refine ⟨order, horder, fun a => ?_⟩
  have hblank : (c.blank config).silenced = [] := rfl
  rw [horder.survey, tallyAll_eq_addAll, Survey.isSilenced_addAll_iff hp, hblank]
  simp only [List.not_mem_nil, or_false]

end Context

namespace Procedure

/-- **Walks along parents lose nothing by their bound,** even if the parents form a cycle. In a table with all its
parents an anchor is an ancestor of another one just if it is reached from it by zero or more steps to a parent. The
line of an anchor is that of the first one with a line on the way up, and there is none just if no anchor that is
reached has one. Nothing is said about comparisons with an anchor just if it is reached from one that was recorded, by
some visit or in the survey that the visits were added to. -/
theorem walks_exact (p : Procedure) (hp : p.ParentsInside) :
    (∀ a d, p.isAncestor a d = true ↔ p.LeadsTo d a) ∧
      (∀ d line, p.anchorLine? d = some line ↔ p.FirstLine d line) ∧
      (∀ d, p.anchorLine? d = none ↔ ∀ a, p.LeadsTo d a → p.line? a = none) ∧
      ∀ (s : Survey) (visits : List (Instruction × Visit)) (a : AnchorId),
        (s.addAll visits).isSilenced p (some a) = true ↔
          ∃ b, (Survey.Records visits b ∨ b ∈ s.silenced) ∧ p.LeadsTo b a :=
  ⟨fun _ _ => isAncestor_iff hp, fun _ _ => anchorLine?_eq_some_iff hp, fun _ => anchorLine?_eq_none_iff hp,
    fun _ _ _ => Survey.isSilenced_addAll_iff hp⟩

/-- A comparison of what is read through a method, in an anchor from which the parents lead around in a circle. Only the
last one on the way has a line. -/
def circle : Procedure where
  name := "m"
  sourceFile := none
  vars := [⟨"x", .classType "java/lang/String", .local, false, []⟩]
  anchors := [⟨"x.y", none, some 1⟩, ⟨"x.y == null", none, some 2⟩, ⟨"if", some 7, some 0⟩]
  instructions := [⟨0, some 0, .binop (some .eq)⟩]

/-- The visit to the comparison. -/
def circle.visits : List (Instruction × Visit) :=
  circle.instructions.map fun i => (i, visit ⟨circle, .empty, AnalysisConfig.standard.resolver, .empty⟩ i
    ((Frame.empty.push (.var 0 true)).push .null))

/-- The way around the circle takes as many steps as there are anchors, and the last of them has the line. -/
theorem walks_exact_of_circle : circle.ParentsInside ∧ circle.LeadsTo 0 2 ∧ circle.LeadsTo 2 1 ∧
    circle.FirstLine 0 7 ∧ (∃ b, (Survey.Records circle.visits b ∨ b ∈ (Survey.start true).silenced) ∧
      circle.LeadsTo b 2) := by
  have hp : circle.ParentsInside := by
    simp [ParentsInside, circle]
  obtain ⟨hancestor, hline, -, hsilenced⟩ := walks_exact circle hp
  exact ⟨hp, (hancestor 2 0).mp (by decide), (hancestor 1 2).mp (by decide), (hline 0 7).mp (by decide),
    (hsilenced (.start true) circle.visits 2).mp (by decide)⟩

end Procedure

end NullCheck
