import NullCheck.Analysis
import NullCheck.Proofs.Survey.Agreement

/-!
# What a report holds

The findings of a procedure are in order and different from each other. A report renders the findings of all
procedures and puts the results in order, by rule and then by message. It renders every finding, so it holds a result
as often as there are findings that it is the result of: two calls with one anchor make two equal results.

## The architecture

* **`Finding.nodup_inOrder`**: what was put in order is there once.
* **`Context.finding_mem_of_defect`**: a defect that shows in a state makes a finding, if the run is complete.
* **`SarifResult.toJson_injective`**: results are equal just if they are written alike.
* **`SarifResult.Ordered`**, **`Program.pairwise_results`**, **`Program.results_perm`**: results are in order, and they
  are the findings rendered.
* **`Program.results_exact`**: the headline.
* **`Program.results_repeated`**: equal results do arise.
-/

namespace NullCheck

namespace Finding

/-- Repetitions in a list that is in order stand next to each other, so that they are found. The elements in `acc` come
before `a`. -/
theorem nodup_eraseReps_loop {a : Finding} {as acc : List Finding}
    (has : (a :: as).Pairwise fun a b => (compare a.key b.key).isLE = true) (hacc : acc.Nodup)
    (hbefore : ∀ b ∈ acc, (compare b.key a.key).isLE = true ∧ b ≠ a) :
    (List.eraseRepsBy.loop (· == ·) a as acc).Nodup := by
  have hfresh : (a :: acc).Nodup := List.nodup_cons.mpr ⟨fun ha => (hbefore a ha).2 rfl, hacc⟩
  induction as generalizing a acc with
  | nil =>
    rw [List.eraseRepsBy.loop]
    exact List.nodup_reverse.mpr hfresh
  | cons a' as ih =>
    obtain ⟨hfirst, hrest⟩ := List.pairwise_cons.mp has
    have hle : (compare a.key a'.key).isLE = true := hfirst a' (List.mem_cons_self ..)
    rw [List.eraseRepsBy.loop]
    split
    · rename_i heq
      obtain rfl : a = a' := eq_of_beq heq
      exact ih hrest hacc hbefore hfresh
    · rename_i hdiffer
      have hne : a ≠ a' := fun h => by simp [h] at hdiffer
      have hbefore' : ∀ b ∈ a :: acc, (compare b.key a'.key).isLE = true ∧ b ≠ a' := by
        intro b hb
        rcases List.mem_cons.mp hb with rfl | hb
        · exact ⟨hle, hne⟩
        · obtain ⟨hba, hbne⟩ := hbefore b hb
          refine ⟨Std.TransOrd.isLE_trans hba hle, ?_⟩
          -- an element that came again would be on both sides of `a`
          rintro rfl
          exact hbne (eq_of_isLE hba hle)
      exact ih hrest hfresh hbefore' (List.nodup_cons.mpr ⟨fun ha => (hbefore' a' ha).2 rfl, hfresh⟩)

/-- **What was put in order is there once.** -/
theorem nodup_inOrder (fs : List Finding) : (inOrder fs).Nodup := by
  have hsorted := pairwise_mergeSort_key fs
  unfold inOrder List.eraseReps List.eraseRepsBy
  split
  · exact List.nodup_nil
  · rename_i a as h
    rw [h] at hsorted
    exact nodup_eraseReps_loop hsorted List.nodup_nil (by simp)

end Finding

namespace Context

variable {c : Context}

/-- An analysis reports each finding once. -/
theorem nodup_findings (c : Context) (config : AnalysisConfig) : (c.analyze config).findings.Nodup := by
  show (if _ then _ else _ : List Finding).Nodup
  split
  · exact Finding.nodup_inOrder _
  · exact List.nodup_singleton _

/-- A visit takes nothing back that was recorded. -/
theorem recorded_tally (s : Survey) (p : Successor) :
    s.collector.recorded ⊆ (c.tally s p).collector.recorded ∧
      (c.tally s p).collector.reportUnannotated = s.collector.reportUnannotated := by
  unfold tally
  split
  · rename_i i _
    rw [Survey.collector_add]
    obtain ⟨hrecorded, hreports⟩ := s.collector.recorded_reportAll i (visit c i p.frame).defects
    rw [hrecorded]
    exact ⟨List.subset_append_right _ _, hreports⟩
  · exact ⟨List.Subset.refl _, rfl⟩

theorem recorded_tallyAll (s : Survey) (order : List Successor) :
    s.collector.recorded ⊆ (c.tallyAll s order).collector.recorded := by
  induction order generalizing s with
  | nil => exact List.Subset.refl _
  | cons p order ih => exact List.Subset.trans (recorded_tally s p).1 (ih (c.tally s p))

/-- A defect that some visit of the order finds is recorded, if the collector takes it. -/
theorem finding_mem_recorded {order : List Successor} {p : Successor} (hp : p ∈ order) {i : Instruction}
    (hi : c.procedure.instructions[p.index]? = some i) {d : Defect} (hd : d ∈ (visit c i p.frame).defects) {s : Survey}
    (htakes : s.collector.takes d = true) : i.finding d ∈ (c.tallyAll s order).collector.recorded := by
  induction order generalizing s with
  | nil => cases hp
  | cons q order ih =>
    show _ ∈ (c.tallyAll (c.tally s q) order).collector.recorded
    rcases List.mem_cons.mp hp with rfl | hp
    · -- this visit records the finding, and the later ones keep it
      refine recorded_tallyAll _ order ?_
      rw [tally_eq hi, Survey.collector_add, (s.collector.recorded_reportAll i _).1]
      refine List.mem_append_left _ (List.mem_reverse.mpr (List.mem_map_of_mem ?_))
      exact List.mem_filter.mpr ⟨hd, htakes⟩
    · refine ih hp ?_
      unfold Collector.takes at htakes ⊢
      rwa [(recorded_tally s q).2]

/-- **A defect that shows in a state makes a finding,** if the run is complete. -/
theorem finding_mem_of_defect {config : AnalysisConfig} (hcomplete : (c.run config).complete = true) {p : Successor}
    (hp : p ∈ c.stateSpace) {i : Instruction} (hi : c.procedure.instructions[p.index]? = some i) {d : Defect}
    (hd : d ∈ (visit c i p.frame).defects) (htakes : config.reportUnannotated = true ∨ d.isOptional = false) :
    i.finding d ∈ (c.analyze config).findings := by
  obtain ⟨order, -, -, -, hsurvey, -, hall, -⟩ := run_visits (c := c) config
  -- a complete run visits each state
  have hvisited : p ∈ order := (hall hcomplete).2 p hp
  have htaken : (c.blank config).collector.takes d = true := by
    show (config.reportUnannotated || !d.isOptional) = true
    rcases htakes with h | h <;> simp [h]
  have hrecorded := finding_mem_recorded hvisited hi hd htaken
  rw [← hsurvey] at hrecorded
  show _ ∈ (if (c.run config).complete then (c.run config).survey.findings c.procedure else _)
  rw [if_pos hcomplete]
  unfold Survey.findings
  rw [Finding.mem_inOrder]
  exact List.mem_append_right _ hrecorded

end Context

/-! ## Results -/

/-- Levels are told apart by their names. -/
theorem Level.name_injective : Function.Injective Level.name := by
  intro l m h
  cases l <;> cases m <;> first | rfl | exact absurd h (by decide)

/-- Places are equal if they are written alike: a place without a line has no region. -/
theorem SourcePlace.toJson_injective : Function.Injective SourcePlace.toJson := by
  rintro ⟨file, line⟩ ⟨file', line'⟩ h
  cases line <;> cases line' <;> simp [toJson, region, Json.object] at h <;> simp [h]

/-- One result stands before another, or beside it: by rule, then by message. -/
def SarifResult.Ordered (r s : SarifResult) : Prop := r.ruleId < s.ruleId ∨ r.ruleId = s.ruleId ∧ r.message ≤ s.message

namespace SarifResult

variable {r s t : SarifResult}

/-- Locations are written alike just if they name the same procedure and the same place, or no place. -/
theorem location_eq_iff : r.location = s.location ↔ r.procedure = s.procedure ∧ r.place = s.place := by
  constructor
  · intro h
    cases hr : r.place <;> cases hs : s.place <;>
      simp [location, Json.object, Json.array, hr, hs] at h
    · exact ⟨h, rfl⟩
    · exact ⟨h.1, congrArg some (SourcePlace.toJson_injective h.2)⟩
  · rintro ⟨hprocedure, hplace⟩
    rw [location, location, hprocedure, hplace]

/-- **Results are equal just if they are written alike,** with the same rule, level, message and location. So to count
the results that are equal is to count the entries of the report that are. -/
theorem toJson_injective : Function.Injective SarifResult.toJson := by
  intro r s h
  simp only [toJson, Json.object, Json.array, List.map_cons, List.map_nil, Json.obj.injEq, Json.arr.injEq,
    Json.str.injEq, List.cons.injEq, Prod.mk.injEq, true_and, and_true] at h
  obtain ⟨hrule, hlevel, hmessage, hlocation⟩ := h
  obtain ⟨hprocedure, hplace⟩ := location_eq_iff.mp hlocation
  cases r
  cases s
  simp_all [Level.name_injective.eq_iff]

theorem atMost_iff : r.atMost s = true ↔ r.Ordered s := by
  simp [atMost, Ordered]

/-- The order goes by one text after the other, so it is transitive. -/
theorem Ordered.trans (hrs : r.Ordered s) (hst : s.Ordered t) : r.Ordered t := by
  rcases hrs with hrs | ⟨hrs, hmessage⟩ <;> rcases hst with hst | ⟨hst, hmessage'⟩
  · exact Or.inl (String.lt_trans hrs hst)
  · exact Or.inl (hst ▸ hrs)
  · exact Or.inl (hrs ▸ hst)
  · exact Or.inr ⟨hrs.trans hst, String.le_trans hmessage hmessage'⟩

/-- Any two results are ordered one way or the other. -/
theorem ordered_total (r s : SarifResult) : r.Ordered s ∨ s.Ordered r := by
  by_cases hlt : r.ruleId < s.ruleId
  · exact Or.inl (Or.inl hlt)
  · by_cases hgt : s.ruleId < r.ruleId
    · exact Or.inr (Or.inl hgt)
    · have heq : r.ruleId = s.ruleId := String.le_antisymm hgt hlt
      exact (String.le_total r.message s.message).imp (fun h => Or.inr ⟨heq, h⟩) fun h => Or.inr ⟨heq.symm, h⟩

end SarifResult

namespace Program

variable {hierarchy : ClassHierarchy} {methods : MethodIndex}

/-- Sorting puts results in order. -/
theorem pairwise_results (analyses : List (Procedure × ProcedureAnalysis)) :
    (results analyses).Pairwise SarifResult.Ordered := by
  refine List.Pairwise.imp SarifResult.atMost_iff.mp (List.pairwise_mergeSort ?_ ?_ _)
  · intro r s t hrs hst
    exact SarifResult.atMost_iff.mpr ((SarifResult.atMost_iff.mp hrs).trans (SarifResult.atMost_iff.mp hst))
  · intro r s
    rw [Bool.or_eq_true, SarifResult.atMost_iff, SarifResult.atMost_iff]
    exact r.ordered_total s

/-- Sorting neither adds nor drops a result. -/
theorem results_perm (p : Program) (config : AnalysisConfig) (hierarchy : ClassHierarchy) (methods : MethodIndex) :
    (results (p.analyzeProcedures config hierarchy methods)).Perm (p.procedures.flatMap fun procedure =>
      ((Context.mk procedure methods config.resolver hierarchy).analyze config).findings.map fun f =>
        f.result procedure) := by
  unfold results analyzeProcedures
  rw [List.flatMap_map]
  exact List.mergeSort_perm _ _

/-- The analysis of a program with usable declarations has a result. -/
theorem analyze_eq (p : Program) (config : AnalysisConfig)
    (hclasses : ClassHierarchy.ofList p.classes = .ok hierarchy)
    (hmethods : MethodIndex.ofList p.methods = .ok methods) :
    ∃ a, p.analyze config = .ok a ∧ a.results = results (p.analyzeProcedures config hierarchy methods) := by
  unfold analyze
  rw [hclasses, hmethods]
  exact ⟨_, rfl, rfl⟩

/-- **A report holds every finding, in order.** If the classes and methods of a program are accepted, so is the program.
Its results are in order, by rule and then by message. A result is among them just if it is that of a finding of one of
the procedures. The findings of a procedure are different from each other, and the report holds the result of each
one, so a result is there as often as there are findings, in whatever procedures, that it is the result of. -/
theorem results_exact (p : Program) (config : AnalysisConfig)
    (hclasses : ClassHierarchy.ofList p.classes = .ok hierarchy) (hmethods : MethodIndex.ofList p.methods = .ok methods) :
    let findings (procedure : Procedure) : List Finding :=
      ((Context.mk procedure methods config.resolver hierarchy).analyze config).findings
    ∃ a, p.analyze config = .ok a ∧ a.results.Pairwise SarifResult.Ordered ∧
      (∀ r, r ∈ a.results ↔ ∃ procedure ∈ p.procedures, ∃ f ∈ findings procedure, f.result procedure = r) ∧
      (∀ procedure ∈ p.procedures, (findings procedure).Nodup) ∧
      a.results.Perm (p.procedures.flatMap fun procedure => (findings procedure).map fun f => f.result procedure) := by
  intro findings
  obtain ⟨a, ha, hresults⟩ := analyze_eq p config hclasses hmethods
  have hperm : a.results.Perm
      (p.procedures.flatMap fun procedure => (findings procedure).map fun f => f.result procedure) :=
    hresults ▸ results_perm p config hierarchy methods
  refine ⟨a, ha, hresults ▸ pairwise_results _, fun r => ?_, fun procedure _ => Context.nodup_findings _ config, hperm⟩
  rw [hperm.mem_iff]
  simp only [List.mem_flatMap, List.mem_map]

/-- A call of which nothing is known. -/
def unknownCall : Operation := .methodCall ⟨none, [], none, .regular, false, none, false, .empty⟩

/-- A procedure that calls a method twice on values that may be null, in one line and with one text. -/
def calledTwice : Procedure where
  name := "m"
  sourceFile := none
  vars := []
  anchors := [⟨"next().length()", some 7, none⟩, ⟨"next().length()", some 7, none⟩]
  instructions :=
    [⟨0, none, .push (.typed .string .nullable)⟩,
     ⟨1, some 0, unknownCall⟩,
     ⟨2, none, .pop⟩,
     ⟨3, none, .push (.typed .string .nullable)⟩,
     ⟨4, some 1, unknownCall⟩,
     ⟨5, none, .pop⟩,
     ⟨6, none, .leave⟩]

/-- Both calls are found, and the findings have the same result. -/
theorem results_repeated :
    let p : Program := ⟨[], [], [calledTwice]⟩
    calledTwice.validate = .ok calledTwice ∧ ClassHierarchy.ofList p.classes = .ok .empty ∧
      MethodIndex.ofList p.methods = .ok .empty ∧ ∃ a, p.analyze .standard = .ok a ∧ ¬a.results.Nodup := by
  intro p
  refine ⟨by decide +kernel, rfl, rfl, ?_⟩
  let c : Context := ⟨calledTwice, .empty, AnalysisConfig.standard.resolver, .empty⟩
  have hwaves : c.wave 7 = [] ∧ ((List.range 7).flatMap c.wave).length ≤ 50000 := by decide +kernel
  have hcomplete : (c.run .standard).complete = true := Context.run_complete_of_waves hwaves.1 hwaves.2
  -- the defects at either call
  have hfirst : ∃ q ∈ c.wave 1, q.index = 1 ∧ .callOnNull ∈ (visit c ⟨1, some 0, unknownCall⟩ q.frame).defects := by
    decide +kernel
  have hsecond : ∃ q ∈ c.wave 4, q.index = 4 ∧ .callOnNull ∈ (visit c ⟨4, some 1, unknownCall⟩ q.frame).defects := by
    decide +kernel
  have hfound : ∀ {n : Nat} {q : Successor} {i : Instruction}, q ∈ c.wave n → c.procedure.instructions[q.index]? = some i →
      .callOnNull ∈ (visit c i q.frame).defects → i.finding .callOnNull ∈ (c.analyze .standard).findings := by
    intro n q i hq hi hd
    exact Context.finding_mem_of_defect hcomplete (Context.mem_stateSpace_of_mem_wave hq hi) hi hd (Or.inr rfl)
  obtain ⟨q₁, hq₁, hindex₁, hd₁⟩ := hfirst
  obtain ⟨q₂, hq₂, hindex₂, hd₂⟩ := hsecond
  have hmem₁ := hfound hq₁ (by rw [hindex₁]; rfl) hd₁
  have hmem₂ := hfound hq₂ (by rw [hindex₂]; rfl) hd₂
  have hclasses : ClassHierarchy.ofList p.classes = .ok .empty := rfl
  have hmethods : MethodIndex.ofList p.methods = .ok .empty := rfl
  obtain ⟨a, ha, hresults⟩ := analyze_eq p .standard hclasses hmethods
  refine ⟨a, ha, fun hnodup => ?_⟩
  rw [hresults, (results_perm p .standard .empty .empty).nodup_iff] at hnodup
  have hmap : ((c.analyze .standard).findings.map fun f => f.result calledTwice).Nodup := by
    simpa [p] using hnodup
  have heq := List.inj_on_of_nodup_map hmap hmem₁ hmem₂ (by decide)
  exact absurd heq (by decide)

/-- The report of that procedure holds both findings. -/
theorem results_exact_of_called_twice :
    let p : Program := ⟨[], [], [calledTwice]⟩
    ClassHierarchy.ofList p.classes = .ok .empty ∧ MethodIndex.ofList p.methods = .ok .empty ∧
      ∃ a, p.analyze .standard = .ok a ∧ a.results.Pairwise SarifResult.Ordered ∧
        a.results.Perm (((Context.mk calledTwice .empty AnalysisConfig.standard.resolver .empty).analyze
          .standard).findings.map fun f => f.result calledTwice) := by
  intro p
  have hclasses : ClassHierarchy.ofList p.classes = .ok .empty := rfl
  have hmethods : MethodIndex.ofList p.methods = .ok .empty := rfl
  obtain ⟨a, ha, hordered, -, -, hperm⟩ := results_exact p .standard hclasses hmethods
  refine ⟨hclasses, hmethods, a, ha, hordered, ?_⟩
  simpa [p] using hperm

end Program

end NullCheck
