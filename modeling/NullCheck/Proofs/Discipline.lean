import NullCheck.Proofs.Survey.Agreement
import NullCheck.Proofs.Value.Meaning

/-!
# Explorations in other orders

An exploration takes the pairs that wait in the order in which they came. Here they are taken in any order: a
*discipline* chooses the next one, with regard to all that was taken before and all that waits. Pairs that were
visited are still skipped, and the budget is still checked before a visit. No discipline loses a state or adds one,
so all of them end in the same way and with the same findings, though values come up in another order and get other
numbers.

That the numbers are others cannot be seen in a frame, as frames hold the values themselves. It is harmless because
numbers stand for values one for one: an interner has one number for each value that came up
(`Interner.canonical_forms`), so the numbers of one search are those of another one under other names, and so are the
nodes under them (`Context.numbers_renamed`).

## The architecture

* **`Discipline`**, **`Context.search`**: the search under a discipline.
* **`Context.search_first`**: to take the pairs as they came is to explore breadth first.
* **`Context.search_spec`**: by induction on the search, it visits new states in turn, as an exploration does.
* **`Context.exists_perm_of_complete`**: two complete searches visit the same states, in one order or another.
* **`Context.agrees_of_complete`**: their surveys agree.
* **`Context.analyze_independent_of_order`**: the headline; **`Context.numbers_renamed`**: what becomes of the numbers.
-/

namespace NullCheck

/-- A rule that chooses the pair to be taken next from those that wait. It may look at all pairs that were taken
before, the last one first. -/
structure Discipline where
  choose : (taken waiting : List Successor) → Nat
  choose_lt : ∀ taken p waiting, choose taken (p :: waiting) < (p :: waiting).length

namespace Discipline

/-- Takes the pair that has waited longest. -/
def first : Discipline := ⟨fun _ _ => 0, fun _ _ _ => Nat.succ_pos _⟩

end Discipline

namespace Context

variable (c : Context)

/-- Visits the pairs that wait, and all that are reached from them, in the order that a discipline chooses. New pairs
are put behind those that wait. -/
def search (d : Discipline) (budget : Nat) (taken visited : List Successor) (s : Survey)
    (waiting : List Successor) : Exploration :=
  match waiting with
  | [] => ⟨s, visited.length, true⟩
  | q :: qs =>
    have hlt := d.choose_lt taken q qs
    let p := (q :: qs)[d.choose taken (q :: qs)]
    let rest := (q :: qs).eraseIdx (d.choose taken (q :: qs))
    match c.procedure.instructions[p.index]? with
    | none => search d budget (p :: taken) visited s rest
    | some i =>
      if p ∈ visited then search d budget (p :: taken) visited s rest
      else if budget ≤ visited.length then ⟨s, visited.length + 1, false⟩
      else
        let v := visit c i p.frame
        search d budget (p :: taken) (visited ++ [p]) (s.add i v) (rest ++ v.next)
termination_by (budget - visited.length, waiting.length)
decreasing_by
  all_goals simp_wf
  · exact Prod.Lex.right _ (by rw [List.length_eraseIdx_of_lt hlt]; simp)
  · exact Prod.Lex.right _ (by rw [List.length_eraseIdx_of_lt hlt]; simp)
  · exact Prod.Lex.left _ _ (by omega)

/-- Explores the procedure from its entry, in the order that a discipline chooses. -/
def runBy (d : Discipline) (config : AnalysisConfig) : Exploration :=
  c.search d config.maxStates [] [] (c.blank config) [c.start]

/-- The analysis of a procedure that is explored in the order that a discipline chooses. -/
def analyzeBy (d : Discipline) (config : AnalysisConfig) : ProcedureAnalysis :=
  let e := c.runBy d config
  let findings :=
    if e.complete then e.survey.findings c.procedure else [⟨.analysisTooComplex, 0, none, none⟩]
  ⟨e, findings⟩

variable {c}

/-! ## Breadth first -/

/-- To take the pairs as they came is to explore breadth first. -/
theorem search_first {budget : Nat} {seen : Std.HashSet MarkedPair} {visited front back : List Successor} {n : Nat}
    {s : Survey} (taken : List Successor) (hn : n = visited.length)
    (hseen : ∀ p : Successor, p.marked ∈ seen ↔ p ∈ visited) :
    c.search .first budget taken visited s (front ++ back.reverse) = c.explore budget seen n s front back := by
  fun_induction explore c budget seen n s front back generalizing taken visited with
  | case1 seen n s =>
    rw [hn]
    simp [search]
  | case2 seen n s p back ih =>
    rw [← ih taken hn hseen]
    simp
  | case3 seen n s back p front hi ih =>
    rw [← ih (p :: taken) hn hseen, List.cons_append, search]
    simp [Discipline.first, hi]
  | case4 seen n s back p front i hi m hm =>
    rename_i ih
    rw [← ih (p :: taken) hn hseen, List.cons_append, search]
    simp [Discipline.first, hi, (hseen p).mp hm]
  | case5 seen n s back p front i hi m hm =>
    rename_i hgive
    -- the budget is used up
    have hp : p ∉ visited := fun h => hm ((hseen p).mpr h)
    rw [List.cons_append, search]
    simp [Discipline.first, hi, hp, ← hn, hgive]
  | case6 seen n s back p front i hi m hm =>
    rename_i hgive v ih
    have hp : p ∉ visited := fun h => hm ((hseen p).mpr h)
    -- what is marked as seen is what was visited, now with `p`
    have hmarks : ∀ q : Successor, q.marked ∈ seen.insert m ↔ q ∈ visited ++ [p] := by
      intro q
      rw [Std.HashSet.mem_insert, hseen q, beq_iff_eq, Successor.marked_inj, List.mem_append, List.mem_singleton]
      exact ⟨fun h => h.elim (fun h => Or.inr h.symm) Or.inl, fun h => h.elim Or.inr fun h => Or.inl h.symm⟩
    rw [← ih (p :: taken) (by simp [hn]) hmarks, List.cons_append, search]
    simp [Discipline.first, hi, hp, ← hn, hgive, v]

/-- **A run is the search that takes the pairs as they came.** -/
theorem run_eq_runBy_first (config : AnalysisConfig) : c.run config = c.runBy .first config := by
  have hseen : ∀ p : Successor, p.marked ∈ (∅ : Std.HashSet MarkedPair) ↔ p ∈ ([] : List Successor) := by simp
  have hsearch : c.search .first config.maxStates [] [] (c.blank config) ([c.start] ++ [].reverse) =
      c.explore config.maxStates ∅ 0 (c.blank config) [c.start] [] := search_first [] rfl hseen
  rw [List.reverse_nil, List.append_nil] at hsearch
  exact hsearch.symm

/-! ## What a search visits -/

/-- Any of the pairs that wait may be taken. -/
theorem Covers.take {visited waiting : List Successor} (h : c.Covers visited waiting) {k : Nat}
    (hk : k < waiting.length) : c.Covers visited (waiting[k] :: waiting.eraseIdx k) :=
  h.of_mem_iff fun _ => (List.getElem_cons_eraseIdx_perm hk).mem_iff

/-- **A search visits new states in turn, until none is left or the budget is used up,** whatever its discipline. -/
theorem search_spec {d : Discipline} {budget : Nat} {taken visited waiting : List Successor} {s : Survey}
    (hcovers : c.Covers visited waiting) (hbudget : visited.length ≤ budget) :
    c.Extends budget s visited (c.search d budget taken visited s waiting) := by
  fun_induction search c d budget taken visited s waiting with
  | case1 taken visited s =>
    refine ⟨[], [], rfl, by simpa using hcovers, by simpa using hbudget, fun _ => ?_, by simp⟩
    rw [List.append_nil]
    exact ⟨rfl, rfl⟩
  | case2 taken visited s q qs hlt p rest hi ih =>
    -- a pair behind the last instruction
    have hle : c.procedure.instructions.length ≤ p.index := List.getElem?_eq_none_iff.mp hi
    exact ih ((hcovers.take hlt).drop fun hp => absurd hp (Nat.not_lt.mpr hle)) hbudget
  | case3 taken visited s q qs hlt p rest i hi hp ih =>
    -- a pair that was visited
    exact ih ((hcovers.take hlt).drop fun _ => hp) hbudget
  | case4 taken visited s q qs hlt p i hi hp =>
    rename_i hgive
    -- a state that is one too many
    refine ⟨[], q :: qs, rfl, by simpa using hcovers, by simpa using hbudget, by simp, fun _ => ?_⟩
    rw [List.append_nil]
    refine ⟨?_, by omega, p, (hcovers.take hlt).mem_stateSpace hi, hp⟩
    show visited.length + 1 = budget + 1
    omega
  | case5 taken visited s q qs hlt p rest i hi hp =>
    rename_i hgive v ih
    -- a state to be visited
    have hlength : (visited ++ [p]).length = visited.length + 1 := List.length_append
    obtain ⟨order, waiting, hsurvey, hrest⟩ := ih ((hcovers.take hlt).visit hi hp) (by omega)
    refine ⟨p :: order, waiting, ?_, ?_⟩
    · rw [hsurvey]
      show _ = c.tallyAll (c.tally s p) order
      rw [tally_eq hi]
    · rwa [List.append_cons]

theorem runBy_spec (d : Discipline) (config : AnalysisConfig) :
    c.Extends config.maxStates (c.blank config) [] (c.runBy d config) :=
  search_spec Covers.initial (Nat.zero_le _)

/-- **A search is complete just if there are no more states than the budget,** whatever its discipline. -/
theorem Extends.complete_iff {budget : Nat} {s : Survey} {e : Exploration} (h : c.Extends budget s [] e) :
    e.complete = true ↔ c.stateSpace.Finite ∧ c.stateSpace.ncard ≤ budget := by
  obtain ⟨order, waiting, -, hcovers, hbudget, hcomplete, hgiven⟩ := h
  rw [List.nil_append] at hcovers hbudget hcomplete hgiven
  constructor
  · intro he
    obtain ⟨-, rfl⟩ := hcomplete he
    obtain ⟨hfinite, hcard⟩ :=
      ncard_stateSpace hcovers.nodup fun p => ⟨hcovers.states p, fun hp => hcovers.mem_visited hp⟩
    exact ⟨hfinite, hcard ▸ hbudget⟩
  · rintro ⟨hfinite, hcard⟩
    by_contra he
    obtain ⟨-, hlength, p, hp, hleft⟩ := hgiven (Bool.eq_false_iff.mpr he)
    have hlt := length_lt_ncard hcovers.nodup hcovers.states hp hleft hfinite
    omega

/-- **Two complete searches visit the same states,** in one order or another. -/
theorem exists_perm_of_complete {budget : Nat} {s : Survey} {e e' : Exploration} (h : c.Extends budget s [] e)
    (h' : c.Extends budget s [] e') (he : e.complete = true) (he' : e'.complete = true) :
    ∃ order order' : List Successor, order.Perm order' ∧ e.survey = c.tallyAll s order ∧
      e'.survey = c.tallyAll s order' ∧ e.states = order.length ∧ e'.states = order'.length := by
  obtain ⟨order, waiting, hsurvey, hcovers, -, hcomplete, -⟩ := h
  obtain ⟨order', waiting', hsurvey', hcovers', -, hcomplete', -⟩ := h'
  rw [List.nil_append] at hcovers hcomplete hcovers' hcomplete'
  obtain ⟨hstates, rfl⟩ := hcomplete he
  obtain ⟨hstates', rfl⟩ := hcomplete' he'
  refine ⟨order, order', ?_, hsurvey, hsurvey', hstates, hstates'⟩
  rw [List.perm_ext_iff_of_nodup hcovers.nodup hcovers'.nodup]
  exact fun p => ⟨fun hp => hcovers'.mem_visited (hcovers.states p hp),
    fun hp => hcovers.mem_visited (hcovers'.states p hp)⟩

/-- **Two complete searches have surveys that agree,** as both add up visits to the same states. -/
theorem agrees_of_complete {budget : Nat} {s : Survey} {e e' : Exploration} (h : c.Extends budget s [] e)
    (h' : c.Extends budget s [] e') (he : e.complete = true) (he' : e'.complete = true) :
    e.survey.Agrees e'.survey ∧ e.states = e'.states := by
  obtain ⟨order, order', hperm, hsurvey, hsurvey', hstates, hstates'⟩ := exists_perm_of_complete h h' he he'
  rw [hsurvey, hsurvey', hstates, hstates']
  exact ⟨tallyAll_perm hperm s, hperm.length_eq⟩

/-! ## The headline -/

/-- **The order of exploration does not matter.** Whatever the discipline, a search of a procedure is complete just
if the exploration is, it counts as many states, and the findings are the same. If it is complete, it counts the same
visits, forks and outcomes that were ruled out, observes the same at every instruction, silences the same anchors, and
the same values come up, if in another order and so under other numbers (`numbers_renamed`). Every search ends, since
`Context.search` is total. -/
theorem analyze_independent_of_order (c : Context) (config : AnalysisConfig) (d : Discipline) :
    let a := c.analyze config
    let b := c.analyzeBy d config
    b.exploration.complete = a.exploration.complete ∧
    b.exploration.states = a.exploration.states ∧
    b.findings = a.findings ∧
    (a.exploration.complete = true →
      b.exploration.survey.visits = a.exploration.survey.visits ∧
      b.exploration.survey.forks = a.exploration.survey.forks ∧
      b.exploration.survey.pruned = a.exploration.survey.pruned ∧
      (∀ index, b.exploration.survey.observation index = a.exploration.survey.observation index) ∧
      (∀ anchor, b.exploration.survey.isSilenced c.procedure anchor =
        a.exploration.survey.isSilenced c.procedure anchor) ∧
      ∀ v, v ∈ b.exploration.survey.values.values ↔ v ∈ a.exploration.survey.values.values) := by
  intro a b
  have ha : c.Extends config.maxStates (c.blank config) [] a.exploration := run_spec config
  have hb : c.Extends config.maxStates (c.blank config) [] b.exploration := runBy_spec d config
  -- both complete exactly when the states are finitely many and within the budget
  have hcomplete : b.exploration.complete = a.exploration.complete := by
    rw [Bool.eq_iff_iff, hb.complete_iff, ha.complete_iff]
  have hafindings : a.findings = if a.exploration.complete then a.exploration.survey.findings c.procedure
      else [⟨.analysisTooComplex, 0, none, none⟩] := rfl
  have hbfindings : b.findings = if b.exploration.complete then b.exploration.survey.findings c.procedure
      else [⟨.analysisTooComplex, 0, none, none⟩] := rfl
  rw [hafindings, hbfindings, hcomplete]
  cases he : a.exploration.complete with
  | false =>
    -- either search gives up after as many states
    obtain ⟨order, waiting, -, -, -, -, hgiven⟩ := ha
    obtain ⟨order', waiting', -, -, -, -, hgiven'⟩ := hb
    exact ⟨rfl, (hgiven' (hcomplete.trans he)).1.trans (hgiven he).1.symm, rfl, fun h => (by cases h)⟩
  | true =>
    obtain ⟨hagrees, hstates⟩ := agrees_of_complete hb ha (hcomplete.trans he) he
    exact ⟨rfl, hstates, hagrees.findings_eq c.procedure, fun _ =>
      ⟨hagrees.visits, hagrees.forks, hagrees.pruned, hagrees.observation_eq, hagrees.isSilenced_eq c.procedure,
        hagrees.values⟩⟩

/-- **The numbers of a search are those of the exploration under other names.** There is a bijection between them under
which they name the same values. If two interners stand for the values of the one and of the other, then it takes nodes
to nodes, with the numbers of their parts renamed as well. -/
theorem numbers_renamed (c : Context) (config : AnalysisConfig) (d : Discipline)
    (hcomplete : (c.run config).complete = true) :
    ∃ σ, ValueTable.Renames σ (c.runBy d config).survey.values (c.run config).survey.values ∧
      ∀ t u : Interner, t.Represents (c.runBy d config).survey.values → u.Represents (c.run config).survey.values →
        ∀ n v, t.node? n = some v → u.node? (σ n) = some (v.rename σ) := by
  have ha : c.Extends config.maxStates (c.blank config) [] (c.run config) := run_spec config
  have hb : c.Extends config.maxStates (c.blank config) [] (c.runBy d config) := runBy_spec d config
  have hcomplete' : (c.runBy d config).complete = true := hb.complete_iff.mpr (ha.complete_iff.mp hcomplete)
  obtain ⟨hagrees, -⟩ := agrees_of_complete hb ha hcomplete' hcomplete
  have hσ := ValueTable.renames_renumber hagrees.values
  exact ⟨_, hσ, fun t u ht hu n v hn => ht.node?_rename hu hσ hn⟩

end Context

end NullCheck
