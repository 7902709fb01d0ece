import Mathlib.Data.Set.Card
import NullCheck.Analysis
import NullCheck.Proofs.Survey

/-!
# What an exploration visits

The pairs of a procedure that can come up at all are given by the entry and by what visits go on to, with no regard
to queues, budgets and marks. An exploration visits those that have an instruction, each once, and it is complete
just if its budget is enough for all of them.

## The architecture

* **`Context.Reaches`**, **`Context.stateSpace`**: the pairs that come up, and those among them to be visited.
* **`Context.Covers`**: the invariant of the search. What was visited so far belongs to the state space, and what
  comes next after it was visited or waits.
* **`Context.explore_spec`**: by induction on the search, what it adds to the survey and where it stops.
* **`Context.explore_of_budget_le`**: a complete search does not depend on its budget.
* **`Context.Visits`**: the pairs that a run visits; if it is complete, the states.
* **`Context.analyze_exact`**: the headline.
-/

namespace NullCheck

namespace Context

variable (c : Context)

/-! ## The pairs of a procedure -/

/-- A pair goes on to another one. -/
def Next (p q : Successor) : Prop := ∃ i, c.procedure.instructions[p.index]? = some i ∧ q ∈ (visit c i p.frame).next

def start : Successor := ⟨0, c.entry.1⟩

/-- A pair comes up in some run. -/
def Reaches : Successor → Prop := Relation.ReflTransGen c.Next c.start

/-- The pairs that come up and have an instruction. -/
def stateSpace : Set Successor := {p | c.Reaches p ∧ p.index < c.procedure.instructions.length}

variable {c}

theorem Next.index_lt {p q : Successor} (h : c.Next p q) : p.index < c.procedure.instructions.length := by
  obtain ⟨i, hi, -⟩ := h
  exact (List.getElem?_eq_some_iff.mp hi).1

/-- What comes next is what the visit of the instruction yields. -/
theorem next_iff {p q : Successor} {i : Instruction} (hi : c.procedure.instructions[p.index]? = some i) :
    c.Next p q ↔ q ∈ (visit c i p.frame).next := by
  constructor
  · rintro ⟨j, hj, hq⟩
    obtain rfl : i = j := Option.some.inj (hi.symm.trans hj)
    exact hq
  · exact fun hq => ⟨i, hi, hq⟩

variable (c) in
/-- The pairs that come next after a pair. -/
def nexts (p : Successor) : List Successor :=
  match c.procedure.instructions[p.index]? with
  | some i => (visit c i p.frame).next
  | none => []

theorem mem_nexts {p q : Successor} : q ∈ c.nexts p ↔ c.Next p q := by
  unfold nexts Next
  cases c.procedure.instructions[p.index]? <;> simp

variable (c) in
/-- The pairs that come up after a number of steps. -/
def wave : Nat → List Successor
  | 0 => [c.start]
  | n + 1 => (wave n).flatMap c.nexts

/-- What is reached is reached after some number of steps. -/
theorem reaches_iff_exists_mem_wave {p : Successor} : c.Reaches p ↔ ∃ n, p ∈ c.wave n := by
  constructor
  · intro h
    induction h with
    | refl => exact ⟨0, List.mem_singleton_self _⟩
    | tail _ hnext ih =>
      obtain ⟨n, hn⟩ := ih
      exact ⟨n + 1, List.mem_flatMap.mpr ⟨_, hn, mem_nexts.mpr hnext⟩⟩
  · rintro ⟨n, hn⟩
    induction n generalizing p with
    | zero =>
      rw [List.mem_singleton.mp hn]
      exact Relation.ReflTransGen.refl
    | succ n ih =>
      obtain ⟨q, hq, hp⟩ := List.mem_flatMap.mp hn
      exact (ih hq).tail (mem_nexts.mp hp)

theorem mem_stateSpace_of_mem_wave {n : Nat} {p : Successor} (hp : p ∈ c.wave n) {i : Instruction}
    (hi : c.procedure.instructions[p.index]? = some i) : p ∈ c.stateSpace :=
  ⟨reaches_iff_exists_mem_wave.mpr ⟨n, hp⟩, (List.getElem?_eq_some_iff.mp hi).1⟩

theorem wave_eq_nil_of_le {n k : Nat} (hn : c.wave n = []) (hk : n ≤ k) : c.wave k = [] := by
  induction hk with
  | refl => exact hn
  | step _ ih =>
    rw [wave, ih]
    rfl

/-- **A procedure without endless runs** has the states of finitely many waves. -/
theorem exists_lt_of_reaches {n : Nat} (hn : c.wave n = []) {p : Successor} (hp : c.Reaches p) :
    ∃ k < n, p ∈ c.wave k := by
  obtain ⟨k, hk⟩ := reaches_iff_exists_mem_wave.mp hp
  refine ⟨k, ?_, hk⟩
  by_contra hle
  rw [wave_eq_nil_of_le hn (by omega)] at hk
  cases hk

/-- Without endless runs, what holds of all waves holds of all states. -/
theorem forall_stateSpace_of_waves {n : Nat} (hn : c.wave n = []) {P : Successor → Prop}
    (hwaves : ∀ p ∈ (List.range n).flatMap c.wave, P p) : ∀ p ∈ c.stateSpace, P p := by
  intro p hp
  obtain ⟨k, hk, hmem⟩ := exists_lt_of_reaches hn hp.1
  exact hwaves p (List.mem_flatMap.mpr ⟨k, List.mem_range.mpr hk, hmem⟩)

/-- Pairs from which nothing else comes next are all that come up. -/
theorem mem_of_reaches {pairs : List Successor} (hstart : c.start ∈ pairs)
    (hnext : ∀ p ∈ pairs, ∀ q ∈ c.nexts p, q ∈ pairs) {p : Successor} (hp : c.Reaches p) : p ∈ pairs := by
  induction hp with
  | refl => exact hstart
  | tail _ hstep ih => exact hnext _ ih _ (mem_nexts.mpr hstep)

/-! ## Adding up visits -/

variable (c) in
def tally (s : Survey) (p : Successor) : Survey :=
  match c.procedure.instructions[p.index]? with
  | some i => s.add i (visit c i p.frame)
  | none => s

theorem tally_eq {p : Successor} {i : Instruction} (hi : c.procedure.instructions[p.index]? = some i) (s : Survey) :
    c.tally s p = s.add i (visit c i p.frame) := by
  simp only [tally, hi]

variable (c) in
/-- Visits pairs in turn and adds the results to a survey. -/
def tallyAll (s : Survey) (order : List Successor) : Survey := order.foldl c.tally s

/-- Each visit of an order is counted once, at the operation that is visited. -/
theorem totalVisits_tallyAll {order : List Successor} (horder : ∀ p ∈ order, p.index < c.procedure.instructions.length)
    {s : Survey} (hs : (Sorted.keys s.visits).Nodup) :
    (c.tallyAll s order).totalVisits = s.totalVisits + order.length := by
  induction order generalizing s with
  | nil => rfl
  | cons p order ih =>
    obtain ⟨i, hi⟩ : ∃ i, c.procedure.instructions[p.index]? = some i :=
      ⟨_, List.getElem?_eq_getElem (horder p (List.mem_cons_self ..))⟩
    obtain ⟨hcount, hkeys⟩ := Survey.totalVisits_add hs i (visit c i p.frame)
    -- the rest is counted on the survey that the first visit leaves
    have hrest := ih (fun q hq => horder q (List.mem_cons_of_mem _ hq)) hkeys
    show (c.tallyAll (c.tally s p) order).totalVisits = _
    rw [tally_eq hi, hrest, hcount, List.length_cons]
    omega

/-! ## The invariant of the search -/

variable (c) in
/-- A pair is the one that a run begins with, or comes next after one of those that were visited. -/
def Follows (visited : List Successor) (p : Successor) : Prop := p = c.start ∨ ∃ q ∈ visited, c.Next q p

theorem Follows.mono {visited visited' : List Successor} {p : Successor} (h : c.Follows visited p)
    (hsubset : visited ⊆ visited') : c.Follows visited' p :=
  h.imp_right fun ⟨q, hq, hnext⟩ => ⟨q, hsubset hq, hnext⟩

variable (c) in
/-- Pairs in an order in which they come up: each one follows those before it. -/
def Trace (visited : List Successor) : Prop := ∀ n p, visited[n]? = some p → c.Follows (visited.take n) p

/-- A trace goes on with what follows from it. -/
theorem Trace.snoc {visited : List Successor} {p : Successor} (h : c.Trace visited) (hp : c.Follows visited p) :
    c.Trace (visited ++ [p]) := by
  intro n q hq
  -- an earlier visit has the same visits before it, the last one has all of them
  rcases Nat.lt_or_ge n visited.length with hlt | hge
  · rw [List.getElem?_append_left hlt] at hq
    rw [List.take_append_of_le_length (Nat.le_of_lt hlt)]
    exact h n q hq
  · rw [List.getElem?_append_right hge, List.getElem?_singleton] at hq
    split at hq
    · rw [← Option.some.inj hq]
      have hlength : n = visited.length := by omega
      rw [hlength, List.take_left]
      exact hp
    · cases hq

/-- The beginning of a trace is a trace. -/
theorem Trace.take {visited : List Successor} (h : c.Trace visited) (n : Nat) : c.Trace (visited.take n) := by
  intro k p hp
  rw [List.getElem?_take] at hp
  split at hp
  · rename_i hlt
    rw [List.take_take, Nat.min_eq_left (Nat.le_of_lt hlt)]
    exact h k p hp
  · cases hp

variable (c) in
/-- The pairs in `visited` are states, each once, in an order in which they come up; those in `waiting` follow them; and
the start and whatever comes next after a visited pair is accounted for, unless it has no instruction. -/
structure Covers (visited waiting : List Successor) : Prop where
  nodup : visited.Nodup
  states : ∀ p ∈ visited, p ∈ c.stateSpace
  trace : c.Trace visited
  follows : ∀ p ∈ waiting, c.Follows visited p
  start : c.start.index < c.procedure.instructions.length → c.start ∈ visited ∨ c.start ∈ waiting
  next : ∀ p ∈ visited, ∀ q, c.Next p q → q.index < c.procedure.instructions.length → q ∈ visited ∨ q ∈ waiting

namespace Covers

variable {visited waiting : List Successor} {p : Successor} {i : Instruction}

/-- At the start nothing is visited and the start waits. -/
theorem initial : c.Covers [] [c.start] where
  nodup := List.nodup_nil
  states := by simp
  trace n p hp := by cases hp
  follows q hq := Or.inl (List.mem_singleton.mp hq)
  start _ := Or.inr (List.mem_singleton_self _)
  next := by simp

/-- The order in which pairs wait does not matter. -/
theorem of_mem_iff (h : c.Covers visited waiting) {waiting' : List Successor}
    (hw : ∀ q, q ∈ waiting' ↔ q ∈ waiting) : c.Covers visited waiting' where
  nodup := h.nodup
  states := h.states
  trace := h.trace
  follows q hq := h.follows q ((hw q).mp hq)
  start hq := (h.start hq).imp_right (hw _).mpr
  next q hq r hr hlt := (h.next q hq r hr hlt).imp_right (hw r).mpr

/-- A waiting pair that has no instruction, or was visited already, may be dropped. -/
theorem drop (h : c.Covers visited (p :: waiting))
    (hp : p.index < c.procedure.instructions.length → p ∈ visited) : c.Covers visited waiting := by
  -- `p` was visited or is outside the procedure, so it need not wait
  have hdrop : ∀ q : Successor, q.index < c.procedure.instructions.length → q ∈ visited ∨ q ∈ p :: waiting →
      q ∈ visited ∨ q ∈ waiting := by
    intro q hlt hq
    rcases hq with hq | hq
    · exact Or.inl hq
    · rcases List.mem_cons.mp hq with rfl | hq
      · exact Or.inl (hp hlt)
      · exact Or.inr hq
  exact
    { nodup := h.nodup
      states := h.states
      trace := h.trace
      follows := fun q hq => h.follows q (List.mem_cons_of_mem _ hq)
      start := fun hlt => hdrop _ hlt (h.start hlt)
      next := fun q hq r hr hlt => hdrop r hlt (h.next q hq r hr hlt) }

theorem reaches (h : c.Covers visited waiting) (hp : p ∈ waiting) : c.Reaches p := by
  rcases h.follows p hp with rfl | ⟨q, hq, hnext⟩
  · exact Relation.ReflTransGen.refl
  · exact (h.states q hq).1.tail hnext

theorem mem_stateSpace (h : c.Covers visited (p :: waiting)) (hi : c.procedure.instructions[p.index]? = some i) :
    p ∈ c.stateSpace :=
  ⟨h.reaches (List.mem_cons_self ..), (List.getElem?_eq_some_iff.mp hi).1⟩

/-- A waiting pair that was not visited may be visited, and what comes next waits from then on. -/
theorem visit (h : c.Covers visited (p :: waiting)) (hi : c.procedure.instructions[p.index]? = some i)
    (hp : p ∉ visited) : c.Covers (visited ++ [p]) (waiting ++ (NullCheck.visit c i p.frame).next) where
  nodup := by
    rw [List.nodup_append]
    refine ⟨h.nodup, List.nodup_singleton p, fun a ha b hb => ?_⟩
    rw [List.mem_singleton] at hb
    subst hb
    rintro rfl
    exact hp ha
  states q hq := by
    rcases List.mem_append.mp hq with hq | hq
    · exact h.states q hq
    · rw [List.mem_singleton] at hq
      subst hq
      exact h.mem_stateSpace hi
  trace := h.trace.snoc (h.follows p (List.mem_cons_self ..))
  follows q hq := by
    rcases List.mem_append.mp hq with hq | hq
    · exact (h.follows q (List.mem_cons_of_mem _ hq)).mono (List.subset_append_left _ _)
    · exact Or.inr ⟨p, List.mem_append_right _ (List.mem_singleton_self p), i, hi, hq⟩
  start hlt := by
    have hstart := h.start hlt
    simp only [List.mem_append, List.mem_cons] at hstart ⊢
    tauto
  next q hq r hr hlt := by
    rcases List.mem_append.mp hq with hq | hq
    · have hnext := h.next q hq r hr hlt
      simp only [List.mem_append, List.mem_cons] at hnext ⊢
      tauto
    · -- what comes next after the pair itself was put behind the waiting ones
      rw [List.mem_singleton] at hq
      subst hq
      exact Or.inr (List.mem_append_right _ ((next_iff hi).mp hr))

/-- When nothing waits, all states were visited. -/
theorem mem_visited (h : c.Covers visited []) (hp : p ∈ c.stateSpace) : p ∈ visited := by
  obtain ⟨hreach, hlt⟩ := hp
  induction hreach with
  | refl => exact (h.start hlt).resolve_right (List.not_mem_nil)
  | tail _ hnext ih =>
    have hq := ih hnext.index_lt
    exact (h.next _ hq _ hnext hlt).resolve_right (List.not_mem_nil)

end Covers

/-! ## The search -/

variable (c) in
/-- What a search that has visited `visited` comes to: it goes on to visit `order`, within the budget, and ends with
nothing waiting, or gives up before a state that is one too many. -/
def Extends (budget : Nat) (s : Survey) (visited : List Successor) (e : Exploration) : Prop :=
  ∃ order waiting, e.survey = c.tallyAll s order ∧ c.Covers (visited ++ order) waiting ∧
    (visited ++ order).length ≤ budget ∧
    (e.complete = true → e.states = (visited ++ order).length ∧ waiting = []) ∧
    (e.complete = false → e.states = budget + 1 ∧ (visited ++ order).length = budget ∧
      ∃ p ∈ c.stateSpace, p ∉ visited ++ order)

/-- **The search visits new states in turn, until none is left or the budget is used up.** -/
theorem explore_spec {budget : Nat} {seen : Std.HashSet MarkedPair} {visited front back : List Successor}
    {n : Nat} {s : Survey} (hn : n = visited.length) (hseen : ∀ p : Successor, p.marked ∈ seen ↔ p ∈ visited)
    (hcovers : c.Covers visited (front ++ back.reverse)) (hbudget : visited.length ≤ budget) :
    c.Extends budget s visited (c.explore budget seen n s front back) := by
  -- the induction follows the search; a visit moves one pair from `front` to the end of `visited`
  fun_induction explore c budget seen n s front back generalizing visited with
  | case1 seen n s =>
    -- nothing waits
    refine ⟨[], [], rfl, by simpa using hcovers, by simpa using hbudget, fun _ => ?_, by simp⟩
    rw [List.append_nil]
    exact ⟨hn, rfl⟩
  | case2 seen n s p back ih =>
    -- a level is done
    apply ih hn hseen _ hbudget
    rw [List.reverse_nil, List.append_nil]
    exact hcovers
  | case3 seen n s back p front hi ih =>
    -- a pair behind the last instruction
    refine ih hn hseen (hcovers.drop fun hlt => ?_) hbudget
    rw [List.getElem?_eq_none_iff] at hi
    omega
  | case4 seen n s back p front i hi m hm =>
    -- a pair that was visited
    rename_i ih
    exact ih hn hseen (hcovers.drop fun _ => (hseen p).mp hm) hbudget
  | case5 seen n s back p front i hi m hm =>
    -- a state that is one too many
    rename_i hgive
    have hp : p ∉ visited := fun h => hm ((hseen p).mpr h)
    refine ⟨[], p :: front ++ back.reverse, rfl, ?_, ?_, (by simp), fun _ => ?_⟩
    · rw [List.append_nil]
      exact hcovers
    · simpa using hbudget
    · rw [List.append_nil]
      refine ⟨?_, by omega, p, hcovers.mem_stateSpace hi, hp⟩
      show n + 1 = budget + 1
      omega
  | case6 seen n s back p front i hi m hm hgive v =>
    -- a state to be visited
    rename_i ih
    have hp : p ∉ visited := fun h => hm ((hseen p).mpr h)
    have hmarks : ∀ q : Successor, q.marked ∈ seen.insert m ↔ q ∈ visited ++ [p] := by
      intro q
      rw [Std.HashSet.mem_insert, hseen q, beq_iff_eq, Successor.marked_inj, List.mem_append, List.mem_singleton]
      exact ⟨fun h => h.elim (fun h => Or.inr h.symm) Or.inl, fun h => h.elim Or.inr fun h => Or.inl h.symm⟩
    have hvisit : c.Covers (visited ++ [p]) (front ++ (v.next.reverse ++ back).reverse) := by
      refine (hcovers.visit hi hp).of_mem_iff fun q => ?_
      show _ ↔ q ∈ (front ++ back.reverse) ++ v.next
      simp only [List.reverse_append, List.reverse_reverse, List.mem_append, or_assoc]
    have hlength : (visited ++ [p]).length = visited.length + 1 := List.length_append
    obtain ⟨order, waiting, hsurvey, hrest⟩ := ih (by omega) hmarks hvisit (by omega)
    refine ⟨p :: order, waiting, ?_, ?_⟩
    · rw [hsurvey]
      show _ = c.tallyAll (c.tally s p) order
      rw [tally_eq hi]
    · rwa [List.append_cons]

/-- **A complete search does not depend on its budget.** -/
theorem explore_of_budget_le {budget budget' : Nat} (hle : budget ≤ budget') {seen : Std.HashSet MarkedPair} {n : Nat}
    {s : Survey} {front back : List Successor}
    (hcomplete : (c.explore budget seen n s front back).complete = true) :
    c.explore budget' seen n s front back = c.explore budget seen n s front back := by
  fun_induction explore c budget seen n s front back with
  | case1 seen n s => rw [explore]
  | case2 seen n s p back ih =>
    rw [explore]
    exact ih hcomplete
  | case3 seen n s back p front hi ih =>
    rw [explore]
    simp only [hi]
    exact ih hcomplete
  | case4 seen n s back p front i hi m hm =>
    rename_i ih
    rw [explore]
    simp only [hi]
    rw [if_pos hm]
    exact ih hcomplete
  -- the smaller budget gives up here, against `hcomplete`
  | case5 => cases hcomplete
  | case6 seen n s back p front i hi m hm hgive v =>
    rename_i ih
    rw [explore]
    simp only [hi]
    rw [if_neg hm, dif_neg (by omega)]
    exact ih hcomplete

/-! ## Runs -/

variable (c) in
/-- The survey that a run begins with. -/
def blank (config : AnalysisConfig) : Survey := (Survey.start config.reportUnannotated).withValues c.entry.2

theorem run_eq (config : AnalysisConfig) :
    c.run config = c.explore config.maxStates ∅ 0 (c.blank config) [c.start] [] := rfl

/-- A run is an exploration from the start with nothing visited. -/
theorem run_spec (config : AnalysisConfig) : c.Extends config.maxStates (c.blank config) [] (c.run config) := by
  rw [run_eq]
  refine explore_spec rfl (fun p => ?_) ?_ (Nat.zero_le _)
  · simp
  · exact Covers.initial

/-- **A run visits states, each once, and counts them.** It is complete when it visits all of them; else it ends
when the budget is used up, with some left. -/
theorem run_visits (config : AnalysisConfig) : ∃ order : List Successor, order.Nodup ∧
    (∀ p ∈ order, p ∈ c.stateSpace) ∧ order.length ≤ config.maxStates ∧
    (c.run config).survey = c.tallyAll (c.blank config) order ∧ (c.run config).survey.totalVisits = order.length ∧
    ((c.run config).complete = true → (c.run config).states = order.length ∧ ∀ p ∈ c.stateSpace, p ∈ order) ∧
    ((c.run config).complete = false → (c.run config).states = config.maxStates + 1 ∧
      order.length = config.maxStates ∧ ∃ p ∈ c.stateSpace, p ∉ order) := by
  obtain ⟨order, waiting, hsurvey, hcovers, hbudget, hcomplete, hgiven⟩ := run_spec config
  rw [List.nil_append] at hcovers hbudget hcomplete hgiven
  -- a count of visits starts at none
  have hcount : (c.run config).survey.totalVisits = order.length := by
    have hblank : (Sorted.keys (c.blank config).visits).Nodup := List.nodup_nil
    rw [hsurvey, totalVisits_tallyAll (fun p hp => (hcovers.states p hp).2) hblank]
    exact Nat.zero_add _
  refine ⟨order, hcovers.nodup, hcovers.states, hbudget, hsurvey, hcount, fun h => ?_, hgiven⟩
  obtain ⟨hstates, rfl⟩ := hcomplete h
  exact ⟨hstates, fun p hp => hcovers.mem_visited hp⟩

variable (c) in
/-- A run explores the pairs in `order`: states, each once, in an order in which they come up, and all of them if it is
complete. Its survey adds up the visits to them. -/
structure Explores (config : AnalysisConfig) (order : List Successor) : Prop where
  nodup : order.Nodup
  trace : c.Trace order
  states : ∀ p ∈ order, p ∈ c.stateSpace
  survey : (c.run config).survey = c.tallyAll (c.blank config) order
  all : (c.run config).complete = true → ∀ p ∈ c.stateSpace, p ∈ order

theorem exists_explores (c : Context) (config : AnalysisConfig) : ∃ order, c.Explores config order := by
  obtain ⟨order, waiting, hsurvey, hcovers, -, hcomplete, -⟩ := run_spec (c := c) config
  rw [List.nil_append] at hcovers hcomplete
  refine ⟨order, hcovers.nodup, hcovers.trace, hcovers.states, hsurvey, fun h p hp => ?_⟩
  obtain ⟨-, rfl⟩ := hcomplete h
  exact hcovers.mem_visited hp

variable (c) in
/-- A run visits a pair: its survey adds up the visits to some states, each once, and the pair is one of them. -/
def Visits (config : AnalysisConfig) (p : Successor) : Prop :=
  ∃ order : List Successor, order.Nodup ∧ (∀ q ∈ order, q ∈ c.stateSpace) ∧
    (c.run config).survey = c.tallyAll (c.blank config) order ∧ p ∈ order

/-- **A complete run visits every state,** and nothing else. -/
theorem visits_iff {config : AnalysisConfig} (hcomplete : (c.run config).complete = true) {p : Successor} :
    c.Visits config p ↔ p ∈ c.stateSpace := by
  constructor
  · rintro ⟨order, -, horder, -, hp⟩
    exact horder p hp
  · intro hp
    obtain ⟨order, hnodup, horder, -, hsurvey, -, hall, -⟩ := run_visits (c := c) config
    exact ⟨order, hnodup, horder, hsurvey, (hall hcomplete).2 p hp⟩

/-- A list that names every state once counts them. -/
theorem ncard_stateSpace {order : List Successor} (hnodup : order.Nodup) (horder : ∀ p, p ∈ order ↔ p ∈ c.stateSpace) :
    c.stateSpace.Finite ∧ c.stateSpace.ncard = order.length := by
  have hset : c.stateSpace = (order.toFinset : Set Successor) := by
    ext p
    rw [Finset.mem_coe, List.mem_toFinset, horder]
  rw [hset]
  refine ⟨Finset.finite_toSet _, ?_⟩
  rw [Set.ncard_coe_finset, List.toFinset_card_of_nodup hnodup]

/-- A list of states that leaves one out has fewer of them than there are. -/
theorem length_lt_ncard {order : List Successor} (hnodup : order.Nodup) (horder : ∀ p ∈ order, p ∈ c.stateSpace)
    {p : Successor} (hp : p ∈ c.stateSpace) (hleft : p ∉ order) (hfinite : c.stateSpace.Finite) :
    order.length < c.stateSpace.ncard := by
  -- with the one that is left out there are one more
  have hsubset : ((p :: order).toFinset : Set Successor) ⊆ c.stateSpace := by
    intro q hq
    rw [Finset.mem_coe, List.mem_toFinset, List.mem_cons] at hq
    rcases hq with rfl | hq
    · exact hp
    · exact horder q hq
  have hcard := Set.ncard_le_ncard hsubset hfinite
  have hboth : (p :: order).Nodup := List.nodup_cons.mpr ⟨hleft, hnodup⟩
  rw [Set.ncard_coe_finset, List.toFinset_card_of_nodup hboth, List.length_cons] at hcard
  omega

/-- **A run is complete just if there are no more states than the budget.** -/
theorem run_complete_iff (config : AnalysisConfig) :
    (c.run config).complete = true ↔ c.stateSpace.Finite ∧ c.stateSpace.ncard ≤ config.maxStates := by
  obtain ⟨order, hnodup, horder, hbudget, -, -, hcomplete, hgiven⟩ := run_visits config
  constructor
  · intro h
    obtain ⟨-, hall⟩ := hcomplete h
    obtain ⟨hfinite, hcard⟩ := ncard_stateSpace hnodup fun p => ⟨horder p, hall p⟩
    exact ⟨hfinite, hcard ▸ hbudget⟩
  · -- had it given up, as many states as the budget would be visited, and one left over
    rintro ⟨hfinite, hcard⟩
    by_contra h
    obtain ⟨-, hlength, p, hp, hleft⟩ := hgiven (Bool.eq_false_iff.mpr h)
    have hlt := length_lt_ncard hnodup horder hp hleft hfinite
    omega

/-- A run of a procedure without endless runs is complete, if the waves fit into the budget. -/
theorem run_complete_of_waves {config : AnalysisConfig} {n : Nat} (hn : c.wave n = [])
    (hbudget : ((List.range n).flatMap c.wave).length ≤ config.maxStates) : (c.run config).complete = true := by
  have hsubset : c.stateSpace ⊆ ((List.range n).flatMap c.wave).toFinset :=
    forall_stateSpace_of_waves hn fun p hp => Finset.mem_coe.mpr (List.mem_toFinset.mpr hp)
  have hcard := Set.ncard_le_ncard hsubset (Finset.finite_toSet _)
  rw [Set.ncard_coe_finset] at hcard
  refine (run_complete_iff config).mpr ⟨(Finset.finite_toSet _).subset hsubset, ?_⟩
  exact hcard.trans ((List.toFinset_card_le _).trans hbudget)

/-- **Budgets that are large enough give the same run.** -/
theorem run_eq_of_complete {config : AnalysisConfig} {budget : Nat} (h : (c.run config).complete = true)
    (h' : (c.run { config with maxStates := budget }).complete = true) :
    c.run { config with maxStates := budget } = c.run config := by
  rw [run_eq] at h h' ⊢
  rw [run_eq]
  rcases Nat.le_total config.maxStates budget with hle | hle
  · exact explore_of_budget_le hle h
  · exact (explore_of_budget_le hle h').symm

/-! ## Analyses -/

/-- **The analysis of a procedure is exact within its budget.** It is complete just if the states are at most as many
as the budget allows, and then the survey is what visits to all states, each once, add up to, and the states and the
visits that are counted are as many as there are. If it is given up, one state more than the budget is counted and as
many visits as the budget allows, and the only finding is that it was given up. Two budgets under which it is
complete give the same run and the same findings. Every exploration ends, since `Context.explore` is total. -/
theorem analyze_exact (c : Context) (config : AnalysisConfig) :
    let a := c.analyze config
    (a.exploration.complete = true ↔ c.stateSpace.Finite ∧ c.stateSpace.ncard ≤ config.maxStates) ∧
    (a.exploration.complete = true →
      a.exploration.states = c.stateSpace.ncard ∧ a.exploration.survey.totalVisits = c.stateSpace.ncard ∧
      ∃ order : List Successor, order.Nodup ∧ (∀ p, p ∈ order ↔ p ∈ c.stateSpace) ∧
        a.exploration.survey = c.tallyAll (c.blank config) order) ∧
    (a.exploration.complete = false →
      a.exploration.states = config.maxStates + 1 ∧ a.exploration.survey.totalVisits = config.maxStates ∧
      a.findings = [⟨.analysisTooComplex, 0, none, none⟩]) ∧
    ∀ budget, a.exploration.complete = true →
      (c.analyze { config with maxStates := budget }).exploration.complete = true →
      c.analyze { config with maxStates := budget } = a := by
  intro a
  obtain ⟨order, hnodup, horder, -, hsurvey, hcount, hcomplete, hgiven⟩ := run_visits config
  refine ⟨run_complete_iff config, fun h => ?_, fun h => ?_, fun budget h h' => ?_⟩
  · obtain ⟨hstates, hall⟩ := hcomplete h
    -- the visits are the states, each of them once
    have hmem : ∀ p, p ∈ order ↔ p ∈ c.stateSpace := fun p => ⟨horder p, hall p⟩
    obtain ⟨-, hcard⟩ := ncard_stateSpace hnodup hmem
    exact ⟨hstates.trans hcard.symm, hcount.trans hcard.symm, order, hnodup, hmem, hsurvey⟩
  · obtain ⟨hstates, hlength, -⟩ := hgiven h
    refine ⟨hstates, hcount.trans hlength, ?_⟩
    -- one finding replaces all others
    have hgive : ¬ (c.run config).complete = true := Bool.eq_false_iff.mp h
    show (if (c.run config).complete then _ else _) = _
    rw [if_neg hgive]
  · have hrun := run_eq_of_complete h h'
    show c.analyze { config with maxStates := budget } = c.analyze config
    unfold analyze
    rw [hrun]

end Context

end NullCheck
