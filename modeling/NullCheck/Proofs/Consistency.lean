import NullCheck.Proofs.Visit.Built

/-!
# Runs are consistent

A run keeps the values that have come up in a table, to which each visit adds those that it builds. The frames that come
up in the run are consistent with the table as it is when they come up, and so are all that come up within a visit:
whatever becomes of a frame by operations on the values that are in the table when the visit is done.

* **`Context.known`**: the table when some pairs were visited.
* **`Context.stays_sound`**: the step, from a sound frame to what comes up in a visit.
* **`Context.sound_of_follows`**: by induction on the order of the visits, whatever follows them is sound.
* **`Context.run_consistent`**: the headline.
-/

namespace NullCheck

theorem ValueTable.closed_initial : ValueTable.initial.Closed where
  initial _ := id
  parts v hv w hw := by
    rcases mem_initial.mp (numbers_iff.mp hv) with rfl | rfl | rfl | rfl <;> cases hw

/-- From a frame on nothing comes up by operations on the values in a table but what is consistent with it. -/
def Frame.StaysConsistent (s : Scope) (t : ValueTable) (f : Frame) : Prop :=
  ∀ g, f.Becomes s t.Numbers g → g.Consistent t

namespace Context

variable {c : Context} {config : AnalysisConfig} {visited : List Successor} {p : Successor} {i : Instruction}

variable (c) in
/-- The table of values when some pairs were visited. -/
def known (config : AnalysisConfig) (visited : List Successor) : ValueTable :=
  (c.tallyAll (c.blank config) visited).values

theorem known_nil : c.known config [] = ValueTable.initial.insertAll c.entry.2 := rfl

/-- One more visit adds the values that it built. -/
theorem known_snoc (hi : c.procedure.instructions[p.index]? = some i) :
    c.known config (visited ++ [p]) = (c.known config visited).insertAll (visit c i p.frame).built := by
  unfold known tallyAll
  rw [List.foldl_append, List.foldl_cons, List.foldl_nil, tally_eq hi, Survey.values_add]

/-! ## The entry -/

/-- What is built at the start has no parts. -/
theorem parts_enter (f : Frame) (id : VariableId) (vs : List VariableDecl) :
    ∀ v ∈ (c.enter id f vs).2, v.parts = [] := by
  induction vs generalizing id f with
  | nil => simp [enter]
  | cons decl vs ih =>
    rw [enter]
    split
    · exact ih f (id + 1)
    · rename_i value hvalue
      -- a parameter enters as a type, known to be not null or not
      have hentered : value.parts = [] := by
        unfold VariableDecl.entryValue? at hvalue
        split at hvalue
        · split at hvalue
          · exact Option.some.inj hvalue ▸ rfl
          · exact Option.some.inj hvalue ▸ rfl
          · cases hvalue
        · cases hvalue
      have htarget : (c.scope.variableValue id false).parts = [] := c.scope.parts_valueOf (.var id false)
      simp only [List.forall_mem_cons]
      exact ⟨hentered, htarget, ih _ _⟩

theorem closed_known_nil (c : Context) (config : AnalysisConfig) : (c.known config []).Closed := by
  rw [known_nil]
  refine ValueTable.closed_initial.insertAll fun v hv w hw => ?_
  rw [parts_enter _ _ _ v hv] at hw
  cases hw

/-- The start is what the entry makes of a frame in which nothing is known. -/
theorem start_becomes (c : Context) (config : AnalysisConfig) :
    Frame.empty.Becomes c.scope (c.known config []).Numbers c.start.frame ∧
      c.start.frame.Sound c.scope (c.known config []) := by
  have hsound := Frame.Sound.invariant c.scope (closed_known_nil c config)
  refine enter_keeps (hsound.becomes .empty) ⟨.refl, .empty _ _⟩ fun v hv => ?_
  rw [known_nil]
  exact ValueTable.numbers_insertAll.mpr (Or.inl hv)

/-! ## Visits -/

/-- **A visit to a sound frame** leaves the table closed, and what it goes on with becomes of the frame by operations on
the values that are in the table then, so that it is sound. What was sound before the visit stays so. -/
theorem stays_sound (hclosed : (c.known config visited).Closed) (hp : p.frame.Sound c.scope (c.known config visited))
    (hlt : p.index < c.procedure.instructions.length) :
    (c.known config (visited ++ [p])).Closed ∧
      (∀ f : Frame, f.Sound c.scope (c.known config visited) → f.Sound c.scope (c.known config (visited ++ [p]))) ∧
      ∀ q, c.Next p q → p.frame.Becomes c.scope (c.known config (visited ++ [p])).Numbers q.frame ∧
        q.frame.Sound c.scope (c.known config (visited ++ [p])) := by
  obtain ⟨i, hi⟩ : ∃ i, c.procedure.instructions[p.index]? = some i := ⟨_, List.getElem?_eq_getElem hlt⟩
  have hoperands : ∀ depth, (c.known config visited).Numbers (p.frame.operand depth) :=
    (Frame.Sound.invariant c.scope hclosed).operand hp
  rw [known_snoc hi]
  have hafter := hclosed.visit (c := c) (i := i) hoperands
  have hmono : ∀ f : Frame, f.Sound c.scope (c.known config visited) →
      f.Sound c.scope ((c.known config visited).insertAll (visit c i p.frame).built) :=
    fun f hf => hf.mono fun v hv => ValueTable.numbers_insertAll.mpr (Or.inr hv)
  refine ⟨hafter, hmono, fun q hq => ?_⟩
  -- what is kept is to be sound, and to have become of the frame
  have hinvariant := (Frame.Sound.invariant c.scope hafter).becomes p.frame
  have hsupplies := hclosed.supplies (c := c) (i := i) hoperands
  exact visit_keeps_of_supplies hinvariant hsupplies ⟨.refl, hmono p.frame hp⟩ (fun _ _ => trivial) ((next_iff hi).mp hq)

variable (config) in
/-- **Whatever follows the pairs that were visited is sound,** and the table is closed. -/
theorem sound_of_follows (htrace : c.Trace visited) (hstates : ∀ p ∈ visited, p ∈ c.stateSpace) :
    (c.known config visited).Closed ∧ ∀ q, c.Follows visited q → q.frame.Sound c.scope (c.known config visited) := by
  -- the induction takes the visits in turn; what follows them is there before the last one or comes next after it
  induction visited using List.reverseRecOn with
  | nil =>
    refine ⟨closed_known_nil c config, fun q hq => ?_⟩
    rcases hq with rfl | ⟨r, hr, -⟩
    · exact (start_becomes c config).2
    · cases hr
  | append_singleton visited p ih =>
    have hbefore : c.Trace visited := by
      have htake := htrace.take visited.length
      rwa [List.take_left] at htake
    have hfollows : c.Follows visited p := by
      have hlast := htrace visited.length p (by simp)
      rwa [List.take_left] at hlast
    obtain ⟨hclosed, hsound⟩ := ih hbefore fun q hq => hstates q (List.mem_append_left _ hq)
    have hlt : p.index < c.procedure.instructions.length := (hstates p (by simp)).2
    obtain ⟨hafter, hmono, hnext⟩ := stays_sound hclosed (hsound p hfollows) hlt
    refine ⟨hafter, fun q hq => ?_⟩
    rcases hq with rfl | ⟨r, hr, hstep⟩
    · exact hmono _ (hsound c.start (Or.inl rfl))
    · rcases List.mem_append.mp hr with hr | hr
      · exact hmono _ (hsound q (Or.inr ⟨r, hr, hstep⟩))
      · obtain rfl : r = p := List.mem_singleton.mp hr
        exact (hnext q hstep).2

/-! ## The headline -/

/-- **All frames in a run are consistent.** A run explores its states in some order. The table of values that it begins
with is closed, and all that becomes of the empty frame by operations on these values is consistent with it, among it
the frame in which the procedure begins. Each frame that is visited is consistent with the table of that moment. The
visit leaves the table closed, and all that becomes of the frame by operations on the values that are in it then is
consistent with it, whether conditions that were applied hold or not, among it the frames that the visit goes on with. -/
theorem run_consistent (c : Context) (config : AnalysisConfig) : ∃ order, c.Explores config order ∧
    ((c.known config []).Closed ∧ Frame.empty.StaysConsistent c.scope (c.known config []) ∧
      Frame.empty.Becomes c.scope (c.known config []).Numbers c.start.frame) ∧
    ∀ n p, order[n]? = some p →
      p.frame.Consistent (c.known config (order.take n)) ∧
      (c.known config (order.take (n + 1))).Closed ∧
      p.frame.StaysConsistent c.scope (c.known config (order.take (n + 1))) ∧
      ∀ q, c.Next p q → p.frame.Becomes c.scope (c.known config (order.take (n + 1))).Numbers q.frame := by
  obtain ⟨order, horder⟩ := c.exists_explores config
  refine ⟨order, horder, ⟨closed_known_nil c config, ?_, (start_becomes c config).1⟩, fun n p hp => ?_⟩
  · exact fun g => (Frame.Sound.empty c.scope _).consistent_of_becomes (closed_known_nil c config)
  · obtain ⟨hclosed, hsound⟩ := sound_of_follows config (horder.trace.take n) fun q hq =>
      horder.states q (List.mem_of_mem_take hq)
    -- the frame of a state was sound before its visit
    have hbefore : p.frame.Sound c.scope (c.known config (order.take n)) := hsound p (horder.trace n p hp)
    have hlt : p.index < c.procedure.instructions.length := (horder.states p (List.mem_of_getElem? hp)).2
    have htake : order.take (n + 1) = order.take n ++ [p] := by
      rw [List.take_add_one, hp]
      rfl
    rw [htake]
    -- and stays so with the values that the visit adds
    obtain ⟨hafter, hmono, hnext⟩ := stays_sound hclosed hbefore hlt
    exact ⟨hbefore.consistent, hafter, fun g => (hmono _ hbefore).consistent_of_becomes hafter,
      fun q hq => (hnext q hq).1⟩

end Context

end NullCheck
