import NullCheck.Proofs.Finding

/-!
# Surveys that agree

Visits are added to a survey in the order in which they are made. What the survey tells does not depend on this
order: only the numbers of values and the order in which findings were recorded do, and neither shows.

## The architecture

* **Tables.** Entries of different keys may be put into a table in either order (`Sorted.put_comm`); a set is a table
  without values, so the same holds of sets (`Sorted.insert_comm`).
* **`Survey.Agrees`**: two surveys are the same but for the numbers of values and the order of what was recorded.
* **`Survey.agrees_add_add`**: two visits may be added in either order.
* **`Context.tallyAll_perm`**: by induction on the permutation, so may any number of them.
* **`Survey.Agrees.findings_eq`**: surveys that agree have the same findings.
-/

namespace NullCheck

/-! ## Tables -/

namespace Sorted

variable {α β : Type} [Ord α]

/-- Entries of different keys may be placed in either order. -/
theorem placeEntry_comm [Std.TransOrd α] [Std.LawfulEqOrd α] {k j : α} (hkj : k ≠ j) (a b : β) (es : List (α × β)) :
    placeEntry k a (placeEntry j b es) = placeEntry j b (placeEntry k a es) := by
  have hless : compare k j = .lt ∧ compare j k = .gt ∨ compare k j = .gt ∧ compare j k = .lt := by
    cases h : compare k j with
    | lt => exact Or.inl ⟨rfl, Std.OrientedCmp.gt_of_lt h⟩
    | gt => exact Or.inr ⟨rfl, Std.OrientedCmp.lt_of_gt h⟩
    | eq => exact absurd (Std.compare_eq_iff_eq.mp h) hkj
  induction es with
  | nil => rcases hless with ⟨hk, hj⟩ | ⟨hk, hj⟩ <;> simp [placeEntry, hk, hj]
  | cons e es ih =>
    by_cases hk : compare k e.1 = .lt
    · by_cases hj : compare j e.1 = .lt
      · -- both come before the entry, the smaller key first
        rcases hless with ⟨hkj, hjk⟩ | ⟨hkj, hjk⟩ <;> simp [placeEntry, hk, hj, hkj, hjk]
      · -- a key before `k` would come before the entry
        have hjk : compare j k ≠ .lt := fun h => hj (Std.TransCmp.lt_trans h hk)
        simp [placeEntry, hk, hj, hjk]
    · by_cases hj : compare j e.1 = .lt
      · have hkj : compare k j ≠ .lt := fun h => hk (Std.TransCmp.lt_trans h hj)
        simp [placeEntry, hk, hj, hkj]
      · simp [placeEntry, hk, hj, ih]

variable [DecidableEq α]

/-- To replace the value of a key does not move the entries of other keys. -/
theorem placeEntry_map_replace {k j : α} (hkj : k ≠ j) (a b : β) (es : List (α × β)) :
    placeEntry j b (es.map fun e => if e.1 = k then (k, a) else e) =
      (placeEntry j b es).map fun e => if e.1 = k then (k, a) else e := by
  have hj : (if j = k then (k, a) else (j, b)) = (j, b) := if_neg (Ne.symm hkj)
  induction es with
  | nil => simp [placeEntry, hj]
  | cons e es ih =>
    -- replacing keeps the keys, so the place is the same
    have hkey : (if e.1 = k then (k, a) else e).1 = e.1 := by
      split
      · rename_i h
        exact h.symm
      · rfl
    rw [List.map_cons, placeEntry, placeEntry, hkey, ih]
    split
    · rw [List.map_cons, List.map_cons, hj]
    · rw [List.map_cons]

/-- Putting an entry adds its key. -/
theorem mem_keys_put {k j : α} {b : β} {es : List (α × β)} : j ∈ keys (put k b es) ↔ j = k ∨ j ∈ keys es := by
  unfold put
  split
  · rename_i hk
    rw [any_key_iff] at hk
    rw [keys_map_replace]
    refine ⟨Or.inr, ?_⟩
    rintro (rfl | hj)
    · exact hk
    · exact hj
  · exact mem_keys_placeEntry

theorem put_of_mem {k : α} {es : List (α × β)} (hk : k ∈ keys es) (b : β) :
    put k b es = es.map fun e => if e.1 = k then (k, b) else e := by
  unfold put
  rw [if_pos (any_key_iff.mpr hk)]

theorem put_of_notMem {k : α} {es : List (α × β)} (hk : k ∉ keys es) (b : β) : put k b es = placeEntry k b es := by
  unfold put
  rw [if_neg fun h => hk (any_key_iff.mp h)]

/-- **Entries of different keys may be put in either order.** -/
theorem put_comm [Std.TransOrd α] [Std.LawfulEqOrd α] {k j : α} (hkj : k ≠ j) (a b : β) (es : List (α × β)) :
    put k a (put j b es) = put j b (put k a es) := by
  have hother : ∀ {i l : α} {c : β}, i ≠ l → (i ∈ keys (put l c es) ↔ i ∈ keys es) := fun hil =>
    mem_keys_put.trans (or_iff_right hil)
  by_cases hk : k ∈ keys es
  · rw [put_of_mem ((hother hkj).mpr hk), put_of_mem hk]
    by_cases hj : j ∈ keys es
    · -- both keys are there, and an entry has one of them at most
      rw [put_of_mem hj, put_of_mem (by rwa [keys_map_replace]), List.map_map, List.map_map]
      refine List.map_congr_left fun e _ => ?_
      by_cases hek : e.1 = k
      · simp [hek, hkj]
      · by_cases hej : e.1 = j
        · simp [hej, Ne.symm hkj]
        · simp [hek, hej]
    · rw [put_of_notMem hj, put_of_notMem (by rwa [keys_map_replace]), placeEntry_map_replace hkj]
  · rw [put_of_notMem (fun h => hk ((hother hkj).mp h)), put_of_notMem hk]
    by_cases hj : j ∈ keys es
    · rw [put_of_mem hj, put_of_mem (mem_keys_placeEntry.mpr (Or.inr hj)), placeEntry_map_replace (Ne.symm hkj)]
    · have hjk : j ∉ keys (placeEntry k a es) := fun h => (mem_keys_placeEntry.mp h).elim (Ne.symm hkj) hj
      rw [put_of_notMem hj, put_of_notMem hjk, placeEntry_comm hkj]

/-- The last value that is put under a key is the one that counts. -/
theorem put_put_self (k : α) (a b : β) (es : List (α × β)) : put k a (put k b es) = put k a es := by
  rw [put_of_mem (mem_keys_put.mpr (Or.inl rfl))]
  by_cases hk : k ∈ keys es
  · rw [put_of_mem hk, put_of_mem hk, List.map_map]
    refine List.map_congr_left fun e _ => ?_
    by_cases he : e.1 = k <;> simp [he]
  · -- the first `put` places the entry, the second one finds it there
    rw [put_of_notMem hk, put_of_notMem hk]
    induction es with
    | nil => simp [placeEntry]
    | cons e es ih =>
      simp only [keys, List.map_cons, List.mem_cons, not_or] at hk
      rw [placeEntry, placeEntry]
      split
      · have hrest : (e :: es).map (fun e => if e.1 = k then (k, a) else e) = e :: es :=
          map_replace_of_notMem (by simpa [keys] using hk)
        rw [List.map_cons, hrest]
        simp
      · rw [List.map_cons, if_neg (Ne.symm hk.1), ih hk.2]

/-! A set is a table without values. -/

omit [DecidableEq α] in
/-- A sorted list without values is a table whose values say nothing. -/
theorem map_place (a : α) (as : List α) : (place a as).map (·, ()) = placeEntry a () (as.map (·, ())) := by
  induction as with
  | nil => rfl
  | cons b bs ih =>
    rw [place, List.map_cons, placeEntry]
    split
    · rfl
    · rw [List.map_cons, ih]

/-- So inserting in a list is putting in a table, and what holds for tables holds for lists. -/
theorem map_insert (a : α) (as : List α) : (insert a as).map (·, ()) = put a () (as.map (·, ())) := by
  have hkeys : keys (as.map (·, ())) = as := by
    unfold keys
    rw [List.map_map]
    exact List.map_id as
  unfold insert
  split
  · rename_i ha
    rw [put_of_mem (hkeys.symm ▸ ha)]
    conv_lhs => rw [← List.map_id (as.map (·, ()))]
    refine List.map_congr_left fun e _ => ?_
    split
    · rename_i he
      rw [← he]
      rfl
    · rfl
  · rename_i ha
    rw [put_of_notMem (hkeys.symm ▸ ha), map_place]

/-- **Elements may be inserted in either order.** -/
theorem insert_comm [Std.TransOrd α] [Std.LawfulEqOrd α] (a b : α) (as : List α) :
    insert a (insert b as) = insert b (insert a as) := by
  have hinjective : Function.Injective (List.map fun x : α => (x, ())) :=
    List.map_injective_iff.mpr fun x y h => congrArg Prod.fst h
  by_cases hab : a = b
  · rw [hab]
  · apply hinjective
    rw [map_insert, map_insert, map_insert, map_insert, put_comm hab]

end Sorted

/-! ## What a visit adds -/

/-- A table holds what is inserted, beside what it held. -/
theorem ValueTable.mem_insert_iff {t : ValueTable} {v w : Value} : w ∈ (t.insert v).values ↔ w = v ∨ w ∈ t.values := by
  unfold insert
  split
  · rename_i hv
    refine ⟨Or.inr, ?_⟩
    rintro (rfl | hw)
    · exact hv
    · exact hw
  · simp [or_comm]

theorem ValueTable.mem_insertAll {t : ValueTable} {vs : List Value} {w : Value} :
    w ∈ (t.insertAll vs).values ↔ w ∈ vs ∨ w ∈ t.values := by
  unfold insertAll
  induction vs generalizing t with
  | nil => simp
  | cons v vs ih => rw [List.foldl_cons, ih, mem_insert_iff, List.mem_cons, or_assoc, or_left_comm]

/-- Of the reported defects those are recorded that the collector takes, the last one first. -/
theorem Collector.recorded_reportAll (k : Collector) (i : Instruction) (ds : List Defect) :
    (k.reportAll i ds).recorded = ((ds.filter k.takes).map i.finding).reverse ++ k.recorded ∧
      (k.reportAll i ds).reportUnannotated = k.reportUnannotated := by
  unfold reportAll
  induction ds generalizing k with
  | nil => exact ⟨rfl, rfl⟩
  | cons d ds ih =>
    rw [List.foldl_cons, List.filter_cons]
    -- what a collector takes does not depend on what it took
    by_cases hd : k.takes d
    · have hreport : k.report i d = k.push (i.finding d) := if_pos hd
      rw [if_pos hd, hreport, (ih _).1, (ih _).2, List.map_cons, List.reverse_cons, List.append_assoc]
      exact ⟨rfl, rfl⟩
    · have hreport : k.report i d = k := if_neg hd
      rw [if_neg hd, hreport]
      exact ih k

namespace Survey

variable (s : Survey) (i : Instruction) (v : Visit)

/-- Only a visit that gets to the end of its instruction changes what was observed there. -/
theorem observations_add : (s.add i v).observations =
    if v.observation.reached then Sorted.put i.index ((s.observation i.index).join v.observation) s.observations
    else s.observations := by
  show (((s.count i.operation).withValues v.built).observe i v.observation).observations = _
  unfold observe
  split <;> rfl

/-- Only a visit that gets to the end and reports something silences its anchor. -/
theorem silenced_add : (s.add i v).silenced =
    if v.observation.reached ∧ v.observation.silenced then Sorted.insertAll i.anchor.toList s.silenced
    else s.silenced := by
  show (((s.count i.operation).withValues v.built).observe i v.observation).silenced = _
  unfold observe
  by_cases hreached : v.observation.reached
  · simp only [hreached, if_true, true_and]
    rfl
  · simp only [hreached, false_and, if_false, Bool.false_eq_true]
    rfl

theorem forks_add : (s.add i v).forks = s.forks + v.forks := by
  show (((s.count i.operation).withValues v.built).observe i v.observation).forks + v.forks = _
  unfold observe
  split <;> rfl

theorem pruned_add : (s.add i v).pruned = s.pruned + v.pruned := by
  show (((s.count i.operation).withValues v.built).observe i v.observation).pruned + v.pruned = _
  unfold observe
  split <;> rfl

theorem values_add : (s.add i v).values = s.values.insertAll v.built := by
  show (((s.count i.operation).withValues v.built).observe i v.observation).values = _
  unfold observe
  split <;> rfl

theorem mem_values_add {w : Value} : w ∈ (s.add i v).values.values ↔ w ∈ v.built ∨ w ∈ s.values.values := by
  rw [values_add, ValueTable.mem_insertAll]

/-! ## Agreement -/

/-- Two surveys are the same but for the numbers of values and the order in which findings were recorded. -/
structure Agrees (s t : Survey) : Prop where
  values : ∀ w, w ∈ s.values.values ↔ w ∈ t.values.values
  observations : s.observations = t.observations
  silenced : s.silenced = t.silenced
  visits : s.visits = t.visits
  forks : s.forks = t.forks
  pruned : s.pruned = t.pruned
  reportUnannotated : s.collector.reportUnannotated = t.collector.reportUnannotated
  recorded : s.collector.recorded.Perm t.collector.recorded

namespace Agrees

variable {s t u : Survey}

theorem refl (s : Survey) : s.Agrees s :=
  ⟨fun _ => Iff.rfl, rfl, rfl, rfl, rfl, rfl, rfl, .refl _⟩

/-- Agreement goes on from survey to survey. -/
theorem trans (hst : s.Agrees t) (htu : t.Agrees u) : s.Agrees u where
  values w := (hst.values w).trans (htu.values w)
  observations := hst.observations.trans htu.observations
  silenced := hst.silenced.trans htu.silenced
  visits := hst.visits.trans htu.visits
  forks := hst.forks.trans htu.forks
  pruned := hst.pruned.trans htu.pruned
  reportUnannotated := hst.reportUnannotated.trans htu.reportUnannotated
  recorded := hst.recorded.trans htu.recorded

theorem observation_eq (h : s.Agrees t) (index : Nat) : s.observation index = t.observation index := by
  unfold observation
  rw [h.observations]

/-- A visit may be added to surveys that agree. -/
theorem add (h : s.Agrees t) (i : Instruction) (v : Visit) : (s.add i v).Agrees (t.add i v) where
  values w := by rw [mem_values_add, mem_values_add, h.values]
  observations := by rw [observations_add, observations_add, h.observation_eq, h.observations]
  silenced := by rw [silenced_add, silenced_add, h.silenced]
  visits := by
    rw [visits_add, visits_add]
    unfold count
    rw [h.visits]
  forks := by rw [forks_add, forks_add, h.forks]
  pruned := by rw [pruned_add, pruned_add, h.pruned]
  reportUnannotated := by
    rw [collector_add, collector_add, (Collector.recorded_reportAll _ i _).2, (Collector.recorded_reportAll _ i _).2,
      h.reportUnannotated]
  recorded := by
    -- both collectors are configured alike
    have htakes : s.collector.takes = t.collector.takes := by
      funext d
      unfold Collector.takes
      rw [h.reportUnannotated]
    rw [collector_add, collector_add, (Collector.recorded_reportAll _ i _).1, (Collector.recorded_reportAll _ i _).1,
      htakes]
    exact h.recorded.append_left _

end Agrees

/-! ## The order of visits -/

/-- Counts of visits can be taken in either order. -/
theorem visits_comm (s : Survey) (o p : Operation) : ((s.count o).count p).visits = ((s.count p).count o).visits := by
  by_cases hname : o.name = p.name
  · unfold count
    rw [hname]
  · unfold count
    dsimp only
    rw [Sorted.get?_put_of_ne hname, Sorted.get?_put_of_ne (Ne.symm hname), Sorted.put_comm (Ne.symm hname)]

/-- Observations at two instructions do not touch each other; at one they are joined, in either order. -/
theorem observations_comm (s : Survey) (i j : Instruction) (v w : Visit) :
    ((s.add i v).add j w).observations = ((s.add j w).add i v).observations := by
  simp only [observations_add, observation_add]
  by_cases hv : v.observation.reached
  · by_cases hw : w.observation.reached
    · by_cases hij : i.index = j.index
      · -- what is seen at one instruction is joined in either order
        simp only [hv, hw, hij, if_true, true_and, Sorted.put_put_self, Observation.join_assoc,
          Observation.join_comm w.observation]
      · simp only [hv, hw, hij, Ne.symm hij, if_true, true_and, if_false, Sorted.put_comm (Ne.symm hij)]
    · simp only [hv, hw, if_true, if_false, false_and, Bool.false_eq_true]
  · simp only [hv, if_false, false_and, Bool.false_eq_true]

/-- Anchors are silenced in either order. -/
theorem silenced_comm (s : Survey) (i j : Instruction) (v w : Visit) :
    ((s.add i v).add j w).silenced = ((s.add j w).add i v).silenced := by
  have hinsert : Sorted.insertAll j.anchor.toList (Sorted.insertAll i.anchor.toList s.silenced) =
      Sorted.insertAll i.anchor.toList (Sorted.insertAll j.anchor.toList s.silenced) := by
    cases i.anchor with
    | none => rfl
    | some a =>
      cases j.anchor with
      | none => rfl
      | some b => exact Sorted.insert_comm b a s.silenced
  simp only [silenced_add]
  split <;> split <;> first | rfl | exact hinsert

/-- **Two visits may be added in either order.** -/
theorem agrees_add_add (s : Survey) (i j : Instruction) (v w : Visit) :
    ((s.add i v).add j w).Agrees ((s.add j w).add i v) where
  values u := by simp only [mem_values_add, or_left_comm]
  observations := observations_comm s i j v w
  silenced := silenced_comm s i j v w
  visits := by
    -- a visit counts its operation, whatever the rest of it does
    have hcount : ∀ t : Survey, (((t.add i v).count j.operation).visits = ((t.count i.operation).count j.operation).visits) ∧
        (((t.add j w).count i.operation).visits = ((t.count j.operation).count i.operation).visits) := by
      intro t
      constructor <;> (unfold count; rw [visits_add]; rfl)
    rw [visits_add, visits_add, (hcount s).1, (hcount s).2, visits_comm]
  forks := by simp only [forks_add, Nat.add_right_comm]
  pruned := by simp only [pruned_add, Nat.add_right_comm]
  reportUnannotated := by simp only [collector_add, (Collector.recorded_reportAll _ _ _).2]
  recorded := by
    -- what is taken is a matter of the configuration
    have htakes : ∀ t : Survey, ∀ k : Instruction, ∀ u : Visit, (t.add k u).collector.takes = t.collector.takes := by
      intro t k u
      funext d
      unfold Collector.takes
      rw [collector_add, (Collector.recorded_reportAll _ _ _).2]
    simp only [collector_add, (Collector.recorded_reportAll _ _ _).1]
    rw [← collector_add, ← collector_add, htakes, htakes, ← List.append_assoc, ← List.append_assoc]
    exact (List.perm_append_comm).append_right _

end Survey

namespace Context

variable {c : Context}

/-- One more visit keeps surveys in agreement. -/
theorem tally_agrees {s t : Survey} (h : s.Agrees t) (p : Successor) : (c.tally s p).Agrees (c.tally t p) := by
  unfold tally
  split
  · exact h.add _ _
  · exact h

/-- Two visits may be swapped. -/
theorem tally_tally_agrees (s : Survey) (p q : Successor) :
    (c.tally (c.tally s p) q).Agrees (c.tally (c.tally s q) p) := by
  unfold tally
  cases c.procedure.instructions[p.index]? with
  | none => exact .refl _
  | some i =>
    cases c.procedure.instructions[q.index]? with
    | none => exact .refl _
    | some j => exact Survey.agrees_add_add s i j _ _

theorem tallyAll_agrees {s t : Survey} (h : s.Agrees t) (order : List Successor) :
    (c.tallyAll s order).Agrees (c.tallyAll t order) := by
  induction order generalizing s t with
  | nil => exact h
  | cons p order ih => exact ih (tally_agrees h p)

/-- **Visits add up to the same in every order.** -/
theorem tallyAll_perm {order order' : List Successor} (h : order.Perm order') (s : Survey) :
    (c.tallyAll s order).Agrees (c.tallyAll s order') := by
  induction h generalizing s with
  | nil => exact .refl _
  | cons p _ ih => exact ih (c.tally s p)
  | swap p q order => exact tallyAll_agrees (tally_tally_agrees s q p) order
  | trans _ _ ih ih' => exact (ih s).trans (ih' s)

end Context

/-! ## Findings -/

/-- Keys are in order after sorting. -/
theorem Finding.pairwise_mergeSort_key (fs : List Finding) :
    (fs.mergeSort fun a b => (compare a.key b.key).isLE).Pairwise fun a b => (compare a.key b.key).isLE = true := by
  apply List.pairwise_mergeSort
  · intro a b c hab hbc
    exact Std.TransOrd.isLE_trans hab hbc
  · intro a b
    rw [Std.OrientedOrd.eq_swap (a := b.key)]
    cases compare a.key b.key <;> rfl

/-- Keys in both orders are one key, and different findings have different keys. -/
theorem Finding.eq_of_isLE {a b : Finding} (hab : (compare a.key b.key).isLE = true)
    (hba : (compare b.key a.key).isLE = true) : a = b :=
  key_injective (Std.compare_eq_iff_eq.mp (Std.OrientedCmp.isLE_antisymm hab hba))

/-- **To put findings in order takes no regard to the order in which they came.** -/
theorem Finding.inOrder_congr {fs gs : List Finding} (h : fs.Perm gs) : inOrder fs = inOrder gs := by
  have heq : (fs.mergeSort fun a b => (compare a.key b.key).isLE) =
      gs.mergeSort fun a b => (compare a.key b.key).isLE := by
    refine List.Perm.eq_of_pairwise ?_ (pairwise_mergeSort_key fs) (pairwise_mergeSort_key gs)
      ((List.mergeSort_perm _ _).trans (h.trans (List.mergeSort_perm _ _).symm))
    exact fun a b _ _ hab hba => eq_of_isLE hab hba
  unfold inOrder
  rw [heq]

namespace Survey

variable {s t : Survey}

theorem Agrees.isSilenced_eq (h : s.Agrees t) (p : Procedure) (anchor : Option AnchorId) :
    s.isSilenced p anchor = t.isSilenced p anchor := by
  unfold isSilenced
  rw [h.silenced]

/-- Surveys that agree report the same about an instruction. -/
theorem Agrees.finding?_eq (h : s.Agrees t) (p : Procedure) (i : Instruction) : s.finding? p i = t.finding? p i := by
  have hconstant : s.isConditionConstant i.index = t.isConditionConstant i.index := by
    unfold isConditionConstant
    rw [h.observation_eq]
  have hredundant : s.isInstanceofRedundant i.index = t.isInstanceofRedundant i.index := by
    unfold isInstanceofRedundant
    rw [h.observation_eq, hconstant]
  unfold finding? constantCondition?
  rw [hconstant, hredundant, h.observation_eq, h.isSilenced_eq]

/-- **Surveys that agree have the same findings.** -/
theorem Agrees.findings_eq (h : s.Agrees t) (p : Procedure) : s.findings p = t.findings p := by
  have hfinding : s.finding? p = t.finding? p := funext (h.finding?_eq p)
  unfold findings
  rw [hfinding]
  exact Finding.inOrder_congr (h.recorded.append_left _)

end Survey

end NullCheck
