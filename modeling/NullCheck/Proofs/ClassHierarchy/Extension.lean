import NullCheck.Proofs.ClassHierarchy.Subtyping

/-!
# What a longer class path changes

A conversion between two types is refused if the declarations at hand leave no value for it. More of the class path may
become known later, and then one of the types may turn out to lie below the other. A conversion between classes that are
not declared is never refused for that reason. But a class that is declared may lie below one that is not, and what lies
above that one is not known either: such a conversion is refused although more declarations can make it possible.

## The architecture

* **`Completes`**: more declarations, beyond those at hand.
* **`ClassHierarchy.IsOpen`**: something above a class is not declared; **`ClassHierarchy.Open`**: two types are classes,
  or arrays of them, of which one is open.
* **`ClassHierarchy.Assigns.restrict`**: what more declarations make assignable was so before or is open.
* **`ClassHierarchy.Open.exists_completion`**: what is open is made assignable by some more declarations.
* **`ClassHierarchy.stays_refused_iff`**: the headline, from the two.
-/

namespace NullCheck

/-- More of the class path is known: every declaration stays, and what is new declares nothing above the names of
`tops`. -/
structure Completes (tops : Set String) (classes classes' : List ClassDecl) : Prop where
  subset : classes ⊆ classes'
  ends : ∀ c ∈ classes', c.name ∈ tops → c ∈ classes ∨ c.parents = []

namespace ClassHierarchy

variable {tops : Set String} {h h' : ClassHierarchy} {name parent above : String} {t u : JvmType}

/-- A class or something above it is not declared, so that more may turn out to lie above it. -/
def IsOpen (h : ClassHierarchy) (tops : Set String) (name : String) : Prop :=
  ∃ top, h.Descends name top ∧ h.contains top = false ∧ top ∉ tops

/-- Two classes, or two arrays with such components, of which one may turn out to lie below the other. -/
inductive Open (h : ClassHierarchy) (tops : Set String) : JvmType → JvmType → Prop
  | classes {a b : String} (hopen : h.IsOpen tops a ∨ h.IsOpen tops b) : Open h tops (.classType a) (.classType b)
  | arrays {t u : JvmType} (htu : Open h tops t u) : Open h tops (.array t) (.array u)

theorem Open.symm (hopen : h.Open tops t u) : h.Open tops u t := by
  induction hopen with
  | classes hopen => exact .classes hopen.symm
  | arrays _ ih => exact .arrays ih

theorem Open.isPrimitive_eq_false (hopen : h.Open tops t u) : t.isPrimitive = false ∧ u.isPrimitive = false := by
  cases hopen with
  | classes => exact ⟨rfl, rfl⟩
  | arrays => exact ⟨rfl, rfl⟩

/-! ## What was known before -/

theorem Extends.mono (hsub : h.classes ⊆ h'.classes) (hextends : h.Extends name parent) : h'.Extends name parent := by
  obtain ⟨c, hc, hname, hparent⟩ := mem_parents_iff.mp hextends
  exact mem_parents_iff.mpr ⟨c, hsub hc, hname, hparent⟩

/-- A path of declarations stays one when others are added. -/
theorem Descends.mono (hsub : h.classes ⊆ h'.classes) (hdescends : h.Descends name above) : h'.Descends name above :=
  Relation.ReflTransGen.mono (fun _ _ => Extends.mono hsub) _ _ hdescends

/-- What lies right above a name was known before, unless the name was not declared. -/
theorem Extends.restrict (hmore : Completes tops h.classes h'.classes) (hextends : h'.Extends name parent) :
    h.Extends name parent ∨ h.contains name = false ∧ name ∉ tops := by
  obtain ⟨c, hc, rfl, hparent⟩ := mem_parents_iff.mp hextends
  cases hdeclared : h.contains c.name with
  | true =>
    -- a name has one declaration, so it is the one that was known before
    obtain ⟨known, hknown, hname⟩ := contains_iff.mp hdeclared
    have hsame : known = c := List.inj_on_of_nodup_map h'.distinct (hmore.subset hknown) hc hname
    exact Or.inl (mem_parents_iff.mpr ⟨c, hsame ▸ hknown, rfl, hparent⟩)
  | false =>
    refine Or.inr ⟨rfl, fun htop => ?_⟩
    rcases hmore.ends c hc htop with hknown | hnone
    · rw [contains_iff.mpr ⟨c, hknown, rfl⟩] at hdeclared
      cases hdeclared
    · rw [hnone] at hparent
      cases hparent

/-- What lies above a class was known before, unless the class was open. -/
theorem Descends.restrict (hmore : Completes tops h.classes h'.classes) (hclosed : ¬h.IsOpen tops name)
    (hdescends : h'.Descends name above) : h.Descends name above := by
  induction hdescends with
  | refl => exact .refl
  | @tail middle above _ hextends ih =>
    rcases Extends.restrict hmore hextends with hextends | ⟨hmissing, htop⟩
    · exact ih.tail hextends
    · exact absurd ⟨middle, ih, hmissing, htop⟩ hclosed

/-- **What more declarations make assignable was so before or is open.** -/
theorem Assigns.restrict (hmore : Completes tops h.classes h'.classes) (hassigns : h'.Assigns t u) :
    h.Assigns t u ∨ h.Open tops t u := by
  induction hassigns with
  | same t => exact Or.inl (.same t)
  | object ht => exact Or.inl (.object ht)
  | @subclass name ancestor hdescends =>
    by_cases hopen : h.IsOpen tops name
    · exact Or.inr (.classes (Or.inl hopen))
    · exact Or.inl (.subclass (Descends.restrict hmore hopen hdescends))
  | arrayInterface t hname => exact Or.inl (.arrayInterface t hname)
  | array ht hu _ ih => exact ih.imp (.array ht hu) .arrays

/-! ## What becomes possible -/

/-- Any class can be declared to lie above an open one. -/
theorem IsOpen.exists_completion (hopen : h.IsOpen tops name) (above : String) :
    ∃ h' : ClassHierarchy, Completes tops h.classes h'.classes ∧ h'.Descends name above := by
  obtain ⟨top, hdescends, hmissing, htop⟩ := hopen
  -- the top of the path is not declared, so it can be
  have hnew : top ∉ h.classes.map ClassDecl.name := by
    intro hmem
    obtain ⟨c, hc, hname⟩ := List.mem_map.mp hmem
    rw [contains_iff.mpr ⟨c, hc, hname⟩] at hmissing
    cases hmissing
  let found : ClassDecl := ⟨top, some above, [], false⟩
  let h' : ClassHierarchy := ⟨found :: h.classes, List.nodup_cons.mpr ⟨hnew, h.distinct⟩⟩
  have hfound : h'.Descends top above := descends_of_mem (c := found) List.mem_cons_self List.mem_cons_self
  refine ⟨h', ⟨List.subset_cons_self _ _, fun c hc hctop => ?_⟩,
    (Descends.mono (List.subset_cons_self _ _) hdescends).trans hfound⟩
  rcases List.mem_cons.mp hc with rfl | hc
  · exact absurd hctop htop
  · exact Or.inl hc

/-- **What is open is made assignable, one way or the other, by some more declarations.** -/
theorem Open.exists_completion (hopen : h.Open tops t u) :
    ∃ h' : ClassHierarchy, Completes tops h.classes h'.classes ∧ (h'.Assigns t u ∨ h'.Assigns u t) := by
  induction hopen with
  | @classes a b hopen =>
    rcases hopen with hopen | hopen
    · obtain ⟨h', hmore, hdescends⟩ := hopen.exists_completion b
      exact ⟨h', hmore, Or.inl (.subclass hdescends)⟩
    · obtain ⟨h', hmore, hdescends⟩ := hopen.exists_completion a
      exact ⟨h', hmore, Or.inr (.subclass hdescends)⟩
  | arrays htu ih =>
    obtain ⟨h', hmore, hassigns⟩ := ih
    obtain ⟨ht, hu⟩ := htu.isPrimitive_eq_false
    exact ⟨h', hmore, hassigns.imp (.array ht hu) (.array hu ht)⟩

/-! ## The headline -/

/-- What is refused is not assignable in either direction as things are. -/
theorem not_assigns_of_refused (hrefused : h.isConvertible t u = false) : ¬h.Assigns t u ∧ ¬h.Assigns u t := by
  rw [← isAssignable_iff_assigns, ← isAssignable_iff_assigns]
  unfold isConvertible at hrefused
  split at hrefused
  · cases hrefused
  · next hnot => exact (not_or.mp hnot).symm

/-- **When a refused conversion stays refused.** Let a list of declarations be accepted, and let a conversion between
two types be refused. However more of the class path becomes known, neither type becomes assignable to the other, if
and only if the two are not open: they are not classes, nor arrays of them, of which one lies below a class that is not
declared. The names of `tops` are those that are trusted to have nothing above them: none, or the class of all objects. -/
theorem stays_refused_iff {classes : List ClassDecl} (hlist : ofList classes = .ok h)
    (hrefused : h.isConvertible t u = false) (tops : Set String) :
    (∀ classes' h', Completes tops classes classes' → ofList classes' = .ok h' →
        h'.isAssignable t u = false ∧ h'.isAssignable u t = false) ↔ ¬h.Open tops t u := by
  obtain rfl := classes_of_ofList hlist
  simp only [← Bool.not_eq_true, isAssignable_iff_assigns]
  constructor
  · -- an open pair is related by some completion
    intro hstays hopen
    obtain ⟨h', hmore, hassigns⟩ := hopen.exists_completion
    obtain ⟨hut, htu⟩ := hstays h'.classes h' hmore (ofList_classes h')
    exact hassigns.elim htu hut
  · -- what a completion relates was related before or was open
    intro hclosed classes' h' hmore hlist'
    obtain rfl := classes_of_ofList hlist'
    obtain ⟨htu, hut⟩ := not_assigns_of_refused hrefused
    exact ⟨fun hassigns => (Assigns.restrict hmore hassigns).elim hut fun hopen => hclosed hopen.symm,
      fun hassigns => (Assigns.restrict hmore hassigns).elim htu hclosed⟩

/-- Two classes right below the class of all objects. -/
def siblings : ClassHierarchy :=
  ⟨[⟨"p/A", some JvmType.objectName, [], false⟩, ⟨"p/B", some JvmType.objectName, [], false⟩], by decide⟩

/-- Nothing is open in what lies below the class of all objects alone. -/
theorem stays_refused_iff_of_siblings :
    ofList siblings.classes = .ok siblings ∧ siblings.isConvertible (.classType "p/A") (.classType "p/B") = false ∧
      ∀ classes' h', Completes {JvmType.objectName} siblings.classes classes' → ofList classes' = .ok h' →
        h'.isAssignable (.classType "p/A") (.classType "p/B") = false ∧
          h'.isAssignable (.classType "p/B") (.classType "p/A") = false := by
  have hlist := ofList_classes siblings
  have hrefused : siblings.isConvertible (.classType "p/A") (.classType "p/B") = false := by
    simp [isConvertible, isAssignable, isSubclass, search, contains, isInterface, parents, find?, ClassDecl.parents,
      JvmType.objectName, siblings]
  refine ⟨hlist, hrefused, (stays_refused_iff hlist hrefused _).mpr fun hopen => ?_⟩
  -- the only parent is `Object`, which is where paths may end
  have hclosed : ∀ name, siblings.parents name = [JvmType.objectName] → siblings.contains name = true →
      ¬siblings.IsOpen {JvmType.objectName} name := by
    rintro name hparents hdeclared ⟨top, hdescends, hmissing, htop⟩
    rcases hdescends.cases_head with rfl | ⟨parent, hextends, hdescends⟩
    · rw [hdeclared] at hmissing
      cases hmissing
    · obtain rfl : parent = JvmType.objectName := by simpa [Extends, hparents] using hextends
      exact htop (eq_of_descends (by decide) hdescends).symm
  rcases hopen with hopen | hopen
  rcases hopen with hopen | hopen
  · exact hclosed _ (by decide) (by decide) hopen
  · exact hclosed _ (by decide) (by decide) hopen

/-- Two declared classes, one of them below a class that is not declared. -/
def broken : ClassHierarchy := ⟨[⟨"p/A", none, [], false⟩, ⟨"p/B", some "p/Missing", [], false⟩], by decide⟩

/-- The same two classes with the missing one, which lies below the other. -/
def mended : ClassHierarchy := ⟨⟨"p/Missing", some "p/A", [], false⟩ :: broken.classes, by decide⟩

/-- A refused conversion does not stay refused: the missing class may lie between the two. -/
theorem refused_not_stays_refused :
    ¬∀ (classes classes' : List ClassDecl) (h h' : ClassHierarchy) (t u : JvmType), classes ⊆ classes' →
      ofList classes = .ok h → ofList classes' = .ok h' → h.isConvertible t u = false →
        h'.isAssignable t u = false ∧ h'.isAssignable u t = false := by
  intro hstays
  have hrefused : broken.isConvertible (.classType "p/A") (.classType "p/B") = false := by
    simp [isConvertible, isAssignable, isSubclass, search, contains, isInterface, parents, find?, ClassDecl.parents,
      JvmType.objectName, broken]
  have hbelow : mended.Extends "p/B" "p/Missing" := mem_parents_iff.mpr ⟨⟨"p/B", some "p/Missing", [], false⟩, by decide⟩
  have habove : mended.Extends "p/Missing" "p/A" := mem_parents_iff.mpr ⟨⟨"p/Missing", some "p/A", [], false⟩, by decide⟩
  have hassignable : mended.isAssignable (.classType "p/A") (.classType "p/B") = true :=
    isAssignable_iff_assigns.mpr (.subclass (.head hbelow (.single habove)))
  have hnot := (hstays _ _ _ _ _ _ (List.subset_cons_self _ _) (ofList_classes broken) (ofList_classes mended) hrefused).1
  rw [hassignable] at hnot
  cases hnot

end ClassHierarchy

end NullCheck
