import Mathlib.Data.List.Nodup
import Mathlib.Data.Set.Insert
import Mathlib.Logic.Relation
import NullCheck.ClassHierarchy

/-!
# Assignability is the declared subtype relation

Declarations give a subtype relation: each class lies below its superclass and its interfaces, every reference type
below the class of all objects, every array below two interfaces, and arrays vary with their components. Types may be
chained through all of these. Whether one type is assignable to another is decided without chaining them: by form, and
for two classes by a search through the declarations, which may be incomplete and may form a cycle.

## The architecture

* **`Subtyping`**: the declared subtype relation, the least preorder with these rules.
* **`ClassHierarchy.isSubclass_iff`**: the search finds what is reached along declarations, and ends with a set of
  names that is closed upward if it finds nothing.
* **`ClassHierarchy.Assigns`**: what is assignable, one rule for each form; **`isAssignable_iff_assigns`**.
* **`ClassHierarchy.Assigns.trans`**: chains of these rules are again one rule, as long as nothing but the class of all
  objects is declared above the roots.
* **`ClassHierarchy.isAssignable_iff_subtyping`**: the headline.
-/

namespace NullCheck

/-- The subtype relation that the declarations of classes give, from a type to those above it: the least preorder with
the declared edges, in which reference types lie below the class of all objects, arrays below their interfaces, and
arrays of what is not primitive vary with their components. -/
inductive Subtyping (classes : List ClassDecl) : JvmType → JvmType → Prop
  | refl (t : JvmType) : Subtyping classes t t
  | trans {t u v : JvmType} (htu : Subtyping classes t u) (huv : Subtyping classes u v) : Subtyping classes t v
  | superclass {c : ClassDecl} {name : String} (hc : c ∈ classes) (hname : c.superclass = some name) :
      Subtyping classes (.classType c.name) (.classType name)
  | interface {c : ClassDecl} {name : String} (hc : c ∈ classes) (hname : name ∈ c.interfaces) :
      Subtyping classes (.classType c.name) (.classType name)
  | object {t : JvmType} (ht : t.isReference = true) : Subtyping classes t (.classType "java/lang/Object")
  | cloneable (t : JvmType) : Subtyping classes (.array t) (.classType "java/lang/Cloneable")
  | serializable (t : JvmType) : Subtyping classes (.array t) (.classType "java/io/Serializable")
  | array {t u : JvmType} (ht : t.isPrimitive = false) (hu : u.isPrimitive = false) (htu : Subtyping classes t u) :
      Subtyping classes (.array t) (.array u)

/-- The class of all objects and the interfaces of arrays: what lies above types that are not declared. -/
def JvmType.roots : List String := ["java/lang/Object", "java/lang/Cloneable", "java/io/Serializable"]

/-- Nothing but the class of all objects is declared above a root. -/
def EndAtRoots (classes : List ClassDecl) : Prop :=
  ∀ c ∈ classes, c.name ∈ JvmType.roots → ∀ parent ∈ c.parents, parent = "java/lang/Object"

instance (classes : List ClassDecl) : Decidable (EndAtRoots classes) := by
  unfold EndAtRoots
  infer_instance

namespace ClassHierarchy

variable {h : ClassHierarchy} {name parent goal : String} {t u v : JvmType}

/-! ## Declarations -/

theorem ofList_classes (h : ClassHierarchy) : ofList h.classes = .ok h := dif_pos h.distinct

/-- A hierarchy that is accepted holds the list that it was made of. -/
theorem classes_of_ofList {classes : List ClassDecl} (hlist : ofList classes = .ok h) : h.classes = classes := by
  unfold ofList at hlist
  split at hlist
  · cases hlist
    rfl
  · cases hlist

/-- A class is found under its name, as no name is declared twice. -/
theorem find?_eq_some_iff {c : ClassDecl} : h.find? name = some c ↔ c ∈ h.classes ∧ c.name = name := by
  constructor
  · intro hfind
    have hname := List.find?_some hfind
    exact ⟨List.mem_of_find?_eq_some hfind, of_decide_eq_true hname⟩
  · rintro ⟨hc, rfl⟩
    obtain ⟨d, hd⟩ : ∃ d, h.find? c.name = some d :=
      Option.isSome_iff_exists.mp (List.find?_isSome.mpr ⟨c, hc, decide_eq_true rfl⟩)
    have hname := List.find?_some hd
    rw [hd, List.inj_on_of_nodup_map h.distinct (List.mem_of_find?_eq_some hd) hc (of_decide_eq_true hname)]

/-- The parents of a class are those that its declaration names. -/
theorem mem_parents_iff : parent ∈ h.parents name ↔ ∃ c ∈ h.classes, c.name = name ∧ parent ∈ c.parents := by
  unfold parents
  constructor
  · intro hparent
    cases hfind : h.find? name with
    | none => simp [hfind] at hparent
    | some c =>
      rw [hfind] at hparent
      exact ⟨c, (find?_eq_some_iff.mp hfind).1, (find?_eq_some_iff.mp hfind).2, hparent⟩
  · rintro ⟨c, hc, hname, hparent⟩
    rw [find?_eq_some_iff.mpr ⟨hc, hname⟩]
    exact hparent

theorem contains_iff : h.contains name = true ↔ ∃ c ∈ h.classes, c.name = name := by
  unfold contains
  rw [Option.isSome_iff_exists]
  simp only [find?_eq_some_iff]

theorem contains_of_mem_parents (hparent : parent ∈ h.parents name) : h.contains name = true := by
  obtain ⟨c, hc, hcname, -⟩ := mem_parents_iff.mp hparent
  exact contains_iff.mpr ⟨c, hc, hcname⟩

theorem parents_eq_nil (hname : h.contains name = false) : h.parents name = [] := by
  refine List.eq_nil_iff_forall_not_mem.mpr fun parent hparent => ?_
  rw [contains_of_mem_parents hparent] at hname
  cases hname

/-! ## The search -/

/-- A class is declared to be right below another one. -/
def Extends (h : ClassHierarchy) (name parent : String) : Prop := parent ∈ h.parents name

/-- A class is another one or lies below it, along declarations. -/
def Descends (h : ClassHierarchy) : String → String → Prop := Relation.ReflTransGen h.Extends

/-- What the search finds lies above a pending name. -/
theorem exists_descends_of_search {seen pending : List String} (hfound : h.search goal seen pending = true) :
    ∃ name ∈ pending, h.Descends name goal := by
  fun_induction search h goal seen pending with
  | case1 => cases hfound
  | case2 seen pending => exact ⟨goal, List.mem_cons_self, .refl⟩
  | case3 seen name pending hne hseen ih =>
    obtain ⟨below, hbelow, hdescends⟩ := ih hfound
    exact ⟨below, List.mem_cons_of_mem _ hbelow, hdescends⟩
  -- a class that is looked at is replaced by its parents, from which the goal is one step further
  | case4 seen name pending hne hseen hdeclared ih =>
    obtain ⟨below, hbelow, hdescends⟩ := ih hfound
    rcases List.mem_append.mp hbelow with hbelow | hparent
    · exact ⟨below, List.mem_cons_of_mem _ hbelow, hdescends⟩
    · exact ⟨name, List.mem_cons_self, .head hparent hdescends⟩
  | case5 seen name pending hne hseen hdeclared ih =>
    obtain ⟨below, hbelow, hdescends⟩ := ih hfound
    exact ⟨below, List.mem_cons_of_mem _ hbelow, hdescends⟩

/-- Above the names that were dealt with lies nothing but such names and pending ones. -/
def ClosedBut (h : ClassHierarchy) (done : Set String) (pending : List String) : Prop :=
  ∀ name ∈ done, ∀ parent ∈ h.parents name, parent ∈ done ∨ parent ∈ pending

/-- A pending name is dealt with as soon as what lies right above it is pending. -/
theorem ClosedBut.insert {done : Set String} {pending pending' : List String} (hdone : h.ClosedBut done (name :: pending))
    (hpending : pending ⊆ pending') (hname : ∀ parent ∈ h.parents name, parent ∈ Insert.insert name done ∨ parent ∈ pending') :
    h.ClosedBut (Insert.insert name done) pending' := by
  rintro below (rfl | hbelow) parent hparent
  · exact hname parent hparent
  · rcases hdone below hbelow parent hparent with hparent | hparent
    · exact Or.inl (Set.mem_insert_of_mem _ hparent)
    · rcases List.mem_cons.mp hparent with rfl | hparent
      · exact Or.inl (Set.mem_insert _ _)
      · exact Or.inr (hpending hparent)

/-- A search that finds nothing has been through a set of names that is closed upward and has not the goal in it. -/
theorem exists_closed_of_search {seen pending : List String} (hfound : h.search goal seen pending = false)
    {done : Set String} (hseen : ∀ name ∈ seen, name ∈ done) (hgoal : goal ∉ done) (hdone : h.ClosedBut done pending) :
    ∃ closed : Set String, done ⊆ closed ∧ (∀ name ∈ pending, name ∈ closed) ∧ goal ∉ closed ∧ h.ClosedBut closed [] := by
  -- to deal with a name leaves the goal out, and all that was to be in the set
  have hinsert : ∀ {name : String} {done : Set String}, name ≠ goal → goal ∉ done → goal ∉ Insert.insert name done :=
    fun hne hgoal hmem => (Set.mem_insert_iff.mp hmem).elim (fun heq => hne heq.symm) hgoal
  have hcons : ∀ {name : String} {done closed : Set String} {pending : List String},
      Insert.insert name done ⊆ closed → (∀ name ∈ pending, name ∈ closed) →
        done ⊆ closed ∧ ∀ below ∈ name :: pending, below ∈ closed :=
    fun hsub hpending => ⟨(Set.subset_insert _ _).trans hsub,
      List.forall_mem_cons.mpr ⟨hsub (Set.mem_insert _ _), hpending⟩⟩
  fun_induction search h goal seen pending generalizing done with
  | case1 seen => exact ⟨done, Set.Subset.rfl, by simp, hgoal, hdone⟩
  | case2 => cases hfound
  | case3 seen name pending hne hmem ih =>
    have hname : name ∈ done := hseen name hmem
    obtain ⟨closed, hsub, hpending, hclosed⟩ := ih hfound (fun below hbelow => Set.mem_insert_of_mem _ (hseen below hbelow))
      (hinsert hne hgoal) (hdone.insert (List.Subset.refl _) fun parent hparent => by
        rcases hdone name hname parent hparent with hparent | hparent
        · exact Or.inl (Set.mem_insert_of_mem _ hparent)
        · exact (List.mem_cons.mp hparent).imp_left fun heq => Set.mem_insert_iff.mpr (Or.inl heq))
    exact ⟨closed, (hcons hsub hpending).1, (hcons hsub hpending).2, hclosed⟩
  | case4 seen name pending hne hmem hdeclared ih =>
    obtain ⟨closed, hsub, hpending, hclosed⟩ := ih hfound
      (List.forall_mem_cons.mpr ⟨Set.mem_insert _ _, fun below hbelow => Set.mem_insert_of_mem _ (hseen below hbelow)⟩)
      (hinsert hne hgoal) (hdone.insert (List.subset_append_left _ _) fun parent hparent =>
        Or.inr (List.mem_append_right _ hparent))
    have hrest : ∀ below ∈ pending, below ∈ closed := fun below hbelow => hpending below (List.mem_append_left _ hbelow)
    exact ⟨closed, (hcons hsub hrest).1, (hcons hsub hrest).2, hclosed⟩
  | case5 seen name pending hne hmem hdeclared ih =>
    -- nothing is known to lie above a name that is not declared
    have hnone : h.parents name = [] := parents_eq_nil (Bool.eq_false_iff.mpr hdeclared)
    obtain ⟨closed, hsub, hpending, hclosed⟩ := ih hfound (fun below hbelow => Set.mem_insert_of_mem _ (hseen below hbelow))
      (hinsert hne hgoal) (hdone.insert (List.Subset.refl _) (by simp [hnone]))
    exact ⟨closed, (hcons hsub hpending).1, (hcons hsub hpending).2, hclosed⟩

/-- **The search decides what lies above a class,** whether the declarations are complete or form a cycle. -/
theorem isSubclass_iff {ancestor : String} : h.isSubclass name ancestor = true ↔ h.Descends name ancestor := by
  constructor
  · intro hfound
    obtain ⟨below, hbelow, hdescends⟩ := exists_descends_of_search hfound
    rwa [List.mem_singleton.mp hbelow] at hdescends
  · intro hdescends
    by_contra hfound
    have hnone : h.ClosedBut ∅ [name] := by simp [ClosedBut]
    obtain ⟨closed, -, hpending, hgoal, hclosed⟩ := exists_closed_of_search (Bool.eq_false_iff.mpr hfound) (by simp)
      (by simp) hnone
    -- the set has the name in it and is closed upward, so it has all that lies above the name
    have hall : ∀ above, h.Descends name above → above ∈ closed := by
      intro above habove
      induction habove with
      | refl => exact hpending _ List.mem_cons_self
      | tail _ hextends ih => exact (hclosed _ ih _ hextends).resolve_right List.not_mem_nil
    exact hgoal (hall ancestor hdescends)

/-- Nothing but itself is known to lie above a class that is not declared. -/
theorem eq_of_descends {ancestor : String} (hname : h.contains name = false) (hdescends : h.Descends name ancestor) :
    name = ancestor := by
  rcases hdescends.cases_head with heq | ⟨parent, hextends, -⟩
  · exact heq
  · rw [contains_of_mem_parents hextends] at hname
    cases hname

/-! ## Assignability by form -/

/-- What is assignable, from a type to those above it. No rule is chained with another. -/
inductive Assigns (h : ClassHierarchy) : JvmType → JvmType → Prop
  | same (t : JvmType) : Assigns h t t
  | object {t : JvmType} (ht : t.isReference = true) : Assigns h t .object
  | subclass {name ancestor : String} (hdescends : h.Descends name ancestor) :
      Assigns h (.classType name) (.classType ancestor)
  | arrayInterface (t : JvmType) {name : String} (hname : name ∈ arrayInterfaces) : Assigns h (.array t) (.classType name)
  | array {t u : JvmType} (ht : t.isPrimitive = false) (hu : u.isPrimitive = false) (htu : Assigns h t u) :
      Assigns h (.array t) (.array u)

/-- The check takes the first rule that fits, and the relation has one constructor for each rule. -/
theorem isAssignable_iff_assigns : h.isAssignable u t = true ↔ h.Assigns t u := by
  constructor
  · intro hassignable
    fun_induction isAssignable h u t with
    | case1 t => exact .same t
    | case2 t hne => exact .object hassignable
    | case3 ancestor hobject name hne => exact .subclass (isSubclass_iff.mp hassignable)
    | case4 name hobject component hne => exact .arrayInterface component (of_decide_eq_true hassignable)
    | case7 u t hprimitive hne ih =>
      rw [not_or, Bool.not_eq_true, Bool.not_eq_true] at hprimitive
      exact .array hprimitive.2 hprimitive.1 (ih hassignable)
    -- in these cases the check says no
    | case5 | case6 | case8 => cases hassignable
  · intro hassigns
    induction hassigns with
    | same t =>
      unfold isAssignable
      exact if_pos rfl
    | object ht =>
      unfold isAssignable
      split
      · rfl
      · exact ht
    | @subclass name ancestor hdescends =>
      unfold isAssignable
      split
      · rfl
      · simp only
        split
        · rfl
        · exact isSubclass_iff.mpr hdescends
    | arrayInterface t hname =>
      unfold isAssignable
      simp only
      split
      · rfl
      · split
        · rfl
        · exact decide_eq_true hname
    | array ht hu htu ih =>
      unfold isAssignable
      simp only
      split
      · rfl
      · rw [ht, hu, if_neg (by simp)]
        exact ih

theorem isAssignable_self (h : ClassHierarchy) (t : JvmType) : h.isAssignable t t = true :=
  isAssignable_iff_assigns.mpr (.same t)

/-- Between classes only descent counts, and that all are objects. -/
theorem assigns_classes_iff {ancestor : String} :
    h.Assigns (.classType name) (.classType ancestor) ↔ ancestor = JvmType.objectName ∨ h.Descends name ancestor := by
  constructor
  · intro hassigns
    cases hassigns with
    | same => exact Or.inr .refl
    | object => exact Or.inl rfl
    | subclass hdescends => exact Or.inr hdescends
  · rintro (rfl | hdescends)
    · exact .object rfl
    · exact .subclass hdescends

/-! ## Chains -/

/-- What lies above a root is the root itself or the class of all objects. -/
theorem eq_or_eq_of_descends {ancestor : String} (hroots : EndAtRoots h.classes) (hname : name ∈ JvmType.roots)
    (hdescends : h.Descends name ancestor) : ancestor = name ∨ ancestor = JvmType.objectName := by
  induction hdescends with
  | refl => exact Or.inl rfl
  | @tail middle ancestor _ hextends ih =>
    have hmiddle : middle ∈ JvmType.roots := by
      rcases ih with rfl | rfl
      · exact hname
      · decide
    obtain ⟨c, hc, rfl, hparent⟩ := mem_parents_iff.mp hextends
    exact Or.inr (hroots c hc hmiddle ancestor hparent)

/-- **Two rules in a row are one rule,** by the form of the type in the middle. -/
theorem Assigns.trans (hroots : EndAtRoots h.classes) (htu : h.Assigns t u) (huv : h.Assigns u v) : h.Assigns t v := by
  induction htu generalizing v with
  | same => exact huv
  | object ht =>
    -- nothing lies above the class of all objects
    cases huv with
    | same => exact .object ht
    | object => exact .object ht
    | subclass hdescends =>
      have hancestor := eq_or_eq_of_descends hroots (by decide) hdescends
      rw [or_self] at hancestor
      subst hancestor
      exact .object ht
  | subclass hdescends =>
    cases huv with
    | same => exact .subclass hdescends
    | object => exact .object rfl
    | subclass hdescends' => exact .subclass (hdescends.trans hdescends')
  | arrayInterface t hname =>
    cases huv with
    | same => exact .arrayInterface t hname
    | object => exact .object rfl
    | subclass hdescends =>
      rcases eq_or_eq_of_descends hroots (List.mem_cons_of_mem _ hname) hdescends with rfl | rfl
      · exact .arrayInterface t hname
      · exact .object rfl
  | array ht hu htu ih =>
    cases huv with
    | same => exact .array ht hu htu
    | object => exact .object rfl
    | arrayInterface _ hname => exact .arrayInterface _ hname
    | array _ hv huv => exact .array ht hv (ih huv)

/-- A path of declared parents is one of subtypes. -/
theorem subtyping_of_descends {ancestor : String} (hdescends : h.Descends name ancestor) :
    Subtyping h.classes (.classType name) (.classType ancestor) := by
  induction hdescends with
  | refl => exact .refl _
  | tail _ hextends ih =>
    obtain ⟨c, hc, rfl, hparent⟩ := mem_parents_iff.mp hextends
    refine ih.trans ?_
    rcases List.mem_append.mp hparent with hsuperclass | hinterface
    · exact .superclass hc (Option.mem_toList.mp hsuperclass)
    · exact .interface hc hinterface

theorem descends_of_mem {c : ClassDecl} (hc : c ∈ h.classes) (hparent : parent ∈ c.parents) : h.Descends c.name parent :=
  .single (mem_parents_iff.mpr ⟨c, hc, rfl, hparent⟩)

/-- Every rule is one of the declared subtype relation. -/
theorem Assigns.subtyping (hassigns : h.Assigns t u) : Subtyping h.classes t u := by
  induction hassigns with
  | same t => exact .refl t
  | object ht => exact .object ht
  | subclass hdescends => exact subtyping_of_descends hdescends
  | arrayInterface t hname =>
    rcases List.mem_pair.mp hname with rfl | rfl
    · exact .cloneable t
    · exact .serializable t
  | array ht hu _ ih => exact .array ht hu ih

/-- Every chain of the declared subtype relation is one rule. -/
theorem assigns_of_subtyping (hroots : EndAtRoots h.classes) (hsubtyping : Subtyping h.classes t u) :
    h.Assigns t u := by
  induction hsubtyping with
  | refl t => exact .same t
  | trans _ _ ihtu ihuv => exact ihtu.trans hroots ihuv
  | superclass hc hname => exact .subclass (descends_of_mem hc (List.mem_append_left _ (Option.mem_toList.mpr hname)))
  | interface hc hname => exact .subclass (descends_of_mem hc (List.mem_append_right _ hname))
  | object ht => exact .object ht
  | cloneable t => exact .arrayInterface t (by decide)
  | serializable t => exact .arrayInterface t (by decide)
  | array ht hu _ ih => exact .array ht hu ih

/-! ## The headline -/

/-- **Assignability is the declared subtype relation.** Let a list of declarations be accepted, be it incomplete or
cyclic, in which nothing but the class of all objects is declared above a root. For all types it is decided whether one
is assignable to another, and it is just if the declared subtype relation has them. So assignability is reflexive and
transitive. -/
theorem isAssignable_iff_subtyping {classes : List ClassDecl} {h : ClassHierarchy} (hlist : ofList classes = .ok h)
    (hroots : EndAtRoots classes) :
    (∀ target source, h.isAssignable target source = true ↔ Subtyping classes source target) ∧
      (∀ t, h.isAssignable t t = true) ∧
      ∀ t u v, h.isAssignable u t = true → h.isAssignable v u = true → h.isAssignable v t = true := by
  obtain rfl := classes_of_ofList hlist
  refine ⟨fun target source => ?_, h.isAssignable_self, fun t u v htu huv => ?_⟩
  · rw [isAssignable_iff_assigns]
    exact ⟨Assigns.subtyping, assigns_of_subtyping hroots⟩
  · rw [isAssignable_iff_assigns] at htu huv ⊢
    exact htu.trans hroots huv

/-- Two classes each below the other, one of them below a class that is not declared; and the class of all objects is
declared to lie below itself. -/
def cyclicClasses : List ClassDecl :=
  [⟨"p/A", some "p/B", ["p/Missing"], false⟩, ⟨"p/B", some "p/A", [], false⟩,
   ⟨"java/lang/Object", some "java/lang/Object", [], false⟩]

/-- In a cycle with an undeclared class above it, arrays of the one class are arrays of what lies above the other, and
nothing else is above what is not declared. -/
theorem isAssignable_iff_subtyping_of_cycle :
    let h : ClassHierarchy := ⟨cyclicClasses, by decide⟩
    ofList cyclicClasses = .ok h ∧ EndAtRoots cyclicClasses ∧
      h.isAssignable (.array (.classType "p/Missing")) (.array (.classType "p/B")) = true ∧
      ¬Subtyping cyclicClasses (.classType "p/Missing") (.classType "p/B") := by
  intro h
  have hlist : ofList cyclicClasses = .ok h := ofList_classes h
  have hroots : EndAtRoots cyclicClasses := by decide
  have hiff := (isAssignable_iff_subtyping hlist hroots).1
  -- :: `p/B` is below `p/A`, which is below `p/Missing` and, through the cycle, below `p/B`
  have hsuperclass : Subtyping cyclicClasses (.classType "p/B") (.classType "p/A") :=
    .superclass (c := ⟨"p/B", some "p/A", [], false⟩) (by decide) rfl
  have hinterface : Subtyping cyclicClasses (.classType "p/A") (.classType "p/Missing") :=
    .interface (c := ⟨"p/A", some "p/B", ["p/Missing"], false⟩) (by decide) (by decide)
  refine ⟨hlist, hroots, (hiff _ _).mpr (.array rfl rfl (hsuperclass.trans hinterface)), fun hsubtyping => ?_⟩
  have hassigns := isAssignable_iff_assigns.mp ((hiff _ _).mpr hsubtyping)
  exact absurd (eq_of_descends (by decide) ((assigns_classes_iff.mp hassigns).resolve_left (by decide))) (by decide)

end ClassHierarchy

end NullCheck
