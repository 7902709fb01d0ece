import NullCheck.Proofs.State.Consistency
import NullCheck.Proofs.Value.Interner

/-!
# What the nodes of an interner mean

A node means a value, once it is said which values its parts are numbers of. An interner and the table of values are in
step: asked for the same, they give the same answers, and the nodes of the one mean the values of the other. So what is
kept true among the numbers is true of the values that the analysis works with.

## The architecture

* **`ValueTable.Means`**, **`Interner.Represents`**: what nodes mean, and what it is to be in step.
* **`Interner.Represents.reply`**, **`Interner.Represents.answer`**, **`Interner.Represents.answerAll`**: what is done
  about a request, the step, and by induction the run.
* **`ValueTable.Renames`**, **`Interner.Represents.node?_rename`**: interners of the same values are one, but for the
  numbers.
* **`Interner.canonical_forms`**: the headline, that whatever was asked for an interner is lawful.
-/

namespace NullCheck

section Rel

/-! ## Answers that agree, or are missing on both sides -/

variable {α β γ δ : Type} {R : α → β → Prop} {S : γ → δ → Prop} {a : Option α} {b : Option β}

/-- What is related stays related when related functions are mapped over it. -/
theorem optionRel_map {f : α → γ} {g : β → δ} (h : Option.Rel R a b) (hfg : ∀ p q, R p q → S (f p) (g q)) :
    Option.Rel S (a.map f) (b.map g) := by
  cases h with
  | none => exact .none
  | some h => exact .some (hfg _ _ h)

/-- Likewise for functions that may fail, which need to be related on what they are given only. -/
theorem optionRel_bind {f : α → Option γ} {g : β → Option δ} (h : Option.Rel R a b)
    (hfg : ∀ p q, a = some p → R p q → Option.Rel S (f p) (g q)) : Option.Rel S (a.bind f) (b.bind g) := by
  cases h with
  | none => exact .none
  | some h => exact hfg _ _ rfl h

end Rel

namespace ValueNode

/-- A node with its parts under other numbers. -/
def rename (σ : Nat → Nat) : ValueNode → ValueNode
  | .relation kind negated left right => .relation kind negated (σ left) (σ right)
  | .boxed wrapped => .boxed (σ wrapped)
  | .unboxed wrapper => .unboxed (σ wrapper)
  | v => v

@[simp] theorem rename_id (v : ValueNode) : v.rename id = v := by
  cases v <;> rfl

end ValueNode

namespace ValueTable

variable {table table' : ValueTable} {m n : Nat} {x y : Value}

/-- No value has two numbers. -/
theorem value?_inj (hm : table.value? m = some x) (hn : table.value? n = some x) : m = n := by
  rw [value?, ← Array.getElem?_toList] at hm hn
  have hlt : m < table.values.toList.length := (List.getElem?_eq_some_iff.mp hm).1
  exact (List.getElem?_inj hlt table.distinct).mp (hm.trans hn.symm)

theorem number?_of_value? (h : table.value? n = some x) : table.number? x = some n := by
  obtain ⟨m, -, hm, hvalue⟩ := numbers_iff.mpr (Array.mem_of_getElem? h)
  rw [hm, value?_inj hvalue h]

theorem insert_of_value? (h : table.value? n = some x) : table.insert x = table := by
  rw [insert, dif_pos (Array.mem_of_getElem? h)]

/-- A value that is new gets the next number. -/
theorem values_insert (h : ∀ n, table.value? n ≠ some x) : (table.insert x).values = table.values.push x := by
  have hnew : x ∉ table.values := fun hx => by
    obtain ⟨n, hn⟩ := Array.getElem?_of_mem hx
    exact h n hn
  rw [insert, dif_neg hnew]

/-- A value that is new gets the next number. -/
theorem value?_insert (h : ∀ n, table.value? n ≠ some x) (n : Nat) :
    (table.insert x).value? n = if n = table.size then some x else table.value? n := by
  rw [value?, values_insert h]
  exact Array.getElem?_push

theorem size_insert (h : ∀ n, table.value? n ≠ some x) : (table.insert x).size = table.size + 1 := by
  rw [size, values_insert h]
  exact Array.size_push x

theorem value?_eq_none (h : table.size ≤ n) : table.value? n = none := Array.getElem?_eq_none h

theorem exists_value? (h : n < table.size) : ∃ x, table.value? n = some x := ⟨_, Array.getElem?_eq_getElem h⟩

theorem lt_size_of_value? (h : table.value? n = some x) : n < table.size := (Array.getElem?_eq_some_iff.mp h).1

/-! ## Nodes -/

/-- The values that nodes mean, if their parts are numbers of a table. -/
inductive Means (table : ValueTable) : ValueNode → Value → Prop
  | unknown : table.Means .unknown .unknown
  | var (id : VariableId) (viaMethods : Bool) : table.Means (.var id viaMethods) (.var id viaMethods)
  | constant (c : Constant) : table.Means (.constant c) (.constant c)
  | relation {left right : Nat} {x y : Value} (kind : RelationKind) (negated : Bool) (hl : table.value? left = some x)
      (hr : table.value? right = some y) : table.Means (.relation kind negated left right) (.relation kind negated x y)
  | typed (type : JvmType) (nullness : Nullness) : table.Means (.typed type nullness) (.typed type nullness)
  | notNull (type : JvmType) : table.Means (.notNull type) (.notNull type)
  | boxed {wrapped : Nat} {x : Value} (h : table.value? wrapped = some x) : table.Means (.boxed wrapped) (.boxed x)
  | unboxed {wrapper : Nat} {x : Value} (h : table.value? wrapper = some x) :
      table.Means (.unboxed wrapper) (.unboxed x)

variable {v w : ValueNode}

/-- A node means one value only. -/
theorem Means.value_eq (hx : table.Means v x) (hy : table.Means v y) : x = y := by
  cases hx <;> cases hy
  case relation.relation hl hr _ _ hl' hr' =>
    rw [Option.some.inj (hl.symm.trans hl'), Option.some.inj (hr.symm.trans hr')]
  case boxed.boxed h _ h' => rw [Option.some.inj (h.symm.trans h')]
  case unboxed.unboxed h _ h' => rw [Option.some.inj (h.symm.trans h')]
  all_goals rfl

/-- **Nodes that mean the same are one,** as no value has two numbers. -/
theorem Means.node_eq (hv : table.Means v x) (hw : table.Means w x) : v = w := by
  cases hv <;> cases hw
  case relation.relation hl hr _ _ hl' hr' => rw [value?_inj hl hl', value?_inj hr hr']
  case boxed.boxed h _ h' => rw [value?_inj h h']
  case unboxed.unboxed h _ h' => rw [value?_inj h h']
  all_goals rfl

/-- A node means the same by the numbers of another table, if its parts have these numbers there. -/
theorem Means.rename {σ : Nat → Nat} (h : table.Means v x)
    (hnumbers : ∀ n y, table.value? n = some y → table'.value? (σ n) = some y) : table'.Means (v.rename σ) x := by
  cases h with
  | relation kind negated hl hr => exact .relation kind negated (hnumbers _ _ hl) (hnumbers _ _ hr)
  | boxed h => exact .boxed (hnumbers _ _ h)
  | unboxed h => exact .unboxed (hnumbers _ _ h)
  | _ => constructor

/-- A table that keeps the numbers of another one keeps what nodes mean. -/
theorem Means.mono (h : table.Means v x) (hkeeps : ∀ n y, table.value? n = some y → table'.value? n = some y) :
    table'.Means v x := by
  rw [← v.rename_id]
  exact h.rename hkeeps

theorem Means.isTracked (h : table.Means v x) : v.isTracked = x.isTracked := by
  cases h <;> rfl

theorem Means.isComparablePair (hv : table.Means v x) (hw : table.Means w y) :
    ValueNode.isComparablePair v w = Value.isComparablePair x y := by
  cases hv <;> cases hw <;> rfl

/-! ## Replies -/

/-- The value that a reply stands for. -/
inductive MeansReply (table : ValueTable) : ValueReply → Option Value → Prop
  | none : table.MeansReply .none none
  | kept {n : Nat} {x : Value} (h : table.value? n = some x) : table.MeansReply (.kept n) (some x)
  | made {v : ValueNode} {x : Value} (h : table.Means v x) : table.MeansReply (.made v) (some x)

/-- A comparison of nodes is one of what they mean, with the same sides in the same order. -/
theorem Means.compare (hv : table.Means v x) (hw : table.Means w y) (hm : table.value? m = some x)
    (hn : table.value? n = some y) (operator : BinaryOperator) (negated : Bool) :
    table.MeansReply (v.compare w m n operator negated) (x.compare? y operator negated) := by
  unfold ValueNode.compare Value.compare?
  cases Value.canonical? operator with
  | none => exact .none
  | some canonical =>
    obtain ⟨kind, flip⟩ := canonical
    simp only [Option.bind_eq_bind, Option.bind_some, hv.isTracked, hw.isTracked, hv.isComparablePair hw,
      hw.isComparablePair hv]
    -- a test of a type is never mirrored
    by_cases hkind : kind = .instanceOf
    · simp only [hkind, if_true, ite_self]
      split
      · exact .made (.relation _ _ hm hn)
      · exact .none
    · simp only [hkind, if_false]
      repeat' split
      all_goals first | exact .made (.relation _ _ hm hn) | exact .made (.relation _ _ hn hm) | exact .none

/-- Boxing a node gives what means the boxed value. -/
theorem Means.box (h : table.Means v x) (hx : table.value? n = some x) : table.MeansReply (v.box n) x.box? := by
  cases h with
  | unboxed hwrapper => exact .kept hwrapper
  | var id viaMethods => exact .made (.boxed hx)
  | constant c =>
    rw [ValueNode.box, Value.box?]
    split
    · exact .none
    · exact .made (.boxed hx)
  | _ => exact .none

/-! ## The numbers of two tables -/

/-- The numbers of one table are those of another one under other names: a bijection, under which they name the same
values. -/
structure Renames (σ : Nat → Nat) (table table' : ValueTable) : Prop where
  bijOn : Set.BijOn σ {n | n < table.size} {n | n < table'.size}
  value : ∀ n x, table.value? n = some x → table'.value? (σ n) = some x

/-- The number that another table has for the value of `n`. -/
def renumber (table table' : ValueTable) (n : Nat) : Nat := ((table.value? n).bind table'.number?).getD 0

theorem value?_renumber (h : ∀ x, x ∈ table.values → x ∈ table'.values) (hx : table.value? n = some x) :
    table'.value? (table.renumber table' n) = some x := by
  obtain ⟨m, -, hm, hvalue⟩ := numbers_iff.mpr (h x (Array.mem_of_getElem? hx))
  rw [renumber, hx, Option.bind_some, hm, Option.getD_some]
  exact hvalue

/-- **Tables of the same values differ in the numbers only.** A number is sent to the one that the other table has for
its value. -/
theorem renames_renumber (h : ∀ x, x ∈ table.values ↔ x ∈ table'.values) :
    Renames (table.renumber table') table table' := by
  have hvalue : ∀ n x, table.value? n = some x → table'.value? (table.renumber table' n) = some x :=
    fun n x hx => value?_renumber (fun x => (h x).mp) hx
  refine ⟨⟨fun n hn => ?_, fun m hm n hn heq => ?_, fun m hm => ?_⟩, hvalue⟩
  · obtain ⟨x, hx⟩ := exists_value? hn
    exact lt_size_of_value? (hvalue n x hx)
  · -- numbers with one image have one value
    obtain ⟨x, hx⟩ := exists_value? hm
    obtain ⟨y, hy⟩ := exists_value? hn
    have hxy : some x = some y := (hvalue m x hx).symm.trans ((congrArg table'.value? heq).trans (hvalue n y hy))
    exact value?_inj hx (hy.trans hxy.symm)
  · -- a number is the image of the one that its value has
    obtain ⟨x, hx⟩ := exists_value? hm
    have hback : table.value? (table'.renumber table m) = some x := value?_renumber (fun x => (h x).mpr) hx
    exact ⟨_, lt_size_of_value? hback, value?_inj (hvalue _ x hback) hx⟩

end ValueTable

namespace Interner

variable {s : Scope} {t u : Interner} {table : ValueTable} {n : Nat} {v : ValueNode} {x : Value}
  {rs : List ValueRequest} {as : List (Option Nat)}

/-- An interner and a table of values in step: the nodes mean the values. -/
structure Represents (t : Interner) (table : ValueTable) : Prop where
  size : t.nodes.size = table.size
  means : ∀ n v, t.node? n = some v → ∃ x, table.value? n = some x ∧ table.Means v x

/-- A number has a node and a value that the node means, or neither. -/
theorem Represents.number_cases (h : t.Represents table) (n : Nat) :
    (t.node? n = none ∧ table.value? n = none) ∨
      ∃ v x, t.node? n = some v ∧ table.value? n = some x ∧ table.Means v x := by
  by_cases hn : n < t.nodes.size
  · obtain ⟨v, hv⟩ := exists_node? hn
    obtain ⟨x, hx, hmeans⟩ := h.means n v hv
    exact Or.inr ⟨v, x, hv, hx, hmeans⟩
  · have hn : t.nodes.size ≤ n := Nat.le_of_not_lt hn
    exact Or.inl ⟨node?_eq_none hn, ValueTable.value?_eq_none (h.size ▸ hn)⟩

theorem Represents.exists_node? (h : t.Represents table) (hx : table.value? n = some x) :
    ∃ v, t.node? n = some v ∧ table.Means v x := by
  obtain ⟨-, hnone⟩ | ⟨v, y, hv, hy, hmeans⟩ := h.number_cases n
  · cases hnone.symm.trans hx
  · obtain rfl : y = x := Option.some.inj (hy.symm.trans hx)
    exact ⟨v, hv, hmeans⟩

theorem Represents.value?_of_node? (h : t.Represents table) (hn : t.node? n = some v) (hmeans : table.Means v x) :
    table.value? n = some x := by
  obtain ⟨y, hy, hmeans'⟩ := h.means n v hn
  rw [hy, hmeans'.value_eq hmeans]

/-- The reserved nodes mean the values that each table starts with. -/
theorem represents_initial : initial.Represents .initial := by
  have hnode : ∀ n, initial.node? n = reserved[n]? := fun n => by
    rw [node?, nodes_initial, List.getElem?_toArray]
  refine ⟨by rw [nodes_initial]; rfl, fun n v hv => ?_⟩
  rw [hnode] at hv
  rcases n with _ | _ | _ | _ | n <;> cases hv
  · exact ⟨_, rfl, .unknown⟩
  all_goals exact ⟨_, rfl, .constant _⟩

/-! ## One request -/

section Reply

variable (h : t.Represents table) (hc : t.Canonical)
include h hc

theorem Represents.meansReply_unknown : table.MeansReply (.kept unknown) (some .unknown) :=
  .kept (h.value?_of_node? hc.node?_unknown .unknown)

/-- An operand is replied to by a node that means its value. -/
theorem Represents.meansReply_replyTo (s : Scope) (o : Operand) :
    table.MeansReply (s.replyTo o) (some (s.valueOf o)) := by
  cases o with
  | var id viaMethods =>
    rw [Scope.replyTo, Scope.valueOf, Scope.variableValue]
    split
    · exact .made (.var id viaMethods)
    · exact h.meansReply_unknown hc
  | constant c => exact .made (.constant c)
  | typed type nullness => exact .made (.typed type nullness)
  | notNull type => exact .made (.notNull type)
  | unknown => exact h.meansReply_unknown hc

/-- A negated node means the negated value. -/
theorem Represents.meansReply_negate (hx : table.value? n = some x) (hmeans : table.Means v x) :
    table.MeansReply (v.negate n) (some x.negate) := by
  cases hmeans with
  | relation kind negated hl hr => exact .made (.relation kind (!negated) hl hr)
  | constant c =>
    cases c with
    | boolean b => exact .kept (h.value?_of_node? (hc.node?_boolean !b) (.constant _))
    | _ => exact .kept hx
  | _ => exact .kept hx

/-- An unboxed node means the unboxed value. -/
theorem Represents.meansReply_unbox (hx : table.value? n = some x) (hmeans : table.Means v x) :
    table.MeansReply (v.unbox n) (some x.unbox) := by
  cases hmeans with
  | boxed hwrapped => exact .kept hwrapped
  | constant c => exact .kept hx
  | var id viaMethods => exact .made (.unboxed hx)
  | _ => exact h.meansReply_unknown hc

/-- **What is done about a request stands for the value that is asked for.** -/
theorem Represents.reply (s : Scope) (r : ValueRequest) :
    Option.Rel table.MeansReply (t.reply? s r) (table.valueFor? s r) := by
  cases r with
  | operand o => exact .some (h.meansReply_replyTo hc s o)
  | compare left right operator negated =>
    obtain ⟨hv, hx⟩ | ⟨v, x, hv, hx, hvx⟩ := h.number_cases left
    · simp only [reply?, ValueTable.valueFor?, hv, hx]
      exact .none
    · obtain ⟨hw, hy⟩ | ⟨w, y, hw, hy, hwy⟩ := h.number_cases right
      · simp only [reply?, ValueTable.valueFor?, hv, hx, hw, hy]
        exact .none
      · simp only [reply?, ValueTable.valueFor?, hv, hx, hw, hy]
        exact .some (hvx.compare hwy hx hy operator negated)
  | negate n =>
    obtain ⟨hv, hx⟩ | ⟨v, x, hv, hx, hmeans⟩ := h.number_cases n <;> rw [reply?, ValueTable.valueFor?, hv, hx]
    · exact .none
    · exact .some (h.meansReply_negate hc hx hmeans)
  | box n =>
    obtain ⟨hv, hx⟩ | ⟨v, x, hv, hx, hmeans⟩ := h.number_cases n <;> rw [reply?, ValueTable.valueFor?, hv, hx]
    · exact .none
    · exact .some (hmeans.box hx)
  | unbox n =>
    obtain ⟨hv, hx⟩ | ⟨v, x, hv, hx, hmeans⟩ := h.number_cases n <;> rw [reply?, ValueTable.valueFor?, hv, hx]
    · exact .none
    · exact .some (h.meansReply_unbox hc hx hmeans)

end Reply

/-! ## In step -/

/-- The same answer, and after it an interner and a table that are in step. -/
def InStep {α : Type} (p : α × Interner) (q : α × ValueTable) : Prop := p.1 = q.1 ∧ p.2.Represents q.2

/-- A node that is new means a value that is new, since equal values would have equal nodes. -/
theorem Represents.ne_of_new (h : t.Represents table) (hmeans : table.Means v x) (hnew : ∀ n, t.node? n ≠ some v) :
    ∀ n, table.value? n ≠ some x := by
  intro n hx
  obtain ⟨w, hw, hmeans'⟩ := h.exists_node? hx
  exact hnew n (hw.trans (congrArg some (hmeans'.node_eq hmeans)))

/-- A node that is new means a value that is new, and both get the next number. -/
theorem Represents.push (h : t.Represents table) (hmeans : table.Means v x) (hnew : ∀ n, t.node? n ≠ some v) :
    (table.insert x).number? x = some t.nodes.size ∧ (t.push v).Represents (table.insert x) := by
  have hvalue := ValueTable.value?_insert (h.ne_of_new hmeans hnew)
  have hkeeps : ∀ n y, table.value? n = some y → (table.insert x).value? n = some y := fun n y hy => by
    have hn : n ≠ table.size := fun hn => by
      rw [ValueTable.value?_eq_none (Nat.le_of_eq hn.symm)] at hy
      cases hy
    rw [hvalue, if_neg hn, hy]
  refine ⟨ValueTable.number?_of_value? (by rw [hvalue, h.size, if_pos rfl]), ?_, fun n w hw => ?_⟩
  · rw [ValueTable.size_insert (h.ne_of_new hmeans hnew), ← h.size, Interner.push, Array.size_push]
  · rw [node?_push] at hw
    split at hw
    · -- the value behind the last one
      rename_i hn
      obtain rfl : v = w := Option.some.inj hw
      exact ⟨x, by rw [hvalue, hn, h.size, if_pos rfl], hmeans.mono hkeeps⟩
    · obtain ⟨y, hy, hmeans'⟩ := h.means n w hw
      exact ⟨y, hkeeps n y hy, hmeans'.mono hkeeps⟩

/-- A reply is settled by the same number on both sides: that of a node that is there, or the next one. -/
theorem Represents.settle (h : t.Represents table) (hc : t.Canonical) {reply : ValueReply} {value : Option Value}
    (hreply : table.MeansReply reply value) : InStep (t.settle reply) (table.settle value) := by
  cases hreply with
  | none => exact ⟨rfl, h⟩
  | kept hx =>
    rw [Interner.settle, ValueTable.settle, ValueTable.insert_of_value? hx, ValueTable.number?_of_value? hx]
    exact ⟨rfl, h⟩
  | @made v x hmeans =>
    rw [Interner.settle, ValueTable.settle]
    -- the node is there, and then so is its value, or both are new
    obtain ⟨n, hn, heq⟩ | ⟨hnew, heq⟩ := intern_cases hc.indexed v <;> rw [heq]
    · have hx : table.value? n = some x := h.value?_of_node? hn hmeans
      rw [ValueTable.insert_of_value? hx, ValueTable.number?_of_value? hx]
      exact ⟨rfl, h⟩
    · obtain ⟨hnumber, hrepresents⟩ := h.push hmeans hnew
      exact ⟨hnumber.symm, hrepresents⟩

/-- **A request is answered by both or by none, and they stay in step.** -/
theorem Represents.answer (h : t.Represents table) (hc : t.Canonical) (s : Scope) (r : ValueRequest) :
    Option.Rel InStep (t.answer? s r) (table.answer? s r) := by
  unfold answer? ValueTable.answer?
  exact optionRel_map (h.reply hc s r) fun _ _ hreply => h.settle hc hreply

/-- **By induction, so are all requests that are made in turn.** -/
theorem Represents.answerAll (h : t.Represents table) (hc : t.Canonical) (s : Scope) (rs : List ValueRequest) :
    Option.Rel InStep (ValueRequest.answerAll? (answer? s) t rs)
      (ValueRequest.answerAll? (ValueTable.answer? s) table rs) := by
  induction rs generalizing t table with
  | nil => exact .some ⟨rfl, h⟩
  | cons r rs ih =>
    simp only [ValueRequest.answerAll?]
    refine optionRel_bind (h.answer hc s r) fun p q hfirst hstep => ?_
    refine optionRel_bind (ih hstep.2 (hc.answer hfirst).1) fun p' q' _ hrest => ?_
    exact .some ⟨congrArg₂ List.cons hstep.1 hrest.1, hrest.2⟩

/-- What the table of nodes answers, a table of values answers too. -/
theorem Represents.exists_table (h : t.Represents table) (hc : t.Canonical)
    (ha : ValueRequest.answerAll? (answer? s) t rs = some (as, u)) :
    ∃ table', ValueRequest.answerAll? (ValueTable.answer? s) table rs = some (as, table') ∧ u.Represents table' := by
  have hrel := h.answerAll hc s rs
  rw [ha] at hrel
  generalize ValueRequest.answerAll? (ValueTable.answer? s) table rs = run at hrel ⊢
  cases hrel with
  | @some _ q hstep => exact ⟨q.2, congrArg some (Prod.ext hstep.1.symm rfl), hstep.2⟩

/-- What a table of values answers, the table of nodes answers too. -/
theorem Represents.exists_interner (h : t.Represents table) (hc : t.Canonical) {table' : ValueTable}
    (ha : ValueRequest.answerAll? (ValueTable.answer? s) table rs = some (as, table')) :
    ∃ u, ValueRequest.answerAll? (answer? s) t rs = some (as, u) := by
  have hrel := h.answerAll hc s rs
  rw [ha] at hrel
  generalize ValueRequest.answerAll? (answer? s) t rs = run at hrel ⊢
  cases hrel with
  | @some p _ hstep => exact ⟨p.2, congrArg some (Prod.ext hstep.1 rfl)⟩

/-- A value is made from the variable that its nodes lead to. -/
theorem Represents.base?_eq (h : t.Represents table) {depth : Nat} {b : Option VariableId}
    (hb : t.base? depth n = some b) (hx : table.value? n = some x) : b = x.base? := by
  induction depth generalizing n x with
  | zero => cases hb
  | succ depth ih =>
    obtain ⟨v, hv, hmeans⟩ := h.exists_node? hx
    rw [base?, hv] at hb
    cases hmeans with
    | boxed hwrapped => exact (ih hb hwrapped).trans rfl
    | unboxed hwrapper => exact (ih hb hwrapper).trans rfl
    | _ => exact (Option.some.inj hb).symm

/-- **The nodes are renamed with the numbers.** What is under a number of the one interner is under the number that it
is renamed to in the other one, with its parts renamed. -/
theorem Represents.node?_rename {σ : Nat → Nat} {table' : ValueTable} (h : t.Represents table)
    (h' : u.Represents table') (hσ : ValueTable.Renames σ table table') (hn : t.node? n = some v) :
    u.node? (σ n) = some (v.rename σ) := by
  obtain ⟨x, hx, hmeans⟩ := h.means n v hn
  obtain ⟨w, hw, hmeans'⟩ := h'.exists_node? (hσ.value n x hx)
  rw [hw, hmeans'.node_eq (hmeans.rename hσ.value)]

/-! ## The headline -/

/-- **Canonical forms.** Whatever was asked for, an interner is lawful. It has at most one value for each request, apart
from those that it begins with, so 32 bits are enough for the numbers up to about 2³² requests. The answers are those of
the table of values, and the nodes mean the values there. -/
theorem canonical_forms (s : Scope) (rs : List ValueRequest) (as : List (Option Nat)) (t : Interner)
    (ha : ValueRequest.answerAll? (answer? s) initial rs = some (as, t)) :
    t.Lawful s ∧ t.nodes.size ≤ rs.length + 4 ∧ (∀ n, some n ∈ as → n < t.nodes.size) ∧
      ∃ table, ValueRequest.answerAll? (ValueTable.answer? s) .initial rs = some (as, table) ∧ t.Represents table ∧
        ∀ n x, table.value? n = some x → t.base? 2 n = some x.base? := by
  obtain ⟨ht, -, hsize, hanswers⟩ := canonical_initial.answerAll ha
  obtain ⟨table, hrun, hrepresents⟩ := represents_initial.exists_table canonical_initial ha
  refine ⟨ht.lawful s, ?_, hanswers, table, hrun, hrepresents, fun n x hx => ?_⟩
  · rw [nodes_initial] at hsize
    exact Nat.add_comm _ _ ▸ hsize
  · obtain ⟨v, hv, -⟩ := hrepresents.exists_node? hx
    obtain ⟨b, hb⟩ := ht.exists_base? (lt_size_of_node? hv)
    rw [hb 0, hrepresents.base?_eq (hb 0) hx]

/-- A variable is boxed, unboxed and compared with a constant, in either order. Null has no boxed form. -/
theorem canonical_forms_of_variable :
    let s : Scope := ⟨[⟨"x", .primitive .int, .field, false, []⟩], .empty⟩
    let rs : List ValueRequest :=
      [.operand (.var 0 false), .unbox 4, .box 5, .box 4, .unbox 6, .operand (.constant (.integer 1)),
        .compare 4 7 .lt false, .compare 7 4 .gt false, .negate 8, .compare 4 7 .ge false, .box 1]
    let as := [some 4, some 5, some 4, some 6, some 4, some 7, some 8, some 8, some 9, some 9, none]
    ∃ t, ValueRequest.answerAll? (answer? s) initial rs = some (as, t) ∧ t.Lawful s := by
  intro s rs as
  -- the answers are those of the table, which can be evaluated
  have htable : (ValueRequest.answerAll? (ValueTable.answer? s) .initial rs).map Prod.fst = some as := by
    decide +kernel
  obtain ⟨p, hp, hfst⟩ := Option.map_eq_some_iff.mp htable
  have hp : ValueRequest.answerAll? (ValueTable.answer? s) .initial rs = some (as, p.2) :=
    hp.trans (congrArg some (Prod.ext hfst rfl))
  obtain ⟨t, ht⟩ := represents_initial.exists_interner canonical_initial hp
  exact ⟨t, ht, (canonical_forms s rs as t ht).1⟩

end Interner

end NullCheck
