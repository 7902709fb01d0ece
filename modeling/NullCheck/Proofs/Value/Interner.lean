import Mathlib.Data.List.Nodup
import Std.Data.HashMap.Lemmas
import NullCheck.Value.Interner

/-!
# What an interner keeps

Whatever it is asked for, an interner keeps an exact index of its nodes, so that none is there twice, and the parts of a
value come up before the value. Nothing else is needed to read off the laws of boxing, of opposite conditions and of
comparisons with the operands exchanged, as a node that is asked for again is found under the number that it has.

## The architecture

* **`Interner.Canonical`**: the invariant; **`Interner.Canonical.intern`**: the step for one node.
* **`Interner.Replies`**: all that is done about requests, one constructor for each kind.
* **`Interner.Canonical.answer`**, **`Interner.Canonical.answerAll`**: the step for a request, and the run.
* **`Interner.answer?_again`**: a request that is made again later gets the same answer.
* **`Interner.unbox_box`**, **`Interner.box_unbox`**, **`Interner.negate_negate`**, **`Interner.negate_compare`**,
  **`Interner.compare_mirrored`**: the laws; **`Interner.Lawful`**: all of them, one field for each.
-/

namespace NullCheck

namespace BinaryOperator

variable {o o' : BinaryOperator}

/-- The comparison that holds just if this one does not. -/
def opposite? : BinaryOperator → Option BinaryOperator
  | .eq => some .ne
  | .ne => some .eq
  | .lt => some .ge
  | .ge => some .lt
  | .gt => some .le
  | .le => some .gt
  | _ => none

/-- The comparison that says the same of the operands exchanged. -/
def mirrored? : BinaryOperator → Option BinaryOperator
  | .eq => some .eq
  | .ne => some .ne
  | .lt => some .gt
  | .gt => some .lt
  | .le => some .ge
  | .ge => some .le
  | _ => none

/-- The opposite of an operator has the same canonical kind, negated. -/
theorem canonical?_of_opposite? (h : o.opposite? = some o') : ∃ kind flip,
    Value.canonical? o = some (kind, flip) ∧ Value.canonical? o' = some (kind, !flip) := by
  cases o <;> cases h <;> exact ⟨_, _, rfl, rfl⟩

/-- The mirror image of an operator has the mirrored kind, negated or not as before. -/
theorem canonical?_of_mirrored? (h : o.mirrored? = some o') : ∃ kind flip, kind ≠ .instanceOf ∧
    Value.canonical? o = some (kind, flip) ∧ Value.canonical? o' = some (kind.flipped, flip) := by
  cases o <;> cases h <;> exact ⟨_, _, by decide, rfl, rfl⟩

end BinaryOperator

namespace ValueNode

/-- Whether a node is that of a constant other than null. -/
def isNonNullConstant : ValueNode → Bool
  | .constant c => !c.isNull
  | _ => false

theorem exists_eq_var {v : ValueNode} (h : v.isVar = true) : ∃ id viaMethods, v = .var id viaMethods := by
  cases v <;> first | exact ⟨_, _, rfl⟩ | cases h

/-- The values that have a boxed form of their own. -/
def IsBoxable (v : ValueNode) : Prop := v.isVar = true ∨ v.isNonNullConstant = true

/-- What may stand in a wrapper is boxed to a node of its own. -/
theorem box_of_isBoxable {v : ValueNode} (h : v.IsBoxable) (n : Nat) : v.box n = .made (.boxed n) := by
  rcases h with h | h
  · obtain ⟨id, viaMethods, rfl⟩ := exists_eq_var h
    rfl
  · cases v with
    | constant c =>
      have hnull : c.isNull = false := by simpa [isNonNullConstant] using h
      rw [box, hnull, if_neg Bool.false_ne_true]
    | _ => cases h

/-- A value is boxed, or it was unboxed from what is its boxed form then. -/
theorem box_cases (v : ValueNode) (n : Nat) :
    (∃ wrapper, v = .unboxed wrapper ∧ v.box n = .kept wrapper) ∨ (v.IsBoxable ∧ v.box n = .made (.boxed n)) ∨
      v.box n = .none := by
  cases v with
  | unboxed wrapper => exact Or.inl ⟨wrapper, rfl, rfl⟩
  | var id viaMethods => exact Or.inr (Or.inl ⟨Or.inl rfl, rfl⟩)
  | constant c =>
    by_cases hnull : c.isNull = true
    · exact Or.inr (Or.inr (by rw [box, if_pos hnull]))
    · have hboxable : (constant c).IsBoxable := Or.inr (by simpa [isNonNullConstant] using hnull)
      exact Or.inr (Or.inl ⟨hboxable, box_of_isBoxable hboxable n⟩)
  | _ => exact Or.inr (Or.inr rfl)

/-- Opposite comparisons of the same operands have opposite nodes, or there are none. -/
theorem compare_opposite {v x : ValueNode} {left right : Nat} {o o' : BinaryOperator} {negated : Bool}
    (h : o.opposite? = some o') :
    (v.compare x left right o negated = .none ∧ v.compare x left right o' negated = .none) ∨
      ∃ kind b m n, v.compare x left right o negated = .made (.relation kind b m n) ∧
        v.compare x left right o' negated = .made (.relation kind (!b) m n) := by
  obtain ⟨kind, flip, ho, ho'⟩ := BinaryOperator.canonical?_of_opposite? h
  unfold compare
  rw [ho, ho']
  simp only [Bool.xor_not]
  -- the operands are arranged with no regard to the negation
  repeat' split
  all_goals first | exact Or.inl ⟨rfl, rfl⟩ | exact Or.inr ⟨_, _, _, _, rfl, rfl⟩

/-- Of a comparison and the mirrored one the node is the same, with the tracked operand on the left. -/
theorem compare_mirrored {v x : ValueNode} {left right : Nat} {o o' : BinaryOperator} {negated : Bool}
    (h : o.mirrored? = some o') (hone : v.isTracked ≠ x.isTracked) :
    ∃ y, v.compare x left right o negated = .made y ∧ x.compare v right left o' negated = .made y := by
  obtain ⟨kind, flip, hkind, ho, ho'⟩ := BinaryOperator.canonical?_of_mirrored? h
  have hflipped : kind.flipped ≠ .instanceOf := fun h => hkind (RelationKind.eq_instanceOf_of_flipped h)
  have htwice : kind.flipped.flipped = kind := by cases kind <;> rfl
  unfold compare
  rw [ho, ho']
  cases hv : v.isTracked <;> cases hx : x.isTracked
  · exact absurd (hv.trans hx.symm) hone
  · exact ⟨.relation kind.flipped (negated ^^ flip) right left, by simp [hkind], by simp⟩
  · exact ⟨.relation kind (negated ^^ flip) left right, by simp, by simp [hflipped, htwice]⟩
  · exact absurd (hv.trans hx.symm) hone

end ValueNode

namespace Interner

variable {s : Scope} {t u w : Interner} {v x : ValueNode} {m n : Nat} {r : ValueRequest} {a : Option Nat}

theorem node?_eq_none (h : t.nodes.size ≤ n) : t.node? n = none := Array.getElem?_eq_none h

theorem lt_size_of_node? (h : t.node? n = some v) : n < t.nodes.size := (Array.getElem?_eq_some_iff.mp h).1

theorem exists_node? (h : n < t.nodes.size) : ∃ v, t.node? n = some v := ⟨_, Array.getElem?_eq_getElem h⟩

/-- The numbers of one interner name the same nodes in another one. -/
def Keeps (t u : Interner) : Prop := ∀ ⦃n v⦄, t.node? n = some v → u.node? n = some v

theorem Keeps.refl (t : Interner) : t.Keeps t := fun _ _ h => h

theorem Keeps.trans (htu : t.Keeps u) (huw : u.Keeps w) : t.Keeps w := fun _ _ h => huw (htu h)

theorem Keeps.lt_size (h : t.Keeps u) (hn : n < t.nodes.size) : n < u.nodes.size := by
  obtain ⟨v, hv⟩ := exists_node? hn
  exact lt_size_of_node? (h hv)

/-! ## One node -/

/-- The index and the nodes agree. -/
def Indexed (t : Interner) : Prop := ∀ v n, t.numbers[v]? = some n ↔ t.node? n = some v

/-- No node is there twice. -/
theorem Indexed.eq (h : t.Indexed) (hm : t.node? m = some v) (hn : t.node? n = some v) : m = n :=
  Option.some.inj (((h v m).mpr hm).symm.trans ((h v n).mpr hn))

/-- A node behind the last one. -/
def push (t : Interner) (v : ValueNode) : Interner := ⟨t.nodes.push v, t.numbers.insert v t.nodes.size⟩

/-- A node that is pushed gets the next number, and no other number changes. -/
theorem node?_push (t : Interner) (v : ValueNode) (n : Nat) :
    (t.push v).node? n = if n = t.nodes.size then some v else t.node? n := Array.getElem?_push

theorem keeps_push (t : Interner) (v : ValueNode) : t.Keeps (t.push v) := by
  intro n x hx
  rw [node?_push, if_neg (Nat.ne_of_lt (lt_size_of_node? hx)), hx]

/-- The index still inverts the nodes when a node is pushed that was not among them. -/
theorem Indexed.push (h : t.Indexed) (hnew : ∀ n, t.node? n ≠ some v) : (t.push v).Indexed := by
  intro x n
  show (t.numbers.insert v t.nodes.size)[x]? = some n ↔ _
  rw [Std.HashMap.getElem?_insert, node?_push]
  by_cases hx : v = x
  · subst hx
    by_cases hn : n = t.nodes.size
    · simp [hn]
    · simp [hn, hnew n, Ne.symm hn]
  · by_cases hn : n = t.nodes.size
    · -- the last number is free
      subst hn
      have hfree : t.numbers[x]? ≠ some t.nodes.size := by
        rw [Ne, h, node?_eq_none (Nat.le_refl _)]
        simp
      simp [hx, hfree]
    · simp [hx, hn, h x n]

/-- **A node is found under its number, or it is put behind the last one.** -/
theorem intern_cases (h : t.Indexed) (v : ValueNode) :
    (∃ n, t.node? n = some v ∧ t.intern v = (n, t)) ∨
      (∀ n, t.node? n ≠ some v) ∧ t.intern v = (t.nodes.size, t.push v) := by
  unfold intern
  cases hv : t.numbers[v]? with
  | some n => exact Or.inl ⟨n, (h v n).mp hv, rfl⟩
  | none =>
    refine Or.inr ⟨fun n hn => ?_, rfl⟩
    rw [(h v n).mpr hn] at hv
    cases hv

theorem intern_of_node? (h : t.Indexed) (hn : t.node? n = some v) : t.intern v = (n, t) := by
  rw [intern, (h v n).mpr hn]

/-- Interning adds at the end, if at all. -/
theorem keeps_intern (h : t.Indexed) (v : ValueNode) : t.Keeps (t.intern v).2 := by
  obtain ⟨n, -, heq⟩ | ⟨-, heq⟩ := intern_cases h v <;> rw [heq]
  · exact .refl t
  · exact keeps_push t v

/-- A node has the number that it gets. -/
theorem node?_intern (h : t.Indexed) (v : ValueNode) : (t.intern v).2.node? (t.intern v).1 = some v := by
  obtain ⟨n, hn, heq⟩ | ⟨-, heq⟩ := intern_cases h v <;> rw [heq]
  · exact hn
  · rw [node?_push, if_pos rfl]

/-- Interning keeps the index an inverse of the nodes. -/
theorem Indexed.intern (h : t.Indexed) (v : ValueNode) : (t.intern v).2.Indexed := by
  obtain ⟨n, -, heq⟩ | ⟨hnew, heq⟩ := intern_cases h v <;> rw [heq]
  · exact h
  · exact h.push hnew

/-! ## The invariant -/

/-- What is demanded of the parts of a value with the given number. They come up before it, and nothing but variables
and constants other than null is boxed, nothing but variables unboxed. -/
def Fits (t : Interner) (n : Nat) : ValueNode → Prop
  | .boxed wrapped => wrapped < n ∧ ∃ v, t.node? wrapped = some v ∧ v.IsBoxable
  | .unboxed wrapper => wrapper < n ∧ ∃ v, t.node? wrapper = some v ∧ v.isVar = true
  | .relation _ _ left right => left < n ∧ right < n
  | _ => True

/-- Parts that fit a number still fit when more nodes are known. -/
theorem Fits.mono (h : t.Fits n v) (hkeeps : t.Keeps u) : u.Fits n v := by
  cases v with
  | boxed wrapped =>
    obtain ⟨hlt, x, hx, hkind⟩ := h
    exact ⟨hlt, x, hkeeps hx, hkind⟩
  | unboxed wrapper =>
    obtain ⟨hlt, x, hx, hkind⟩ := h
    exact ⟨hlt, x, hkeeps hx, hkind⟩
  | relation kind negated left right => exact h
  | _ => trivial

/-- What holds of an interner, whatever it was asked for. -/
structure Canonical (t : Interner) : Prop where
  indexed : t.Indexed
  reserved : ∀ n v, reserved[n]? = some v → t.node? n = some v
  fits : ∀ n v, t.node? n = some v → t.Fits n v

/-- **A node may be added that fits behind the last one.** -/
theorem Canonical.intern (h : t.Canonical) (hv : t.Fits t.nodes.size v) : (t.intern v).2.Canonical := by
  have hkeeps : t.Keeps (t.intern v).2 := keeps_intern h.indexed v
  refine ⟨h.indexed.intern v, fun n x hx => hkeeps (h.reserved n x hx), fun n x hx => ?_⟩
  obtain ⟨m, -, heq⟩ | ⟨-, heq⟩ := intern_cases h.indexed v <;> rw [heq] at hx ⊢
  · exact h.fits n x hx
  · rw [node?_push] at hx
    split at hx
    · rename_i hn
      obtain rfl : v = x := Option.some.inj hx
      exact hn ▸ hv.mono (keeps_push t v)
    · exact (h.fits n x hx).mono (keeps_push t v)

theorem indexed_empty : empty.Indexed := by
  intro v n
  simp [empty, node?]

theorem nodes_initial : initial.nodes = reserved.toArray := by
  simp [initial, reserved, intern, empty]

/-- The table that a search starts with is canonical: four nodes that differ, without parts. -/
theorem canonical_initial : initial.Canonical := by
  have hindexed : ∀ (vs : List ValueNode) (t : Interner), t.Indexed →
      (vs.foldl (fun t v => (t.intern v).2) t).Indexed := by
    intro vs
    induction vs with
    | nil => exact fun _ h => h
    | cons v vs ih => exact fun t h => ih _ (h.intern v)
  have hnode : ∀ n, initial.node? n = reserved[n]? := fun n => by
    rw [node?, nodes_initial, List.getElem?_toArray]
  refine ⟨hindexed reserved empty indexed_empty, fun n v hv => (hnode n).trans hv, fun n v hv => ?_⟩
  -- none of them has parts
  have hmem : v ∈ reserved := List.mem_of_getElem? ((hnode n).symm.trans hv)
  simp only [reserved, List.mem_cons, List.not_mem_nil, or_false] at hmem
  rcases hmem with rfl | rfl | rfl | rfl <;> trivial

theorem Canonical.node?_unknown (h : t.Canonical) : t.node? unknown = some .unknown := h.reserved _ _ rfl

theorem Canonical.node?_boolean (h : t.Canonical) (b : Bool) :
    t.node? (boolean b) = some (.constant (.boolean b)) := by
  cases b <;> exact h.reserved _ _ rfl

/-- What is boxed or unboxed is a variable or a constant, so that two nodes are enough to tell the variable. -/
theorem Canonical.exists_base? (h : t.Canonical) (hn : n < t.nodes.size) :
    ∃ b, ∀ depth, t.base? (depth + 2) n = some b := by
  obtain ⟨v, hv⟩ := exists_node? hn
  have hfits := h.fits n v hv
  cases v with
  | boxed wrapped =>
    obtain ⟨-, x, hx, hboxable⟩ := hfits
    cases x with
    | var id viaMethods => exact ⟨some id, fun depth => by simp only [base?, hv, hx]⟩
    | constant c => exact ⟨none, fun depth => by simp only [base?, hv, hx]⟩
    | _ => simp [ValueNode.IsBoxable, ValueNode.isVar, ValueNode.isNonNullConstant] at hboxable
  | unboxed wrapper =>
    obtain ⟨-, x, hx, hvar⟩ := hfits
    obtain ⟨id, viaMethods, rfl⟩ := ValueNode.exists_eq_var hvar
    exact ⟨some id, fun depth => by simp only [base?, hv, hx]⟩
  | var id viaMethods => exact ⟨some id, fun depth => by simp only [base?, hv]⟩
  | _ => exact ⟨none, fun depth => by simp only [base?, hv]⟩

/-! ## One request -/

/-- What is done about a request, from the nodes of what it is about. -/
inductive Replies (s : Scope) (t : Interner) : ValueRequest → ValueReply → Prop
  | operand (o : Operand) : t.Replies s (.operand o) (s.replyTo o)
  | compare {left right : Nat} {v x : ValueNode} (operator : BinaryOperator) (negated : Bool)
      (hl : t.node? left = some v) (hr : t.node? right = some x) :
      t.Replies s (.compare left right operator negated) (v.compare x left right operator negated)
  | negate {n : Nat} {v : ValueNode} (hn : t.node? n = some v) : t.Replies s (.negate n) (v.negate n)
  | box {n : Nat} {v : ValueNode} (hn : t.node? n = some v) : t.Replies s (.box n) (v.box n)
  | unbox {n : Nat} {v : ValueNode} (hn : t.node? n = some v) : t.Replies s (.unbox n) (v.unbox n)

/-- What a request is replied to by the program is what the relation says, case by case. -/
theorem reply?_eq_some_iff {reply : ValueReply} : t.reply? s r = some reply ↔ t.Replies s r reply := by
  constructor
  · intro h
    cases r with
    | operand o => exact Option.some.inj h ▸ .operand o
    | compare left right operator negated =>
      simp only [reply?, Option.bind_eq_bind, Option.bind_eq_some_iff] at h
      obtain ⟨v, hv, x, hx, hmade⟩ := h
      exact Option.some.inj hmade ▸ .compare operator negated hv hx
    | negate n =>
      obtain ⟨v, hv, rfl⟩ := Option.map_eq_some_iff.mp h
      exact .negate hv
    | box n =>
      obtain ⟨v, hv, rfl⟩ := Option.map_eq_some_iff.mp h
      exact .box hv
    | unbox n =>
      obtain ⟨v, hv, rfl⟩ := Option.map_eq_some_iff.mp h
      exact .unbox hv
  · intro h
    cases h <;> simp [reply?, *]

/-- A request about numbers that name something has a reply. -/
theorem exists_replies (s : Scope) (hr : ∀ n ∈ r.numbers, n < t.nodes.size) : ∃ reply, t.Replies s r reply := by
  cases r with
  | operand o => exact ⟨_, .operand o⟩
  | compare left right operator negated =>
    obtain ⟨v, hv⟩ := exists_node? (hr left (by simp [ValueRequest.numbers]))
    obtain ⟨x, hx⟩ := exists_node? (hr right (by simp [ValueRequest.numbers]))
    exact ⟨_, .compare operator negated hv hx⟩
  | negate n =>
    obtain ⟨v, hv⟩ := exists_node? (hr n (by simp [ValueRequest.numbers]))
    exact ⟨_, .negate hv⟩
  | box n =>
    obtain ⟨v, hv⟩ := exists_node? (hr n (by simp [ValueRequest.numbers]))
    exact ⟨_, .box hv⟩
  | unbox n =>
    obtain ⟨v, hv⟩ := exists_node? (hr n (by simp [ValueRequest.numbers]))
    exact ⟨_, .unbox hv⟩

/-- A reply takes no regard to what comes up later. -/
theorem Replies.mono {reply : ValueReply} (h : t.Replies s r reply) (hkeeps : t.Keeps u) : u.Replies s r reply := by
  cases h with
  | operand o => exact .operand o
  | compare operator negated hl hr => exact .compare operator negated (hkeeps hl) (hkeeps hr)
  | negate hn => exact .negate (hkeeps hn)
  | box hn => exact .box (hkeeps hn)
  | unbox hn => exact .unbox (hkeeps hn)

/-- What a reply makes fits behind the last node, and what it keeps is there. -/
def Admits (t : Interner) : ValueReply → Prop
  | .none => True
  | .kept n => n < t.nodes.size
  | .made v => t.Fits t.nodes.size v

/-- The value of an operand has no parts, and is a truth value or unknown by its reserved number only. -/
theorem Canonical.admits_replyTo (h : t.Canonical) (s : Scope) (o : Operand) : t.Admits (s.replyTo o) := by
  have hunknown : unknown < t.nodes.size := lt_size_of_node? h.node?_unknown
  cases o with
  | var id viaMethods =>
    rw [Scope.replyTo]
    split
    · trivial
    · exact hunknown
  | unknown => exact hunknown
  | _ => trivial

/-- A comparison is made of numbers that are known, in the order of its canonical form. -/
theorem admits_compare (hm : t.node? m = some v) (hn : t.node? n = some x) (operator : BinaryOperator)
    (negated : Bool) : t.Admits (v.compare x m n operator negated) := by
  have hm := lt_size_of_node? hm
  have hn := lt_size_of_node? hn
  unfold ValueNode.compare
  split
  · trivial
  · simp only
    repeat' split
    all_goals first | exact ⟨hm, hn⟩ | exact ⟨hn, hm⟩ | trivial

/-- A negation is made of the parts of what is negated, which are known. -/
theorem Canonical.admits_negate (h : t.Canonical) (hn : t.node? n = some v) : t.Admits (v.negate n) := by
  have hlt := lt_size_of_node? hn
  have hfits := h.fits n v hn
  cases v with
  | relation kind negated left right => exact ⟨Nat.lt_trans hfits.1 hlt, Nat.lt_trans hfits.2 hlt⟩
  | constant c =>
    cases c with
    | boolean b => exact lt_size_of_node? (h.node?_boolean !b)
    | _ => exact hlt
  | _ => exact hlt

/-- A wrapper is made of a node that is known, and that may stand in one. -/
theorem Canonical.admits_box (h : t.Canonical) (hn : t.node? n = some v) : t.Admits (v.box n) := by
  have hlt := lt_size_of_node? hn
  obtain ⟨wrapper, rfl, hbox⟩ | ⟨hboxable, hbox⟩ | hbox := v.box_cases n <;> rw [hbox]
  · exact Nat.lt_trans (h.fits n _ hn).1 hlt
  · exact ⟨hlt, v, hn, hboxable⟩
  · trivial

/-- What is unboxed is a part of a wrapper, or a new node on a variable. -/
theorem Canonical.admits_unbox (h : t.Canonical) (hn : t.node? n = some v) : t.Admits (v.unbox n) := by
  have hlt := lt_size_of_node? hn
  cases v with
  | boxed wrapped => exact Nat.lt_trans (h.fits n _ hn).1 hlt
  | constant c => exact hlt
  | var id viaMethods => exact ⟨hlt, _, hn, rfl⟩
  | _ => exact lt_size_of_node? h.node?_unknown

/-- **What is done about a request is admitted.** -/
theorem Canonical.admits (h : t.Canonical) {reply : ValueReply} (hreply : t.Replies s r reply) : t.Admits reply := by
  cases hreply with
  | operand o => exact h.admits_replyTo s o
  | compare operator negated hl hr => exact admits_compare hl hr operator negated
  | negate hn => exact h.admits_negate hn
  | box hn => exact h.admits_box hn
  | unbox hn => exact h.admits_unbox hn

/-- A reply adds one node at most. -/
theorem size_settle_le (h : t.Indexed) (reply : ValueReply) :
    (t.settle reply).2.nodes.size ≤ t.nodes.size + 1 := by
  cases reply with
  | made v =>
    obtain ⟨n, -, heq⟩ | ⟨-, heq⟩ := intern_cases h v <;> simp [settle, heq, push]
  | _ => exact Nat.le_succ _

/-- To settle what is admitted keeps the table canonical and all its numbers, and gives a number in it. -/
theorem Canonical.settle (h : t.Canonical) {reply : ValueReply} (hreply : t.Admits reply) :
    (t.settle reply).2.Canonical ∧ t.Keeps (t.settle reply).2 ∧
      ∀ n, (t.settle reply).1 = some n → n < (t.settle reply).2.nodes.size := by
  cases reply with
  | none => exact ⟨h, .refl t, fun n hn => by cases hn⟩
  | kept m => exact ⟨h, .refl t, fun n hn => Option.some.inj hn ▸ hreply⟩
  | made v =>
    refine ⟨h.intern hreply, keeps_intern h.indexed v, fun n hn => ?_⟩
    exact Option.some.inj hn ▸ lt_size_of_node? (node?_intern h.indexed v)

theorem exists_of_answer? (ha : t.answer? s r = some (a, u)) :
    ∃ reply, t.Replies s r reply ∧ t.settle reply = (a, u) := by
  obtain ⟨reply, hreply, hsettle⟩ := Option.map_eq_some_iff.mp ha
  exact ⟨reply, reply?_eq_some_iff.mp hreply, hsettle⟩

theorem Replies.answer? {reply : ValueReply} (h : t.Replies s r reply) : t.answer? s r = some (t.settle reply) := by
  rw [Interner.answer?, reply?_eq_some_iff.mpr h, Option.map_some]

/-- **An answer** leaves the numbers as they are, adds one node at most, and is a number that names something. -/
theorem Canonical.answer (h : t.Canonical) (ha : t.answer? s r = some (a, u)) :
    u.Canonical ∧ t.Keeps u ∧ u.nodes.size ≤ t.nodes.size + 1 ∧ ∀ n, a = some n → n < u.nodes.size := by
  obtain ⟨reply, hreply, hsettle⟩ := exists_of_answer? ha
  have hsize := size_settle_le h.indexed reply
  have hsettled := h.settle (h.admits hreply)
  rw [hsettle] at hsize hsettled
  exact ⟨hsettled.1, hsettled.2.1, hsize, hsettled.2.2⟩

/-- **By induction on the requests, so do all answers.** -/
theorem Canonical.answerAll (h : t.Canonical) {rs : List ValueRequest} {as : List (Option Nat)}
    (ha : ValueRequest.answerAll? (answer? s) t rs = some (as, u)) :
    u.Canonical ∧ t.Keeps u ∧ u.nodes.size ≤ t.nodes.size + rs.length ∧ ∀ n, some n ∈ as → n < u.nodes.size := by
  induction rs generalizing t as with
  | nil =>
    cases ha
    exact ⟨h, .refl _, Nat.le_refl _, by simp⟩
  | cons r rs ih =>
    simp only [ValueRequest.answerAll?, Option.bind_eq_bind, Option.bind_eq_some_iff, Prod.exists] at ha
    -- the first request is answered in `t`, the others in the table that it leaves
    obtain ⟨a, w, hfirst, as', u', hrest, hmade⟩ := ha
    cases hmade
    obtain ⟨hw, htw, hsize, hnumber⟩ := h.answer hfirst
    obtain ⟨hu, hwu, hsizes, hnumbers⟩ := ih hw hrest
    refine ⟨hu, htw.trans hwu, by rw [List.length_cons]; omega, fun n hn => ?_⟩
    rcases List.mem_cons.mp hn with hn | hn
    · exact hwu.lt_size (hnumber n hn.symm)
    · exact hnumbers n hn

/-! ## Requests that are made again -/

theorem settle_made_of_node? (h : t.Indexed) (hn : t.node? n = some v) : t.settle (.made v) = (some n, t) := by
  rw [settle, intern_of_node? h hn]

/-- **A request that is made again later gets the same answer,** and nothing is added. -/
theorem answer?_again (h : t.Canonical) (ha : t.answer? s r = some (a, u)) (hkeeps : u.Keeps w) (hw : w.Canonical) :
    w.answer? s r = some (a, w) := by
  obtain ⟨reply, hreply, hsettle⟩ := exists_of_answer? ha
  rw [(hreply.mono ((h.answer ha).2.1.trans hkeeps)).answer?]
  cases reply with
  | none | kept n =>
    cases hsettle
    rfl
  | made v =>
    cases hsettle
    rw [settle_made_of_node? hw.indexed (hkeeps (node?_intern h.indexed v))]

/-! ## The laws -/

section Laws

variable {operator o o' : BinaryOperator} {negated : Bool} {left right : Nat}

/-- What is made has a number from then on. -/
theorem Canonical.exists_made (h : t.Canonical) (hv : t.Admits (.made v)) :
    ∃ n u, t.settle (.made v) = (some n, u) ∧ u.Canonical ∧ t.Keeps u ∧ u.node? n = some v :=
  ⟨_, _, rfl, h.intern hv, keeps_intern h.indexed v, node?_intern h.indexed v⟩

/-- **To negate twice gives the number back.** -/
theorem negate_negate (h : t.Canonical) (s : Scope) (hn : n < t.nodes.size) :
    ∃ m u, t.answer? s (.negate n) = some (some m, u) ∧ u.answer? s (.negate m) = some (some n, u) := by
  obtain ⟨v, hv⟩ := exists_node? hn
  have hadmits := h.admits_negate hv
  cases v with
  | relation kind negated left right =>
    obtain ⟨m, u, hmade, hu, hkeeps, hm⟩ := h.exists_made hadmits
    refine ⟨m, u, (Replies.negate hv).answer?.trans (congrArg some hmade), ?_⟩
    rw [(Replies.negate hm).answer?, ValueNode.negate, Bool.not_not, settle_made_of_node? hu.indexed (hkeeps hv)]
  | constant c =>
    cases c with
    | boolean b =>
      -- truth values have the numbers that are reserved for them
      obtain rfl : n = boolean b := h.indexed.eq hv (h.node?_boolean b)
      refine ⟨boolean !b, t, (Replies.negate hv).answer?, ?_⟩
      rw [(Replies.negate (h.node?_boolean !b)).answer?, ValueNode.negate, Bool.not_not, settle]
    | _ => exact ⟨n, t, (Replies.negate hv).answer?, (Replies.negate hv).answer?⟩
  | _ => exact ⟨n, t, (Replies.negate hv).answer?, (Replies.negate hv).answer?⟩

/-- **To unbox what was boxed gives the number back.** -/
theorem unbox_box (h : t.Canonical) (hb : t.answer? s (.box n) = some (some m, u)) :
    u.answer? s (.unbox m) = some (some n, u) := by
  obtain ⟨reply, hreply, hsettle⟩ := exists_of_answer? hb
  cases hreply with
  | @box _ v hv =>
    have hadmits := h.admits_box hv
    obtain ⟨wrapper, rfl, hbox⟩ | ⟨-, hbox⟩ | hbox := v.box_cases n <;> rw [hbox] at hadmits hsettle
    · -- it was unboxed from a variable, and is found again
      cases hsettle
      obtain ⟨-, x, hx, hvar⟩ := h.fits n _ hv
      obtain ⟨id, viaMethods, rfl⟩ := ValueNode.exists_eq_var hvar
      rw [(Replies.unbox hx).answer?, ValueNode.unbox, settle_made_of_node? h.indexed hv]
    · obtain ⟨m', u', hmade, -, -, hm⟩ := h.exists_made hadmits
      cases hsettle.symm.trans hmade
      exact (Replies.unbox hm).answer?
    · cases hsettle

/-- **To box what a variable or a boxed value was unboxed to gives the number back.** -/
theorem box_unbox (h : t.Canonical) (s : Scope) (hn : t.node? n = some v) (hkind : v.isVar = true ∨ v.isBoxed = true) :
    ∃ m u, t.answer? s (.unbox n) = some (some m, u) ∧ u.answer? s (.box m) = some (some n, u) := by
  have hadmits := h.admits_unbox hn
  cases v with
  | var id viaMethods =>
    obtain ⟨m, u, hmade, -, -, hm⟩ := h.exists_made hadmits
    exact ⟨m, u, (Replies.unbox hn).answer?.trans (congrArg some hmade), (Replies.box hm).answer?⟩
  | boxed wrapped =>
    obtain ⟨-, x, hx, hboxable⟩ := h.fits n _ hn
    refine ⟨wrapped, t, (Replies.unbox hn).answer?, ?_⟩
    rw [(Replies.box hx).answer?, ValueNode.box_of_isBoxable hboxable, settle_made_of_node? h.indexed hn]
  | _ => simp [ValueNode.isVar, ValueNode.isBoxed] at hkind

/-- **To negate a comparison gives the opposite one,** which is another value. -/
theorem negate_compare (h : t.Canonical) (ho : o.opposite? = some o')
    (hc : t.answer? s (.compare left right o negated) = some (some n, u)) :
    ∃ m w, u.answer? s (.negate n) = some (some m, w) ∧
      w.answer? s (.compare left right o' negated) = some (some m, w) ∧ m ≠ n := by
  obtain ⟨reply, hreply, hsettle⟩ := exists_of_answer? hc
  cases hreply with
  | @compare _ _ v x _ _ hv hx =>
    have hadmits := admits_compare hv hx o negated
    obtain ⟨hnone, -⟩ | ⟨kind, b, l, r, hmade, hopposite⟩ := ValueNode.compare_opposite ho
    · rw [hnone] at hsettle
      cases hsettle
    · rw [hmade] at hadmits hsettle
      -- the comparison, then its negation, each one with its number in the table that follows
      obtain ⟨n', u', hfirst, hu, htu, hn⟩ := h.exists_made hadmits
      cases hsettle.symm.trans hfirst
      obtain ⟨m, w, hsecond, hw, huw, hm⟩ := hu.exists_made (hu.admits_negate hn)
      -- the opposite comparison is asked for in the last table, where its node is found
      have hagain : w.Replies s (.compare left right o' negated) _ :=
        .compare o' negated (huw (htu hv)) (huw (htu hx))
      refine ⟨m, w, (Replies.negate hn).answer?.trans (congrArg some hsecond), ?_, ?_⟩
      · rw [hagain.answer?, hopposite, settle_made_of_node? hw.indexed hm]
      · rintro rfl
        simpa using hm.symm.trans (huw hn)

/-- Of opposite comparisons both can be tracked or none. -/
theorem compare_opposite_none (ho : o.opposite? = some o')
    (hc : t.answer? s (.compare left right o negated) = some (none, u)) :
    t.answer? s (.compare left right o' negated) = some (none, t) := by
  obtain ⟨reply, hreply, hsettle⟩ := exists_of_answer? hc
  cases hreply with
  | compare _ _ hv hx =>
    obtain ⟨-, hnone⟩ | ⟨kind, b, l, r, hmade, -⟩ := ValueNode.compare_opposite ho
    · rw [(Replies.compare o' negated hv hx).answer?, hnone, settle]
    · rw [hmade] at hsettle
      cases hsettle

/-- **A comparison and the mirrored one have the same number,** if one operand is tracked. -/
theorem compare_mirrored (hl : t.node? left = some v) (hr : t.node? right = some x) (hone : v.isTracked ≠ x.isTracked)
    (ho : o.mirrored? = some o') (s : Scope) (negated : Bool) :
    ∃ n u, t.answer? s (.compare left right o negated) = some (some n, u) ∧
      t.answer? s (.compare right left o' negated) = some (some n, u) := by
  obtain ⟨y, hy, hmirrored⟩ := ValueNode.compare_mirrored ho hone
  refine ⟨(t.intern y).1, (t.intern y).2, ?_, ?_⟩
  · rw [(Replies.compare o negated hl hr).answer?, hy, settle]
  · rw [(Replies.compare o' negated hr hl).answer?, hmirrored, settle]

end Laws

/-- **What those who make requests in a scope rely on.** -/
structure Lawful (s : Scope) (t : Interner) : Prop where
  /-- No value is there twice. -/
  nodup : t.nodes.toList.Nodup
  /-- A value that is there is found under its number, and nothing is added. -/
  found : ∀ n v, t.node? n = some v → t.intern v = (n, t)
  /-- Whatever is asked for later, the numbers name what they name now. -/
  keeps : ∀ rs as u, ValueRequest.answerAll? (answer? s) t rs = some (as, u) → t.Keeps u
  /-- A request about numbers that name something is answered, and the answer names something then. -/
  answers : ∀ r, (∀ n ∈ r.numbers, n < t.nodes.size) →
    ∃ a u, t.answer? s r = some (a, u) ∧ ∀ n, a = some n → n < u.nodes.size
  /-- A request that is made again gets the answer that it got, and nothing is added. -/
  again : ∀ r a u, t.answer? s r = some (a, u) → ∀ rs as w, ValueRequest.answerAll? (answer? s) u rs = some (as, w) →
    w.answer? s r = some (a, w)
  boxed : ∀ n wrapped, t.node? n = some (.boxed wrapped) →
    wrapped < n ∧ ∃ v, t.node? wrapped = some v ∧ v.IsBoxable
  unboxed : ∀ n wrapper, t.node? n = some (.unboxed wrapper) →
    wrapper < n ∧ ∃ v, t.node? wrapper = some v ∧ v.isVar = true
  /-- To tell the variable from which a value is made takes no more than two nodes. -/
  base : ∀ n < t.nodes.size, ∃ b, ∀ depth, t.base? (depth + 2) n = some b
  unbox_box : ∀ n m u, t.answer? s (.box n) = some (some m, u) → u.answer? s (.unbox m) = some (some n, u)
  box_unbox : ∀ n v, t.node? n = some v → v.isVar = true ∨ v.isBoxed = true →
    ∃ m u, t.answer? s (.unbox n) = some (some m, u) ∧ u.answer? s (.box m) = some (some n, u)
  negate_negate : ∀ n < t.nodes.size,
    ∃ m u, t.answer? s (.negate n) = some (some m, u) ∧ u.answer? s (.negate m) = some (some n, u)
  negate_compare : ∀ o o', o.opposite? = some o' → ∀ left right negated n u,
    t.answer? s (.compare left right o negated) = some (some n, u) →
      ∃ m w, u.answer? s (.negate n) = some (some m, w) ∧
        w.answer? s (.compare left right o' negated) = some (some m, w) ∧ m ≠ n
  compare_opposite_none : ∀ o o', o.opposite? = some o' → ∀ left right negated u,
    t.answer? s (.compare left right o negated) = some (none, u) →
      t.answer? s (.compare left right o' negated) = some (none, t)
  /-- Of a comparison of something tracked with something that is not, and the mirrored one, the number is the same. -/
  compare_mirrored : ∀ left right v w, t.node? left = some v → t.node? right = some w → v.isTracked ≠ w.isTracked →
    ∀ o o', o.mirrored? = some o' → ∀ negated,
      ∃ n u, t.answer? s (.compare left right o negated) = some (some n, u) ∧
        t.answer? s (.compare right left o' negated) = some (some n, u)

theorem Canonical.nodup (h : t.Canonical) : t.nodes.toList.Nodup := by
  refine List.nodup_iff_getElem?_ne_getElem?.mpr fun m n hmn hn heq => ?_
  obtain ⟨v, hv⟩ := exists_node? (t := t) (n := n) (by simpa using hn)
  rw [Array.getElem?_toList, Array.getElem?_toList] at heq
  exact Nat.ne_of_lt hmn (h.indexed.eq (heq.trans hv) hv)

/-- A canonical table is lawful; each law is one of the lemmas above. -/
theorem Canonical.lawful (h : t.Canonical) (s : Scope) : t.Lawful s where
  nodup := h.nodup
  found _ _ hn := intern_of_node? h.indexed hn
  keeps _ _ _ hrun := (h.answerAll hrun).2.1
  answers r hr := by
    obtain ⟨reply, hreply⟩ := exists_replies s hr
    exact ⟨_, _, hreply.answer?, (h.settle (h.admits hreply)).2.2⟩
  again r a u ha rs as w hrun :=
    have hu := (h.answer ha).1.answerAll hrun
    answer?_again h ha hu.2.1 hu.1
  boxed n _ hn := h.fits n _ hn
  unboxed n _ hn := h.fits n _ hn
  base _ hn := h.exists_base? hn
  unbox_box _ _ _ hb := unbox_box h hb
  box_unbox _ _ hn hkind := box_unbox h s hn hkind
  negate_negate _ hn := negate_negate h s hn
  negate_compare _ _ ho _ _ _ _ _ hc := negate_compare h ho hc
  compare_opposite_none _ _ ho _ _ _ _ hc := compare_opposite_none ho hc
  compare_mirrored _ _ _ _ hl hr hone _ _ ho negated := compare_mirrored hl hr hone ho s negated

end Interner

end NullCheck
