import NullCheck.Json.Variant

/-!
# Codecs that lose nothing

What a codec writes it reads back, for values that documents can express. A codec is made of others, and so is the
proof that it loses nothing: there is one lemma for each way to make a codec. Reading opens containers, of which only
so many may be open at once; so it is kept count of how many containers lie inside each other in what is written.

## The architecture

* **`Place.HasRoom`**, **`Json.IsReadable`**: places where, and values in which, containers lie no deeper than allowed.
* **`Codec.Lossless`**: the codec loses nothing. Lemmas for scalars (`lossless_bool`, `lossless_natural`, …) and for
  containers (`Lossless.option`, `Lossless.list`, `Lossless.table`).
* **`Record.Lossless`**: the same for the members of a record, one field after the other (`lossless_make`,
  `Lossless.add`), up to the codec of a record (`Lossless.codec`).
* **`Variant.lossless_namesCodec`**, **`Variant.readByName_holding`**, **`Variant.readByName_record`**: variants that go
  by name.
* **`Tagged.Restores`**: members are read back as a tagged value (`restores_bare`, `restores_record`).
-/

namespace NullCheck

/-! ## Room for containers -/

/-- At a place, `n` more containers may be opened inside each other. -/
def Place.HasRoom (p : Place) (n : Nat) : Prop := p.depth + n ≤ Json.depthLimit

namespace Place

variable {p : Place} {n : Nat}

@[simp]
theorem hasRoom_member (name : String) : (p.member name).HasRoom n ↔ p.HasRoom n := by
  unfold member
  split <;> rfl

@[simp]
theorem hasRoom_item (index : Nat) : (p.item index).HasRoom n ↔ p.HasRoom n := by
  unfold item
  split <;> rfl

theorem HasRoom.of_succ (h : p.HasRoom (n + 1)) : p.HasRoom n := Nat.le_of_succ_le h

/-- Where there is room for a container, it is entered. -/
theorem HasRoom.enter (h : p.HasRoom (n + 1)) : ∃ inner : Place, p.enter = .ok inner ∧ inner.HasRoom n := by
  have hdepth : p.depth + (n + 1) ≤ Json.depthLimit := h
  unfold Place.enter
  by_cases hsettled : p.settled = true
  · rw [if_pos hsettled]
    exact ⟨p, rfl, h.of_succ⟩
  · rw [if_neg hsettled, if_neg (by omega)]
    exact ⟨_, rfl, show p.depth + 1 + n ≤ Json.depthLimit by omega⟩

end Place

namespace Json

variable {n : Nat}

/-- Members that have names. -/
def named (members : List (String × Json)) : List (Option String × Json) := members.map fun m => (some m.1, m.2)

/-- A value that can be read through wherever there is room for `n` containers. -/
def IsReadable (j : Json) (n : Nat) : Prop := ∀ depth, depth + n ≤ depthLimit → j.readThrough depth = none

/-- An array is one deeper than its items. -/
theorem isReadable_array {items : List Json} (h : ∀ j ∈ items, j.IsReadable n) : (array items).IsReadable (n + 1) := by
  intro depth hdepth
  have hitems : readThroughItems (depth + 1) items = none := by
    induction items with
    | nil => rfl
    | cons j js ih =>
      rw [readThroughItems, h j (by simp) _ (by omega), ih fun k hk => h k (by simp [hk])]
      rfl
  rw [array, readThrough, if_neg (by omega), hitems]
  rfl

/-- An object is one deeper than its members. -/
theorem isReadable_object {members : List (String × Json)} (h : ∀ m ∈ members, m.2.IsReadable n) :
    (object members).IsReadable (n + 1) := by
  intro depth hdepth
  have hmembers : readThroughMembers (depth + 1) (named members) = none := by
    induction members with
    | nil => rfl
    | cons m ms ih =>
      rw [named, List.map_cons, readThroughMembers, h m (by simp) _ (by omega), ← named,
        ih fun k hk => h k (by simp [hk])]
      rfl
  rw [object, readThrough, if_neg (by omega), ← named, hmembers]
  rfl

theorem isReadable_member {name : String} {j : Json} (h : j.IsReadable n) : (object [(name, j)]).IsReadable (n + 1) :=
  isReadable_object (by simpa using h)

end Json

/-! ## Codecs -/

/-- Values with the property `P` are read back as they were written, wherever there is room for `n` containers. -/
structure Codec.Lossless {α : Type} (c : Codec α) (P : α → Prop) (n : Nat) : Prop where
  read : ∀ {a}, P a → ∀ {p : Place}, p.HasRoom n → c.read p (c.write a) = .ok a
  readable : ∀ {a}, P a → (c.write a).IsReadable n

namespace Codec

variable {α : Type} {c : Codec α} {P : α → Prop} {n : Nat}

theorem lossless_bool : bool.Lossless (fun _ => True) n where
  read _ _ _ := rfl
  readable _ _ _ := rfl

theorem lossless_string : string.Lossless (fun _ => True) n where
  read _ _ _ := rfl
  readable _ _ _ := rfl

/-- A number below the limit of its kind is read back. -/
theorem lossless_natural (limit : Nat) (wanted : String) : (natural limit wanted).Lossless (· < limit) n where
  read h _ _ := if_pos h
  readable _ _ _ := rfl

theorem lossless_index : index.Lossless (· < UInt64.size) n := lossless_natural ..

theorem lossless_line : line.Lossless (· < UInt32.size) n := lossless_natural ..

theorem lossless_integer : integer.Lossless (fun i => integerLow ≤ i ∧ i ≤ integerHigh) n where
  read h _ _ := if_pos h
  readable _ _ _ := rfl

/-- What is written as text is read back if its parser takes back what is rendered. -/
theorem lossless_text {render : α → String} {parse : String → Except String α}
    (h : ∀ {a}, P a → parse (render a) = .ok a) : (text render parse).Lossless P n where
  read ha p _ := by
    simp only [text, h ha]
  readable _ _ _ := rfl

namespace Lossless

variable (hc : c.Lossless P n)
include hc

/-- A value that may be absent is read back if none is written as absent. -/
theorem option (hnull : ∀ {a}, P a → c.write a ≠ .null) : (option c).Lossless (fun o => ∀ a ∈ o, P a) n where
  read {o} ho p hp := by
    cases o with
    | none => rfl
    | some a =>
      have ha := ho a rfl
      -- `null` would be read as an absent value
      have hread : (Codec.option c).read p (c.write a) = some <$> c.read p (c.write a) := by
        simp only [Codec.option]
        split
        · exact absurd ‹_› (hnull ha)
        · rfl
      rw [show (Codec.option c).write (some a) = c.write a from rfl, hread, hc.read ha hp]
      rfl
  readable {o} ho := by
    cases o with
    | none => exact fun _ _ => rfl
    | some a => exact hc.readable (ho a rfl)

/-- The items of a list are read back one by one, each at a place with as much room. -/
theorem readItems {p : Place} (hp : p.HasRoom n) {as : List α} (has : ∀ a ∈ as, P a) (index : Nat) :
    readItems c p index (as.map c.write) = .ok as := by
  induction as generalizing index with
  | nil => rfl
  | cons a as ih =>
    rw [List.map_cons, Codec.readItems, hc.read (has a (by simp)) ((Place.hasRoom_item index).mpr hp),
      ih fun b hb => has b (by simp [hb])]
    rfl

/-- A list of what is read back is read back. -/
theorem list : (list c).Lossless (fun as => ∀ a ∈ as, P a) (n + 1) where
  read {as} has p hp := by
    obtain ⟨inner, henter, hinner⟩ := hp.enter
    simp only [Codec.list, Json.array, henter]
    show (Codec.readItems c inner 0 (as.map c.write)).bind _ = _
    rw [hc.readItems hinner has]
    rfl
  readable {as} has := by
    refine Json.isReadable_array fun j hj => ?_
    obtain ⟨a, ha, rfl⟩ := List.mem_map.mp hj
    exact hc.readable (has a ha)

/-- The entries of a table are read back in the order in which they were written. -/
theorem readTable {τ : Type} {insert : String → α → τ → τ} {p : Place} (hp : p.HasRoom n) {es : List (String × α)}
    (hes : ∀ e ∈ es, P e.2) (t : τ) :
    readTable insert c p t (Json.named (es.map fun e => (e.1, c.write e.2))) =
      .ok (es.foldl (fun t e => insert e.1 e.2 t) t) := by
  induction es generalizing t with
  | nil => rfl
  | cons e es ih =>
    simp only [List.map_cons, Json.named, Codec.readTable]
    rw [hc.read (hes e (by simp)) ((Place.hasRoom_member e.1).mpr hp)]
    exact ih (fun k hk => hes k (by simp [hk])) _

/-- A table is read back if putting its entries into the empty table makes it. -/
theorem table {τ : Type} {entries : τ → List (String × α)} {empty : τ} {insert : String → α → τ → τ}
    (hinsert : ∀ t, (entries t).foldl (fun t e => insert e.1 e.2 t) empty = t) :
    (table entries empty insert c).Lossless (fun t => ∀ e ∈ entries t, P e.2) (n + 1) where
  read {t} ht p hp := by
    obtain ⟨inner, henter, hinner⟩ := hp.enter
    simp only [Codec.table, Json.object, henter]
    show (Codec.readTable insert c inner empty (Json.named _)).bind _ = _
    rw [hc.readTable hinner ht, hinsert]
    rfl
  readable {t} ht := by
    refine Json.isReadable_object fun m hm => ?_
    obtain ⟨e, he, rfl⟩ := List.mem_map.mp hm
    exact hc.readable (ht e he)

end Lossless

end Codec

/-! ## Records -/

namespace Record

variable {ρ α β : Type} {P : ρ → Prop} {n : Nat}

/-- Members are read one after the other. -/
theorem readMembers_append (r : Record ρ α) (closed : Bool) (p : Place) (s : r.Slots)
    (ms ns : List (Option String × Json)) :
    r.readMembers closed p s (ms ++ ns) = (r.readMembers closed p s ms).bind fun s => r.readMembers closed p s ns := by
  induction ms generalizing s with
  | nil => rfl
  | cons m ms ih =>
    obtain ⟨name, j⟩ := m
    cases name with
    | none => rfl
    | some name =>
      simp only [List.cons_append, readMembers]
      -- a member with a slot; one without a slot is refused by a closed record, and else skipped
      split
      · rename_i f _
        cases hf : f p j s with
        | error e => rfl
        | ok s => exact ih s
      · split
        · rfl
        · split
          · rfl
          · exact ih s

/-- Members of other names than that of the last field are read as before. -/
theorem readMembers_add (r : Record ρ (β → α)) {name : String} (get : ρ → β) (c : Codec β) (initial : Option β)
    (p : Place) {ms : List (String × Json)} (hms : ∀ m ∈ ms, m.1 ≠ name) (s : r.Slots) (slot : Option β) :
    (r.add name get c initial).readMembers false p (s, slot) (Json.named ms) =
      (r.readMembers false p s (Json.named ms)).map fun s => (s, slot) := by
  induction ms generalizing s with
  | nil => rfl
  | cons m ms ih =>
    -- a member of another name goes where it went without the new slot
    have hput : (r.add name get c initial).put m.1 =
        (r.put m.1).map fun f p j s => do return (← f p j s.1, s.2) := if_neg (hms m (by simp))
    have ih' := ih fun k hk => hms k (by simp [hk])
    rw [show Json.named (m :: ms) = (some m.1, m.2) :: Json.named ms from rfl]
    cases hold : r.put m.1 with
    | none =>
      have hnone : (r.add name get c initial).put m.1 = none := hput.trans (by rw [hold]; rfl)
      simp only [readMembers, hold, hnone]
      cases m.2.skim with
      | some f => rfl
      | none => exact ih' s
    | some f =>
      have hsome : (r.add name get c initial).put m.1 = some fun p j s => do return (← f p j s.1, s.2) :=
        hput.trans (by rw [hold]; rfl)
      simp only [readMembers, hold, hsome]
      cases f p m.2 s with
      | error e => rfl
      | ok s => exact ih' s

/-- The members that are written for `a` are read back, and `f a` is made of them, wherever there is room for `n`
containers. -/
structure Lossless (r : Record ρ α) (P : ρ → Prop) (f : ρ → α) (n : Nat) : Prop where
  names : ∀ a, (r.write a).map Prod.fst = r.names
  read : ∀ {a}, P a → ∀ {p : Place}, p.HasRoom n →
    ∃ s, r.readMembers false p r.empty (Json.named (r.write a)) = .ok s ∧ r.finish p s = .ok (f a)
  readable : ∀ {a}, P a → ∀ m ∈ r.write a, m.2.IsReadable n

theorem lossless_make (a : α) : (make a : Record ρ α).Lossless P (fun _ => a) n where
  names _ := rfl
  read _ _ _ := ⟨(), rfl, rfl⟩
  readable _ _ hm := by cases hm

namespace Lossless

/-- No member has a name that no field has. -/
theorem ne_of_mem {r : Record ρ α} {f : ρ → α} (hr : r.Lossless P f n) {name : String} (hname : name ∉ r.names) {a : ρ}
    {m : String × Json} (hm : m ∈ r.write a) : m.1 ≠ name := by
  rintro rfl
  exact hname (hr.names a ▸ List.mem_map_of_mem hm)

/-- One more field. -/
theorem add {r : Record ρ (β → α)} {f : ρ → β → α} (hr : r.Lossless P f n) {name : String} {get : ρ → β} {c : Codec β}
    {Q : β → Prop} {initial : Option β} (hc : c.Lossless Q n) (hget : ∀ {a}, P a → Q (get a))
    (hname : name ∉ r.names := by decide) : (r.add name get c initial).Lossless P (fun a => f a (get a)) n where
  names a := by
    show (r.write a ++ [(name, c.write (get a))]).map Prod.fst = r.names ++ [name]
    rw [List.map_append, hr.names]
    rfl
  read {a} ha p hp := by
    obtain ⟨s, hs, hfinish⟩ := hr.read ha hp
    let q := r.add name get c initial
    have hput : q.put name = some fun p j s => do return (s.1, ← fill name c p j s.2) := if_pos rfl
    -- the members in front leave the last slot empty, and the last member fills it
    have hfront : q.readMembers false p q.empty (Json.named (r.write a)) = .ok (s, none) :=
      (readMembers_add r get c initial p (fun m hm => hr.ne_of_mem hname hm) r.empty none).trans (by rw [hs]; rfl)
    have hlast : q.readMembers false p (s, none) (Json.named [(name, c.write (get a))]) = .ok (s, some (get a)) := by
      simp only [Json.named, List.map_cons, List.map_nil, readMembers, hput, fill,
        hc.read (hget ha) ((Place.hasRoom_member name).mpr hp)]
      rfl
    refine ⟨(s, some (get a)), ?_, ?_⟩
    · rw [show q.write a = r.write a ++ [(name, c.write (get a))] from rfl, Json.named, List.map_append,
        ← Json.named, ← Json.named, readMembers_append, hfront]
      exact hlast
    · show (r.finish p s >>= _) = _
      rw [hfinish]
      rfl
  readable {a} ha m hm := by
    rcases List.mem_append.mp (show m ∈ r.write a ++ [(name, c.write (get a))] from hm) with hm | hm
    · exact hr.readable ha m hm
    · obtain rfl := List.mem_singleton.mp hm
      exact hc.readable (hget ha)

/-- What a record writes is read back from its members. -/
theorem fromMembers {r : Record ρ α} {f : ρ → α} (hr : r.Lossless P f n) {a : ρ} (ha : P a) {p : Place}
    (hp : p.HasRoom n) : r.fromMembers false p (Json.named (r.write a)) none = .ok (f a) := by
  obtain ⟨s, hs, hfinish⟩ := hr.read ha hp
  unfold Record.fromMembers
  rw [hs]
  exact hfinish

/-- Fields that make up the record that they were written from make a codec that loses nothing. -/
theorem codec {r : Record ρ ρ} {f : ρ → ρ} (hr : r.Lossless P f n) (hf : ∀ {a}, P a → f a = a) (label : String) :
    (r.codec label).Lossless P (n + 1) where
  read {a} ha p hp := by
    obtain ⟨inner, henter, hinner⟩ := hp.enter
    show (p.enter >>= fun inner => r.fromMembers false inner (Json.named (r.write a)) none) = _
    rw [henter]
    exact (hr.fromMembers ha hinner).trans (congrArg _ (hf ha))
  readable {a} ha := Json.isReadable_object (hr.readable ha)

end Lossless

end Record

/-! ## Variants -/

namespace Variant

variable {α : Type} {P : α → Prop} {n : Nat} {vs : List (Variant α)} {v : Variant α} {name : String} {a : α}

theorem lookup_of_find? (h : (vs.find? fun v => v.name = name) = some v) (p : Place) :
    lookup vs p name = .ok v := by
  unfold lookup
  rw [h]

/-- A bare name is read as the variant of that name. -/
theorem readByName_name (hfind : (vs.find? fun v => v.name = name) = some v) {p : Place}
    (hread : v.read (p.member name) none = .ok a) : readByName vs p (.str name) = .ok a := by
  show (lookup vs p name >>= _) = _
  rw [lookup_of_find? hfind]
  exact hread

/-- An object with one member is read as the variant that the member is named after. -/
theorem readByName_member (hfind : (vs.find? fun v => v.name = name) = some v) {j : Json} {p : Place}
    (hp : p.HasRoom (n + 1)) (hread : ∀ {inner : Place}, inner.HasRoom n → v.read inner (some j) = .ok a) :
    readByName vs p (.object [(name, j)]) = .ok a := by
  obtain ⟨inner, henter, hinner⟩ := hp.enter
  simp only [readByName, Json.object, List.map_cons, List.map_nil, henter]
  show (if inner.settled = true ∧ (!List.isEmpty []) = true then _ else lookup vs inner name >>= _) = _
  rw [if_neg (by simp), lookup_of_find? hfind]
  show (v.read (inner.member name) (some j) >>= _) = _
  rw [hread ((Place.hasRoom_member name).mpr hinner)]
  rfl

/-- A variant that holds a value is read back by the name it is written under. -/
theorem readByName_holding {β : Type} {c : Codec β} {Q : β → Prop} (hc : c.Lossless Q n) {make : β → α}
    (hfind : (vs.find? fun v => v.name = name) = some (.holding name make c)) {b : β} (hb : Q b) {p : Place}
    (hp : p.HasRoom (n + 1)) : readByName vs p (.object [(name, c.write b)]) = .ok (make b) :=
  readByName_member hfind hp fun {inner} hinner => by
    show make <$> c.read inner (c.write b) = _
    rw [hc.read hb hinner]
    rfl

/-- A variant that holds a record is read back from the object under its name. -/
theorem readByName_record {r : Record α α} {f : α → α} (hr : r.Lossless P f n) {label : String}
    (hfind : (vs.find? fun v => v.name = name) = some (.record name label r)) (ha : P a) {p : Place}
    (hp : p.HasRoom (n + 2)) : readByName vs p (.object [(name, .object (r.write a))]) = .ok (f a) :=
  readByName_member hfind hp fun hinner => by
    obtain ⟨inside, henter, hinside⟩ := hinner.enter
    show (_ >>= fun inside => r.fromMembers false inside (Json.named (r.write a)) none) = _
    rw [henter]
    exact hr.fromMembers ha hinside

/-- Values that go by different names are read back. -/
theorem lossless_namesCodec {name : α → String} {all : List α} (hall : ∀ a, a ∈ all)
    (hname : ∀ a ∈ all, ∀ b ∈ all, name a = name b → a = b) : (namesCodec name all).Lossless (fun _ => True) n where
  read {a} _ p _ := by
    -- a name is found, and no two of them are equal
    have hfind : (all.find? fun b => name b = name a) = some a := by
      have hsome : (all.find? fun b => name b = name a).isSome :=
        List.find?_isSome.mpr ⟨a, hall a, decide_eq_true rfl⟩
      obtain ⟨b, hb⟩ := Option.isSome_iff_exists.mp hsome
      have heq : name b = name a := by simpa using List.find?_some hb
      rw [hb, hname b (hall b) a (hall a) heq]
    refine readByName_name (v := bare (name a) a) ?_ rfl
    rw [List.find?_map]
    exact congrArg _ hfind
  readable _ _ _ := rfl

end Variant

/-! ## Tagged values -/

namespace Tagged

variable {α β : Type} {tag name label : String} {vs : List (Tagged α)} {v : Tagged α} {p : Place} {n : Nat}

/-- Without the tag among them all members are left for the variant. -/
theorem part_of_ne {ms : List (String × Json)} (hms : ∀ m ∈ ms, m.1 ≠ tag) (v : Option (Tagged α)) :
    part tag vs p v (Json.named ms) = .ok (v, Json.named ms) := by
  induction ms with
  | nil => rfl
  | cons m ms ih =>
    rw [show Json.named (m :: ms) = (some m.1, m.2) :: Json.named ms from rfl, part,
      if_neg (by simpa using hms m (by simp)), ih fun k hk => hms k (by simp [hk])]
    rfl

/-- The tag in front chooses the variant. -/
theorem readMembers_of_tag (hfind : (vs.find? fun v => v.name = name) = some v) {ms : List (String × Json)}
    (hms : ∀ m ∈ ms, m.1 ≠ tag) :
    readMembers tag vs p (Json.named ((tag, .str name) :: ms)) = v.fromMembers p (Json.named ms) := by
  have hpart : part tag vs p none (Json.named ((tag, .str name) :: ms)) = .ok (some v, Json.named ms) := by
    rw [show Json.named ((tag, .str name) :: ms) = (some tag, .str name) :: Json.named ms from rfl, part, if_pos rfl]
    simp only [Option.isSome_none, Bool.false_eq_true, if_false, ofTag, hfind]
    exact part_of_ne hms _
  unfold readMembers
  rw [hpart]
  rfl

/-- A tagged object is settled, and its members are read. -/
theorem read_object (label : String) {ms : List (String × Json)} (hreadable : (Json.object ms).IsReadable n)
    (hp : p.HasRoom n) : Tagged.read tag label vs p (.object ms) = readMembers tag vs p.settle (Json.named ms) := by
  unfold Tagged.read
  by_cases hsettled : p.settled = true
  · have hsettle : p.settle = p := by
      cases p
      cases hsettled
      rfl
    rw [if_pos hsettled, hsettle]
    rfl
  · rw [if_neg hsettled, hreadable _ hp]
    rfl

end Tagged

/-- Members are read back as a tagged value. -/
structure Tagged.Restores {α : Type} (tag : String) (vs : List (Tagged α)) (members : List (String × Json)) (a : α)
    (n : Nat) : Prop where
  read : ∀ {p : Place}, p.HasRoom n → readMembers tag vs p (Json.named members) = .ok a
  readable : ∀ m ∈ members, m.2.IsReadable n

namespace Tagged

variable {α β : Type} {tag name label : String} {vs : List (Tagged α)} {a : α} {n : Nat}

theorem restores_bare (hfind : (vs.find? fun v => v.name = name) = some (.bare name a)) :
    Restores tag vs [(tag, .str name)] a n where
  read _ := readMembers_of_tag hfind (by simp)
  readable m hm := by
    obtain rfl := List.mem_singleton.mp hm
    exact fun _ _ => rfl

/-- The members of a record are read back behind a tag that no field goes by. -/
theorem restores_record {make : β → α} {r : Record β β} {P : β → Prop} {f : β → β} (hr : r.Lossless P f n)
    (hfind : (vs.find? fun v => v.name = name) = some (.record name label make r)) {b : β} (hb : P b)
    (ha : make (f b) = a) (htag : tag ∉ r.names := by decide) :
    Restores tag vs ((tag, .str name) :: r.write b) a n where
  read {p} hp := by
    rw [readMembers_of_tag hfind fun m hm => hr.ne_of_mem htag hm]
    show make <$> r.fromMembers false p (Json.named (r.write b)) none = _
    rw [hr.fromMembers hb hp, ← ha]
    rfl
  readable m hm := by
    rcases List.mem_cons.mp hm with rfl | hm
    · exact fun _ _ => rfl
    · exact hr.readable hb m hm

/-- Tagged values that are read back make a codec that loses nothing. -/
theorem lossless_codec {members : α → List (String × Json)} {P : α → Prop}
    (h : ∀ {a}, P a → Restores tag vs (members a) a n) (label : String) :
    Codec.Lossless ⟨fun a => .object (members a), Tagged.read tag label vs⟩ P (n + 1) where
  read ha _ hp :=
    (read_object label (Json.isReadable_object (h ha).readable) hp).trans ((h ha).read hp.of_succ)
  readable ha := Json.isReadable_object (h ha).readable

end Tagged

end NullCheck
