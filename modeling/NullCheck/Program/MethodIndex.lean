import NullCheck.Program.Basic

/-!
# Looking up methods

Calls refer to declared methods by owner, name and descriptor. No two declarations may go by the same key.
-/

namespace NullCheck

/-- Declared methods, no key declared twice. -/
structure MethodIndex where
  methods : List MethodDecl
  distinct : (methods.map MethodDecl.key).Nodup

/-- Why declarations form no index: this is the first key that was declared before. -/
structure DuplicateMethod where
  key : MethodKey
deriving DecidableEq, Repr

def DuplicateMethod.message (e : DuplicateMethod) : String := "duplicate method declaration " ++ e.key.display

namespace MethodIndex

/-- The first key that equals one before it. -/
def firstRepeated (seen : List MethodKey) : List MethodKey → Option MethodKey
  | [] => none
  | k :: ks => if k ∈ seen then some k else firstRepeated (k :: seen) ks

/-- Keys among which none is repeated are distinct, and differ from those seen before. -/
theorem nodup_of_firstRepeated {seen ks : List MethodKey} (h : firstRepeated seen ks = none) :
    ks.Nodup ∧ ∀ k ∈ ks, k ∉ seen := by
  induction ks generalizing seen with
  | nil => simp
  | cons k ks ih =>
    rw [firstRepeated] at h
    split at h
    · simp at h
    · rename_i hk
      obtain ⟨hn, hs⟩ := ih h
      -- the first key was seen when the others were looked at
      refine ⟨List.nodup_cons.2 ⟨fun hmem => ?_, hn⟩, ?_⟩
      · exact hs k hmem (List.mem_cons_self ..)
      · intro j hj
        rcases List.mem_cons.1 hj with rfl | hj
        · exact hk
        · exact fun hmem => hs j hj (List.mem_cons_of_mem _ hmem)

def ofList (methods : List MethodDecl) : Except DuplicateMethod MethodIndex :=
  match h : firstRepeated [] (methods.map MethodDecl.key) with
  | none => .ok ⟨methods, (nodup_of_firstRepeated h).1⟩
  | some key => .error ⟨key⟩

def empty : MethodIndex := ⟨[], List.nodup_nil⟩

def resolve? (m : MethodIndex) (key : MethodKey) : Option MethodDecl := m.methods.find? fun d => d.key = key

def size (m : MethodIndex) : Nat := m.methods.length

end MethodIndex

end NullCheck
