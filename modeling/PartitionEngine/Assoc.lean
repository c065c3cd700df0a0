/-!
# Finite maps

A finite map is a list of entries with the most recently written first.
Writing a key drops the entry it replaces, so a key occurs at most once.
`get?_insert` and `get?_erase` say what a look-up sees after a write.
-/

namespace PartitionEngine

/-- A finite map from keys to values. -/
structure Assoc (κ : Type) (α : Type) where
  /-- The entries, most recently written first. -/
  entries : List (κ × α)

namespace Assoc

variable {κ α : Type}

def empty : Assoc κ α := ⟨[]⟩

instance : Inhabited (Assoc κ α) := ⟨empty⟩

def keys (m : Assoc κ α) : List κ := m.entries.map Prod.fst

def values (m : Assoc κ α) : List α := m.entries.map Prod.snd

def size (m : Assoc κ α) : Nat := m.entries.length

def isEmpty (m : Assoc κ α) : Bool := m.entries.isEmpty

def filter (keep : α → Bool) (m : Assoc κ α) : Assoc κ α :=
  ⟨m.entries.filter fun e => keep e.2⟩

variable [DecidableEq κ]

def get? (m : Assoc κ α) (k : κ) : Option α :=
  (m.entries.find? fun e => e.1 = k).map Prod.snd

def contains (m : Assoc κ α) (k : κ) : Bool := m.entries.any fun e => e.1 = k

def erase (m : Assoc κ α) (k : κ) : Assoc κ α :=
  if m.contains k then ⟨m.entries.filter fun e => e.1 ≠ k⟩ else m

def insert (m : Assoc κ α) (k : κ) (a : α) : Assoc κ α :=
  ⟨(k, a) :: (m.erase k).entries⟩

@[simp] theorem get?_empty (k : κ) : (empty : Assoc κ α).get? k = none := rfl

/-- Erasing keeps the entries of the other keys. -/
theorem entries_erase (m : Assoc κ α) (k : κ) :
    (m.erase k).entries = m.entries.filter fun e => e.1 ≠ k := by
  unfold erase
  split
  · rfl
  · rename_i absent
    have others : ∀ e ∈ m.entries, e.1 ≠ k := fun e he same =>
      absent (List.any_eq_true.mpr ⟨e, he, by simpa using same⟩)
    exact (List.filter_eq_self.mpr fun e he => by simpa using others e he).symm

theorem get?_erase_self (m : Assoc κ α) (k : κ) : (m.erase k).get? k = none := by
  simp [get?, entries_erase]

theorem get?_erase_of_ne (m : Assoc κ α) {j k : κ} (h : j ≠ k) :
    (m.erase k).get? j = m.get? j := by
  have (e : κ × α) : (e.1 ≠ k ∧ e.1 = j) ↔ e.1 = j :=
    ⟨And.right, fun hj => ⟨hj ▸ h, hj⟩⟩
  simp [get?, entries_erase, List.find?_filter, this]

/-- A look-up after an erasure. -/
theorem get?_erase (m : Assoc κ α) (j k : κ) :
    (m.erase k).get? j = if j = k then none else m.get? j := by
  by_cases h : j = k
  · subst h
    simp [get?_erase_self]
  · simp [h, get?_erase_of_ne m h]

/-- A look-up after a write. -/
theorem get?_insert (m : Assoc κ α) (j k : κ) (a : α) :
    (m.insert k a).get? j = if j = k then some a else m.get? j := by
  by_cases h : j = k
  · subst h
    simp [get?, insert]
  · have hk : k ≠ j := fun e => h e.symm
    rw [if_neg h, ← get?_erase_of_ne m h]
    simp [get?, insert, hk]

end Assoc

end PartitionEngine
