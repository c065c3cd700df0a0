import PartitionEngine.Channel.Slab
import Mathlib.Data.List.Basic

/-!
# The laws of slabs

A slab is used through keys, and `get?` is all a user sees of it.  `get?_alloc`,
`get?_modify` and `get?_remove` say what each operation does to every key, so
that nothing above has to look at slots.

An `alloc` takes a slot off the list of empty ones without looking at it.  It does
no harm because the list is exact (`FreeExact`), which every operation keeps.  A
key has 32 bits for its slot.  A slab that grew beyond them would hand out a key
twice, hence the bound on the slots in the lemmas about `alloc`.
-/

namespace PartitionEngine

attribute [ext] SlotKey

namespace Slab

variable {α : Type}

/-- The slots a key can name. -/
def maxSlots : Nat := UInt32.size

/-- The list of empty slots names every empty slot once. -/
structure FreeExact (s : Slab α) : Prop where
  nodup : s.free.Nodup
  mem_iff : ∀ slot : UInt32,
    slot ∈ s.free ↔ ∃ cell, s.slots[slot.toNat]? = some cell ∧ cell.occupant = none

theorem freeExact_empty : FreeExact ({} : Slab α) := ⟨List.nodup_nil, by simp⟩

@[simp] theorem get?_empty (key : SlotKey) : ({} : Slab α).get? key = none := rfl

/-! ## Changing an occupant -/

theorem get?_modify (s : Slab α) (key k : SlotKey) (f : α → α) :
    (s.modify key f).get? k = if k = key then (s.get? key).map f else s.get? k := by
  simp only [modify, get?]
  cases cell : s.slots[key.slot.toNat]? with
  | none =>
    by_cases same : k = key
    · simp [same, cell]
    · simp [same]
  | some old =>
    by_cases generation : old.generation = key.generation
    · by_cases slot : k.slot = key.slot
      · have bound := (List.getElem?_eq_some_iff.mp cell).1
        simp only [generation, if_true, slot, List.getElem?_set_self bound, SlotKey.ext_iff,
          true_and, cell]
        by_cases other : k.generation = key.generation
        · simp [other]
        · simp [other, Ne.symm other]
      · have apart : key.slot.toNat ≠ k.slot.toNat := fun e => slot (UInt32.toNat_inj.mp e).symm
        simp [generation, List.getElem?_set_ne apart, SlotKey.ext_iff, slot]
    · by_cases same : k = key
      · simp [generation, same, cell]
      · simp [generation, same]

theorem FreeExact.modify {s : Slab α} (exact : s.FreeExact) (key : SlotKey) (f : α → α) :
    (s.modify key f).FreeExact := by
  simp only [Slab.modify]
  split
  · rename_i old cell
    split
    · refine ⟨exact.nodup, fun slot => (exact.mem_iff slot).trans ?_⟩
      have bound := (List.getElem?_eq_some_iff.mp cell).1
      by_cases same : key.slot.toNat = slot.toNat
      · rw [← same, List.getElem?_set_self bound, cell]
        simp
      · rw [List.getElem?_set_ne same]
    · exact exact
  · exact exact

/-! ## Emptying a slot -/

/-- A slot has one occupant. -/
theorem eq_of_get? {s : Slab α} {key k : SlotKey} {a b : α} (ha : s.get? key = some a)
    (hb : s.get? k = some b) (slot : k.slot = key.slot) : k = key := by
  simp only [get?] at ha hb
  rw [slot] at hb
  cases cell : s.slots[key.slot.toNat]? with
  | none => simp [cell] at ha
  | some old =>
    simp only [cell, Option.ite_none_right_eq_some] at ha hb
    exact SlotKey.ext slot (hb.1.symm.trans ha.1)

theorem get?_remove (s : Slab α) (slot : UInt32) (k : SlotKey) :
    (s.remove slot).2.get? k = if k.slot = slot then none else s.get? k := by
  simp only [remove]
  split
  · rename_i generation a cell
    have bound := (List.getElem?_eq_some_iff.mp cell).1
    by_cases same : k.slot = slot
    · simp [get?, same, List.getElem?_set_self bound]
    · have apart : slot.toNat ≠ k.slot.toNat := fun e => same (UInt32.toNat_inj.mp e).symm
      simp [get?, same, List.getElem?_set_ne apart]
  · rename_i vacant
    by_cases same : k.slot = slot
    · rw [if_pos same]
      simp only [get?]
      cases cell : s.slots[k.slot.toNat]? with
      | none => rfl
      | some old =>
        obtain ⟨generation, occupant⟩ := old
        cases occupant with
        | none => simp
        | some a => exact absurd (same ▸ cell) (vacant generation a)
    · rw [if_neg same]

/-- Emptying the slot of an occupant removes this occupant. -/
theorem get?_remove_of_get? {s : Slab α} {key : SlotKey} {a : α} (held : s.get? key = some a)
    (k : SlotKey) : (s.remove key.slot).2.get? k = if k = key then none else s.get? k := by
  rw [get?_remove]
  by_cases same : k = key
  · simp [same]
  · rw [if_neg same]
    split
    · rename_i slot
      cases other : s.get? k with
      | none => rfl
      | some b => exact absurd (eq_of_get? held other slot) same
    · rfl

theorem FreeExact.remove {s : Slab α} (exact : s.FreeExact) (slot : UInt32) :
    (s.remove slot).2.FreeExact := by
  simp only [Slab.remove]
  split
  · rename_i generation a cell
    have bound := (List.getElem?_eq_some_iff.mp cell).1
    have occupied : slot ∉ s.free := fun mem => by
      obtain ⟨old, found, vacant⟩ := (exact.mem_iff slot).mp mem
      rw [cell] at found
      cases found
      cases vacant
    refine ⟨List.nodup_cons.mpr ⟨occupied, exact.nodup⟩, ?_⟩
    intro other
    by_cases same : other = slot
    · simp [same, List.getElem?_set_self bound]
    · have apart : slot.toNat ≠ other.toNat := fun e => same (UInt32.toNat_inj.mp e).symm
      simp [same, List.getElem?_set_ne apart, exact.mem_iff other]
  · exact exact

/-! ## Taking a slot -/

/-- A free slot is there, and it is empty. -/
theorem FreeExact.head {s : Slab α} (exact : s.FreeExact) {slot : UInt32} {free : List UInt32}
    (first : s.free = slot :: free) :
    ∃ generation, s.slots[slot.toNat]? = some { generation, occupant := none } := by
  obtain ⟨cell, found, vacant⟩ := (exact.mem_iff slot).mp (first ▸ List.mem_cons_self)
  exact ⟨cell.generation, by rw [found, ← vacant]⟩

theorem toNat_ofNat_length {s : Slab α} (room : s.slots.length < maxSlots) :
    (UInt32.ofNat s.slots.length).toNat = s.slots.length :=
  UInt32.toNat_ofNat_of_lt' room

/-- The name of a new slot names a slot, if maybe another one. -/
theorem ofNat_length_lt (s : Slab α) :
    (UInt32.ofNat s.slots.length).toNat < (s.slots ++ [({} : Slot α)]).length := by
  rw [List.length_append, List.length_singleton]
  exact Nat.lt_succ_of_le (Nat.mod_le ..)

/-- An empty slot is used again. -/
theorem alloc_of_free {s : Slab α} {slot : UInt32} {free : List UInt32}
    (first : s.free = slot :: free) {generation : UInt16}
    (cell : s.slots[slot.toNat]? = some { generation, occupant := none }) (a : α) :
    s.alloc a = (⟨slot, generation⟩,
      { slots := s.slots.set slot.toNat { generation, occupant := some a }, free }) := by
  simp [alloc, first, cell]

/-- If no slot is empty there is one more. -/
theorem alloc_of_full {s : Slab α} (full : s.free = []) (room : s.slots.length < maxSlots) (a : α) :
    s.alloc a = (⟨UInt32.ofNat s.slots.length, 0⟩,
      { slots := s.slots ++ [{ occupant := some a }], free := [] }) := by
  simp [alloc, full, toNat_ofNat_length room]

/-- The key of a new occupant named nothing before. -/
theorem get?_alloc_key {s : Slab α} (exact : s.FreeExact) (room : s.slots.length < maxSlots)
    (a : α) : s.get? (s.alloc a).1 = none := by
  cases first : s.free with
  | cons slot free =>
    obtain ⟨generation, cell⟩ := exact.head first
    simp [alloc_of_free first cell, get?, cell]
  | nil => simp [alloc_of_full first room, get?, toNat_ofNat_length room]

theorem get?_alloc {s : Slab α} (exact : s.FreeExact) (room : s.slots.length < maxSlots)
    (a : α) (k : SlotKey) :
    (s.alloc a).2.get? k = if k = (s.alloc a).1 then some a else s.get? k := by
  cases first : s.free with
  | cons slot free =>
    obtain ⟨generation, cell⟩ := exact.head first
    have bound := (List.getElem?_eq_some_iff.mp cell).1
    rw [alloc_of_free first cell]
    by_cases same : k.slot = slot
    · subst same
      by_cases current : generation = k.generation
      · simp [get?, List.getElem?_set_self bound, current]
      · simp [get?, cell, List.getElem?_set_self bound, SlotKey.ext_iff, current, Ne.symm current]
    · have apart : slot.toNat ≠ k.slot.toNat := fun e => same (UInt32.toNat_inj.mp e).symm
      simp [get?, List.getElem?_set_ne apart, SlotKey.ext_iff, same]
  | nil =>
    have last := toNat_ofNat_length room
    rw [alloc_of_full first room]
    by_cases same : k.slot = UInt32.ofNat s.slots.length
    · have index : k.slot.toNat = s.slots.length := by rw [same, last]
      by_cases current : k.generation = 0
      · simp only [get?, index, SlotKey.ext_iff]
        simp [same, current]
      · simp only [get?, index, SlotKey.ext_iff]
        simp [current, Ne.symm current]
    · have index : k.slot.toNat ≠ s.slots.length := fun e =>
        same (UInt32.toNat_inj.mp (e.trans last.symm))
      have other :
          (s.slots ++ [{ occupant := some a }])[k.slot.toNat]? = s.slots[k.slot.toNat]? := by
        rw [List.getElem?_append]
        split
        · rfl
        · rename_i beyond
          rw [List.getElem?_eq_none (by simp; omega), List.getElem?_eq_none (by omega)]
      simp [get?, other, SlotKey.ext_iff, same]

theorem FreeExact.alloc {s : Slab α} (exact : s.FreeExact) (a : α) : (s.alloc a).2.FreeExact := by
  cases first : s.free with
  | cons slot free =>
    obtain ⟨generation, cell⟩ := exact.head first
    have bound := (List.getElem?_eq_some_iff.mp cell).1
    have once := List.nodup_cons.mp (first ▸ exact.nodup)
    rw [alloc_of_free first cell]
    refine ⟨once.2, ?_⟩
    intro other
    by_cases same : other = slot
    · simp [same, List.getElem?_set_self bound, once.1]
    · have apart : slot.toNat ≠ other.toNat := fun e => same (UInt32.toNat_inj.mp e).symm
      simp [List.getElem?_set_ne apart, ← exact.mem_iff other, first, same]
  | nil =>
    -- The name of the new slot wraps around if it does not fit, so it may be the name of
    -- another slot, which is then occupied anew.
    have names {other : UInt32} (beyond : s.slots.length ≤ other.toNat)
        (apart : (UInt32.ofNat s.slots.length).toNat ≠ other.toNat) :
        s.slots.length < other.toNat := by
      refine Nat.lt_of_le_of_ne beyond fun last => apart ?_
      rw [last, UInt32.ofNat_toNat]
    simp only [Slab.alloc, first]
    refine ⟨List.nodup_nil, fun other => ?_⟩
    by_cases same : (UInt32.ofNat s.slots.length).toNat = other.toNat
    · rw [← same, List.getElem?_set_self s.ofNat_length_lt]
      simp
    · refine (first ▸ exact.mem_iff other).trans ?_
      rw [List.getElem?_set_ne same, List.getElem?_append]
      split
      · rfl
      · rename_i beyond
        have beyond := names (Nat.le_of_not_lt beyond) same
        rw [List.getElem?_eq_none (Nat.le_of_lt beyond), List.getElem?_eq_none]
        simp only [List.length_singleton]
        omega

/-! ## All occupants -/

/-- The occupants, in the order of their slots. -/
def occupants (s : Slab α) : List α := s.slots.filterMap Slot.occupant

/-- The slot of an occupant, among the others. -/
theorem exists_slot_of_get? {s : Slab α} {key : SlotKey} {a : α} (held : s.get? key = some a) :
    ∃ earlier later, s.slots = earlier ++ ⟨key.generation, some a⟩ :: later
      ∧ ∀ slot : Slot α, s.slots.set key.slot.toNat slot = earlier ++ slot :: later := by
  simp only [get?] at held
  split at held
  · rename_i cell found
    obtain ⟨generation, occupant⟩ := cell
    simp only [Option.ite_none_right_eq_some] at held
    obtain ⟨rfl, rfl⟩ := held
    obtain ⟨bound, same⟩ := List.getElem?_eq_some_iff.mp found
    have length := List.length_take_of_le (Nat.le_of_lt bound)
    have slots : s.slots = s.slots.take key.slot.toNat
        ++ ⟨key.generation, some a⟩ :: s.slots.drop (key.slot.toNat + 1) := by
      rw [← same, ← List.drop_eq_getElem_cons bound, List.take_append_drop]
    generalize s.slots.take key.slot.toNat = earlier at length slots
    generalize s.slots.drop (key.slot.toNat + 1) = later at slots
    refine ⟨earlier, later, slots, fun slot => ?_⟩
    rw [slots, ← length, List.set_append_right _ _ (Nat.le_refl _), Nat.sub_self,
      List.set_cons_zero]
  · cases held

theorem mem_keysFrom {slots : List (Slot α)} {j : Nat} {slot : Slot α}
    (found : slots[j]? = some slot) (held : slot.occupant.isSome = true) (i : Nat) :
    ⟨UInt32.ofNat (i + j), slot.generation⟩ ∈ keysFrom i slots := by
  induction slots generalizing i j with
  | nil => cases found
  | cons first rest ih =>
    simp only [keysFrom]
    cases j with
    | zero =>
      cases found
      simp [held]
    | succ j =>
      have later := ih found (i + 1)
      rw [Nat.add_right_comm, Nat.add_assoc] at later
      split
      · exact List.mem_cons_of_mem _ later
      · exact later

/-- Every occupant is reached by one of the keys. -/
theorem mem_keys {s : Slab α} {key : SlotKey} {a : α} (held : s.get? key = some a) :
    key ∈ s.keys := by
  simp only [get?] at held
  split at held
  · rename_i cell found
    simp only [Option.ite_none_right_eq_some] at held
    have mem := mem_keysFrom found (held.2 ▸ rfl) 0
    rw [Nat.zero_add, UInt32.ofNat_toNat, held.1] at mem
    exact mem
  · cases held

/-- Changing an occupant leaves the others. -/
theorem occupants_modify {s : Slab α} {key : SlotKey} {a : α} (held : s.get? key = some a)
    (f : α → α) : ∃ earlier later, s.occupants = earlier ++ a :: later
      ∧ (s.modify key f).occupants = earlier ++ f a :: later := by
  obtain ⟨earlier, later, slots, set⟩ := exists_slot_of_get? held
  refine ⟨earlier.filterMap Slot.occupant, later.filterMap Slot.occupant, ?_, ?_⟩
  · simp [occupants, slots]
  · simp only [get?] at held
    split at held
    · rename_i cell found
      simp only [Option.ite_none_right_eq_some] at held
      simp [occupants, modify, found, held, set]
    · cases held

/-- Emptying the slot of an occupant leaves the others. -/
theorem occupants_remove {s : Slab α} {key : SlotKey} {a : α} (held : s.get? key = some a) :
    ∃ earlier later, s.occupants = earlier ++ a :: later
      ∧ (s.remove key.slot).2.occupants = earlier ++ later := by
  obtain ⟨earlier, later, slots, set⟩ := exists_slot_of_get? held
  refine ⟨earlier.filterMap Slot.occupant, later.filterMap Slot.occupant, ?_, ?_⟩
  · simp [occupants, slots]
  · simp only [get?] at held
    split at held
    · rename_i cell found
      obtain ⟨generation, occupant⟩ := cell
      simp only [Option.ite_none_right_eq_some] at held
      obtain ⟨-, rfl⟩ := held
      simp [occupants, remove, found, set]
    · cases held

theorem length_slots_modify (s : Slab α) (key : SlotKey) (f : α → α) :
    (s.modify key f).slots.length = s.slots.length := by
  simp only [modify]
  split
  · split
    · exact List.length_set
    · rfl
  · rfl

theorem length_slots_remove (s : Slab α) (slot : UInt32) :
    (s.remove slot).2.slots.length = s.slots.length := by
  simp only [remove]
  split
  · exact List.length_set
  · rfl

/-- The free slots are those without an occupant. -/
theorem FreeExact.perm {s : Slab α} (exact : s.FreeExact) (room : s.slots.length < maxSlots) :
    (s.free.map UInt32.toNat).Perm
      ((List.range s.slots.length).filter fun i => (s.slots[i]?.bind Slot.occupant).isNone) := by
  refine (List.perm_ext_iff_of_nodup ?_ (List.nodup_range.filter _)).mpr fun i => ?_
  · exact List.Pairwise.map UInt32.toNat
      (fun _ _ apart same => apart (UInt32.toNat_inj.mp same)) exact.nodup
  · simp only [List.mem_map, List.mem_filter, List.mem_range, Option.isNone_iff_eq_none]
    constructor
    · rintro ⟨slot, mem, rfl⟩
      obtain ⟨cell, found, vacant⟩ := (exact.mem_iff slot).mp mem
      exact ⟨(List.getElem?_eq_some_iff.mp found).1, by simp [found, vacant]⟩
    · rintro ⟨bound, vacant⟩
      have named : (UInt32.ofNat i).toNat = i := UInt32.toNat_ofNat_of_lt' (Nat.lt_trans bound room)
      refine ⟨UInt32.ofNat i, (exact.mem_iff _).mpr ⟨s.slots[i], ?_, ?_⟩, named⟩
      · rw [named]
        exact List.getElem?_eq_getElem bound
      · simpa [List.getElem?_eq_getElem bound] using vacant

/-- A slab is empty if no key reaches an occupant. -/
theorem FreeExact.isEmpty_iff {s : Slab α} (exact : s.FreeExact)
    (room : s.slots.length < maxSlots) : s.isEmpty = true ↔ ∀ key, s.get? key = none := by
  have count := (exact.perm room).length_eq
  have bound := List.length_filter_le (fun i => (s.slots[i]?.bind Slot.occupant).isNone)
    (List.range s.slots.length)
  rw [List.length_map] at count
  rw [List.length_range] at bound
  have all : s.isEmpty = true ↔ ∀ i < s.slots.length, s.slots[i]?.bind Slot.occupant = none := by
    have whole := List.length_filter_eq_length_iff
      (p := fun i => (s.slots[i]?.bind Slot.occupant).isNone) (l := List.range s.slots.length)
    simp only [List.length_range, List.mem_range, Option.isNone_iff_eq_none] at whole
    rw [← whole]
    have counted : s.isEmpty = true ↔ s.slots.length - s.free.length = 0 := decide_eq_true_iff
    rw [counted]
    omega
  rw [all]
  constructor
  · intro vacant key
    simp only [get?]
    split
    · rename_i cell found
      have none := vacant _ (List.getElem?_eq_some_iff.mp found).1
      rw [found] at none
      simp only [Option.bind_some] at none
      simp [none]
    · rfl
  · intro vacant i bound
    have named : (UInt32.ofNat i).toNat = i := UInt32.toNat_ofNat_of_lt' (Nat.lt_trans bound room)
    have none := vacant ⟨UInt32.ofNat i, s.slots[i].generation⟩
    simpa [get?, named, List.getElem?_eq_getElem bound] using none

end Slab

end PartitionEngine
