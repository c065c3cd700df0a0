import PartitionEngine.Proofs.Generations

/-!
# Who is in a slab

A slab has three ways to tell who is in it: the keys that reach somebody, the list of
empty slots, and the difference of two lengths.  The history of a slab tells it too: those
who moved in and were not removed since, each under the key it was given (`Tenants.of`).

The four agree after any history (`Slab.houses_run`).  What an operation keeps is only
that look-ups agree with the record, that the list of empty slots is exact, and that the
record has one entry for a slot (`Slab.Records`).  All else is read off these three.
-/

namespace PartitionEngine

/-- Those who are in a slab, each with the key it was given, the one who moved in last at
the end. -/
abbrev Tenants (α : Type) := List (SlotKey × α)

namespace Tenants

variable {α : Type}

/-- What an operation on a slab does to the record of who is in it. -/
def note (s : Slab α) (live : Tenants α) : SlabOp α → Tenants α
  | .alloc a => live ++ [((s.alloc a).1, a)]
  | .modify key f => live.map fun t => if t.1 = key then (t.1, f t.2) else t
  | .remove slot => live.filter fun t => t.1.slot ≠ slot

/-- The record after a history that goes on from a slab and its record. -/
def after : Slab α → Tenants α → List (SlabOp α) → Tenants α
  | _, live, [] => live
  | s, live, op :: ops => after (s.apply op) (live.note s op) ops

/-- The record of a slab that was empty at first. -/
def of (ops : List (SlabOp α)) : Tenants α := after .empty [] ops

/-- The slots that are taken. -/
def slots (live : Tenants α) : List UInt32 := live.map fun t => t.1.slot

end Tenants

namespace Slab

variable {α : Type} {s : Slab α} {live : Tenants α} {key : SlotKey} {slot : UInt32}

/-- A record says who is in a slab. -/
structure Records (s : Slab α) (live : Tenants α) : Prop where
  exact : s.FreeExact
  reaches : ∀ key a, s.get? key = some a ↔ (key, a) ∈ live
  once : live.slots.Nodup

theorem records_empty : Records (.empty : Slab α) [] where
  exact := freeExact_empty
  reaches key a := by
    rw [show (Slab.empty : Slab α).get? key = none from rfl]
    simp
  once := List.nodup_nil

/-- A slot is taken if somebody in the record has it. -/
theorem Records.mem_slots_iff (h : s.Records live) :
    slot ∈ live.slots ↔ s.occupant? slot ≠ none := by
  rw [Option.ne_none_iff_exists', Tenants.slots, List.mem_map]
  constructor
  · rintro ⟨⟨key, a⟩, mem, rfl⟩
    exact ⟨a, (generation_of_get? ((h.reaches key a).mpr mem)).2⟩
  · rintro ⟨a, held⟩
    refine ⟨(⟨slot, s.generation slot⟩, a), (h.reaches _ a).mp ?_, rfl⟩
    rw [get?_eq, if_pos rfl]
    exact held

/-! ## What operations keep -/

/-- A slot that is given out is empty. -/
theorem FreeExact.occupant?_key (exact : s.FreeExact) (room : s.slots.length < maxSlots) (a : α) :
    s.occupant? (s.alloc a).1.slot = none := by
  cases first : s.free with
  | cons slot free =>
    obtain ⟨generation, cell⟩ := exact.head first
    simp [alloc_of_free first cell, occupant?, cell]
  | nil => simp [alloc_of_full first room, occupant?, toNat_ofNat_length room]

theorem Records.alloc (h : s.Records live) (room : s.slots.length < maxSlots) (a : α) :
    (s.alloc a).2.Records (live ++ [((s.alloc a).1, a)]) where
  exact := h.exact.alloc a
  reaches k b := by
    have absent : (k, b) ∈ live → k ≠ (s.alloc a).1 := by
      rintro mem rfl
      rw [← h.reaches, get?_alloc_key h.exact room] at mem
      cases mem
    rw [get?_alloc h.exact room, List.mem_append, List.mem_singleton, Prod.mk.injEq]
    by_cases same : k = (s.alloc a).1
    · rw [if_pos same, Option.some.injEq]
      constructor
      · exact fun e => .inr ⟨same, e.symm⟩
      · rintro (mem | ⟨-, e⟩)
        · exact absurd same (absent mem)
        · exact e.symm
    · rw [if_neg same, h.reaches]
      exact ⟨.inl, fun mem => mem.resolve_right fun e => same e.1⟩
  once := by
    have vacant : (s.alloc a).1.slot ∉ live.slots := fun mem =>
      h.mem_slots_iff.mp mem (h.exact.occupant?_key room a)
    simp only [Tenants.slots, List.map_append, List.map_cons, List.map_nil]
    exact h.once.append (List.nodup_singleton _) (by simpa [Tenants.slots] using vacant)

theorem Records.modify (h : s.Records live) (key : SlotKey) (f : α → α) :
    (s.modify key f).Records (live.map fun t => if t.1 = key then (t.1, f t.2) else t) where
  exact := h.exact.modify key f
  reaches k b := by
    rw [get?_modify, List.mem_map]
    by_cases same : k = key
    · subst same
      simp only [if_true, Option.map_eq_some_iff]
      constructor
      · rintro ⟨a, held, rfl⟩
        exact ⟨(k, a), (h.reaches k a).mp held, by simp⟩
      · rintro ⟨⟨j, a⟩, mem, moved⟩
        simp only at moved
        split at moved
        · rename_i here
          subst here
          cases moved
          exact ⟨a, (h.reaches j a).mpr mem, rfl⟩
        · rename_i apart
          cases moved
          exact absurd rfl apart
    · simp only [if_neg same, h.reaches]
      constructor
      · exact fun mem => ⟨(k, b), mem, by simp [same]⟩
      · rintro ⟨⟨j, a⟩, mem, moved⟩
        simp only at moved
        split at moved
        · rename_i here
          cases moved
          exact absurd here same
        · cases moved
          exact mem
  once := by
    have same : Tenants.slots (live.map fun t => if t.1 = key then (t.1, f t.2) else t)
        = live.slots := by
      simp only [Tenants.slots, List.map_map]
      refine List.map_congr_left fun t _ => ?_
      simp only [Function.comp_apply]
      split <;> rfl
    exact same ▸ h.once

theorem Records.remove (h : s.Records live) (slot : UInt32) :
    (s.remove slot).2.Records (live.filter fun t => t.1.slot ≠ slot) where
  exact := h.exact.remove slot
  reaches k b := by
    rw [get?_remove, List.mem_filter, decide_eq_true_iff, ← h.reaches]
    by_cases same : k.slot = slot <;> simp [same]
  once := h.once.sublist (List.filter_sublist.map _)

theorem Records.apply (h : s.Records live) (room : s.slots.length < maxSlots) (op : SlabOp α) :
    (s.apply op).Records (live.note s op) := by
  cases op with
  | alloc a => exact h.alloc room a
  | modify key f => exact h.modify key f
  | remove slot => exact h.remove slot

/-! ## Histories -/

theorem length_slots_apply (s : Slab α) (op : SlabOp α) :
    s.slots.length ≤ (s.apply op).slots.length := by
  cases op with
  | alloc a =>
    simp only [Slab.apply, Slab.alloc]
    split <;> simp
  | modify key f => exact (length_slots_modify s key f).ge
  | remove slot => exact (length_slots_remove s slot).ge

/-- A slab does not shrink. -/
theorem length_slots_run (s : Slab α) (ops : List (SlabOp α)) :
    s.slots.length ≤ (s.run ops).slots.length := by
  induction ops generalizing s with
  | nil => exact Nat.le_refl _
  | cons op ops ih => exact (s.length_slots_apply op).trans (ih _)

/-- A slab that has room in the end had it all the time. -/
theorem Records.run (h : s.Records live) (ops : List (SlabOp α))
    (room : (s.run ops).slots.length < maxSlots) : (s.run ops).Records (.after s live ops) := by
  induction ops generalizing s live with
  | nil => exact h
  | cons op ops ih =>
    have before : s.slots.length < maxSlots := (length_slots_run s (op :: ops)).trans_lt room
    exact ih (h.apply before op) room

/-! ## The list of keys -/

theorem exists_of_mem_keysFrom {slots : List (Slot α)} {i : Nat} (mem : key ∈ keysFrom i slots) :
    ∃ j cell, slots[j]? = some cell ∧ cell.occupant.isSome = true
      ∧ key = ⟨UInt32.ofNat (i + j), cell.generation⟩ := by
  induction slots generalizing i with
  | nil => cases mem
  | cons first rest ih =>
    have later (mem : key ∈ keysFrom (i + 1) rest) :
        ∃ j cell, (first :: rest)[j]? = some cell ∧ cell.occupant.isSome = true
          ∧ key = ⟨UInt32.ofNat (i + j), cell.generation⟩ := by
      obtain ⟨j, cell, found, held, named⟩ := ih mem
      exact ⟨j + 1, cell, found, held, by rw [named, Nat.add_right_comm, Nat.add_assoc]⟩
    simp only [keysFrom] at mem
    split at mem
    · rename_i held
      obtain rfl | mem := List.mem_cons.mp mem
      · exact ⟨0, first, rfl, held, rfl⟩
      · exact later mem
    · exact later mem

/-- The keys go up with the slots, as far as slots can be named. -/
theorem pairwise_keysFrom {slots : List (Slot α)} {i : Nat} (room : i + slots.length ≤ maxSlots) :
    (keysFrom i slots).Pairwise fun k k' => k.slot < k'.slot := by
  induction slots generalizing i with
  | nil => exact .nil
  | cons first rest ih =>
    rw [List.length_cons] at room
    have rest_ordered := ih (i := i + 1) (by omega)
    simp only [keysFrom]
    split
    · refine List.pairwise_cons.mpr ⟨fun k mem => ?_, rest_ordered⟩
      obtain ⟨j, cell, found, -, rfl⟩ := exists_of_mem_keysFrom mem
      have inside := (List.getElem?_eq_some_iff.mp found).1
      rw [UInt32.lt_iff_toNat_lt, UInt32.toNat_ofNat_of_lt' (by simp [maxSlots] at room; omega),
        UInt32.toNat_ofNat_of_lt' (by simp [maxSlots] at room; omega)]
      omega
    · exact rest_ordered

theorem mem_keys_iff (room : s.slots.length < maxSlots) :
    key ∈ s.keys ↔ ∃ a, s.get? key = some a := by
  refine ⟨fun mem => ?_, fun ⟨_, held⟩ => mem_keys held⟩
  obtain ⟨j, cell, found, held, rfl⟩ := exists_of_mem_keysFrom mem
  obtain ⟨a, occupant⟩ := Option.isSome_iff_exists.mp held
  have inside := (List.getElem?_eq_some_iff.mp found).1
  refine ⟨a, ?_⟩
  simp only [get?]
  rw [Nat.zero_add, UInt32.toNat_ofNat_of_lt' (inside.trans room), found]
  simp [occupant]

/-- Those in the record are those with a key. -/
theorem Records.keys_perm (h : s.Records live) (room : s.slots.length < maxSlots) :
    s.keys.Perm (live.map Prod.fst) := by
  have ordered : s.keys.Pairwise fun k k' => k.slot < k'.slot :=
    pairwise_keysFrom (by rw [Nat.zero_add]; exact room.le)
  have once : (live.map Prod.fst).Nodup := by
    refine .of_map SlotKey.slot ?_
    rw [List.map_map]
    exact h.once
  refine (List.perm_ext_iff_of_nodup ?_ once).mpr fun key => ?_
  · refine ordered.imp fun below same => ?_
    exact UInt32.lt_irrefl _ (same ▸ below)
  · rw [mem_keys_iff room, List.mem_map]
    constructor
    · rintro ⟨a, held⟩
      exact ⟨(key, a), (h.reaches key a).mp held, rfl⟩
    · rintro ⟨⟨key, a⟩, mem, rfl⟩
      exact ⟨a, (h.reaches key a).mpr mem⟩

/-! ## How many are in -/

/-- The slots that are taken and those that are not are all slots. -/
theorem Records.count (h : s.Records live) (room : s.slots.length < maxSlots) :
    s.free.length + live.length = s.slots.length := by
  let vacant (i : Nat) := (s.slots[i]?.bind Slot.occupant).isNone
  have free : s.free.length = ((List.range s.slots.length).filter vacant).length := by
    simpa using (h.exact.perm room).length_eq
  -- A slot is taken if it is one of the record.
  have taken : (live.slots.map UInt32.toNat).Perm
      ((List.range s.slots.length).filter fun i => !vacant i) := by
    refine (List.perm_ext_iff_of_nodup ?_ (List.nodup_range.filter _)).mpr fun i => ?_
    · exact List.Pairwise.map UInt32.toNat
        (fun _ _ apart same => apart (UInt32.toNat_inj.mp same)) h.once
    · simp only [List.mem_map, List.mem_filter, List.mem_range, h.mem_slots_iff]
      constructor
      · rintro ⟨slot, held, rfl⟩
        obtain ⟨a, held⟩ := Option.ne_none_iff_exists'.mp held
        obtain ⟨cell, found, -⟩ := Option.bind_eq_some_iff.mp held
        have here : s.slots[slot.toNat]?.bind Slot.occupant = some a := held
        exact ⟨(List.getElem?_eq_some_iff.mp found).1, by simp [vacant, here]⟩
      · rintro ⟨inside, held⟩
        have named : (UInt32.ofNat i).toNat = i :=
          UInt32.toNat_ofNat_of_lt' (inside.trans room)
        refine ⟨UInt32.ofNat i, ?_, named⟩
        rw [Bool.not_eq_true', Option.isNone_eq_false_iff] at held
        rw [occupant?, named]
        exact Option.isSome_iff_ne_none.mp held
  have length : live.length = ((List.range s.slots.length).filter fun i => !vacant i).length := by
    simpa [Tenants.slots] using taken.length_eq
  rw [free, length, ← List.length_eq_length_filter_add, List.length_range]

/-- What a slab tells of those who are in it is what a record says. -/
structure Houses (s : Slab α) (live : Tenants α) : Prop where
  /-- A slot that is given out is nobody's. -/
  vacant : ∀ a, (s.alloc a).1.slot ∉ live.slots
  /-- The list of empty slots has each of them once. -/
  free : (s.free.map UInt32.toNat).Perm
    ((List.range s.slots.length).filter fun i => (s.slots[i]?.bind Slot.occupant).isNone)
  /-- A key reaches the one it was given to, and no other key reaches anybody. -/
  reaches : ∀ key a, s.get? key = some a ↔ (key, a) ∈ live
  /-- The slot reaches nobody under another generation. -/
  stale : ∀ key a generation, (key, a) ∈ live → generation ≠ key.generation →
    s.get? ⟨key.slot, generation⟩ = none
  /-- What is changed through a key is who it reaches, and nothing if it reaches nobody. -/
  changed : ∀ key f, (∀ k, (s.modify key f).get? k
      = if k = key then (s.get? key).map f else s.get? k)
    ∧ (s.get? key = none → s.modify key f = s)
  /-- Who has a slot leaves it when it is vacated, and there is nothing to do if nobody has it. -/
  leaves : ∀ slot, (∀ key a, (key, a) ∈ live → key.slot = slot → (s.remove slot).1 = some a)
    ∧ (slot ∉ live.slots → s.remove slot = (none, s))
  /-- Everybody's key is listed, in the order of the slots. -/
  keys : s.keys.Perm (live.map Prod.fst) ∧ s.keys.Pairwise fun k k' => k.slot < k'.slot
  /-- The empty slots are no more than all slots, and the difference counts who is in. -/
  size : s.free.length ≤ s.slots.length ∧ s.size = live.length
  isEmpty : s.isEmpty = true ↔ live = []

theorem Records.houses (h : s.Records live) (room : s.slots.length < maxSlots) :
    s.Houses live where
  vacant a mem := h.mem_slots_iff.mp mem (h.exact.occupant?_key room a)
  free := h.exact.perm room
  reaches := h.reaches
  stale key a generation mem apart := by
    have current := (generation_of_get? ((h.reaches key a).mpr mem)).1
    rw [get?_eq, if_neg]
    rw [current]
    exact apart.symm
  changed key f := ⟨fun k => get?_modify s key k f, fun absent => modify_of_get?_eq_none absent f⟩
  leaves slot := by
    constructor
    · rintro key a mem rfl
      obtain ⟨-, held⟩ := generation_of_get? ((h.reaches key a).mpr mem)
      obtain ⟨generation, b, found, removed⟩ :=
        exists_remove_of_isSome (Option.isSome_of_eq_some held)
      have same : b = a := by
        have here : s.occupant? key.slot = some b := by rw [occupant?, found]; rfl
        exact Option.some.inj (here.symm.trans held)
      rw [removed, same]
    · intro nobody
      refine remove_of_vacant ?_
      by_contra held
      exact nobody (h.mem_slots_iff.mpr held)
  keys := ⟨h.keys_perm room, pairwise_keysFrom (by rw [Nat.zero_add]; exact room.le)⟩
  size := by
    have count := h.count room
    refine ⟨by omega, ?_⟩
    rw [Slab.size]
    omega
  isEmpty := by
    have count := h.count room
    rw [Slab.isEmpty, decide_eq_true_iff, Slab.size, ← List.length_eq_zero_iff]
    omega

/-- After any history, a slab and the record of who moved in and did not leave agree. -/
theorem houses_run (ops : List (SlabOp α))
    (room : ((.empty : Slab α).run ops).slots.length < maxSlots) :
    ((.empty : Slab α).run ops).Houses (.of ops) :=
  (records_empty.run ops room).houses room

/-- The first of two leaves, and somebody else gets the slot.  Keys and slots that nobody has
are tried in between. -/
def reuse : List (SlabOp Nat) :=
  [.alloc 7, .alloc 8, .remove 0, .remove 0, .modify ⟨0, 0⟩ (· + 1), .remove 5, .alloc 20,
    .modify ⟨0, 0⟩ (· + 1), .modify ⟨1, 0⟩ (· + 1)]

theorem houses_reuse : (run .empty reuse).slots.length < maxSlots
    ∧ (run .empty reuse).Houses [(⟨1, 0⟩, 9), (⟨0, 1⟩, 20)] := by
  have room : (run .empty reuse).slots.length < maxSlots := by decide
  exact ⟨room, houses_run reuse room⟩

end Slab

end PartitionEngine
