import PartitionEngine.Proofs.Backing
import PartitionEngine.Proofs.Works
import Mathlib.Data.UInt

/-!
# Generations

The generation of a slot goes up when its occupant leaves, and at no other time, so it
counts the occupants that left (`Slab.generation_run`).  It has 16 bits.  The key of an
occupant that left reaches nothing, unless the number of those that left the slot since
is a multiple of 2¹⁶: then it reaches whoever is there (`Slab.get?_run`).

A reactor takes in one channel at most between two looks at its queue, and takes it in
before anything leaves (`Turn.Admits`).  So no slot is vacated twice in a step, and the
steps in which the generation of a slot changes count the channels that left it
(`World.Vacates`).
-/

namespace PartitionEngine

namespace Slab

variable {α : Type} {s s' s'' : Slab α} {slot : UInt32}

/-- The generation of a slot.  One that is not there yet will begin with the first. -/
def generation (s : Slab α) (slot : UInt32) : UInt16 :=
  ((s.slots[slot.toNat]?).map Slot.generation).getD 0

/-- The occupant of a slot. -/
def occupant? (s : Slab α) (slot : UInt32) : Option α := s.slots[slot.toNat]?.bind Slot.occupant

theorem get?_eq (s : Slab α) (key : SlotKey) :
    s.get? key = if s.generation key.slot = key.generation then s.occupant? key.slot else none := by
  simp only [get?, generation, occupant?]
  split
  · rename_i cell found
    simp [found]
  · rename_i beyond
    simp [beyond]

theorem generation_of_get? {key : SlotKey} {a : α} (held : s.get? key = some a) :
    s.generation key.slot = key.generation ∧ s.occupant? key.slot = some a := by
  rw [get?_eq, Option.ite_none_right_eq_some] at held
  exact held

/-- A key that reaches nothing changes nothing. -/
theorem modify_of_get?_eq_none {key : SlotKey} (absent : s.get? key = none) (f : α → α) :
    s.modify key f = s := by
  simp only [get?] at absent
  simp only [modify]
  split
  · rename_i cell found
    rw [found] at absent
    simp only at absent
    split
    · rename_i current
      rw [if_pos current] at absent
      have same : { cell with occupant := cell.occupant.map f } = cell := by
        rw [absent, Option.map_none, ← absent]
      obtain ⟨inside, rfl⟩ := List.getElem?_eq_some_iff.mp found
      rw [same, List.set_getElem_self]
    · rfl
  · rfl

/-! ## What happens to a slot -/

/-- A change to the occupant of one slot, and to no generation. -/
theorem generation_set (slots : List (Slot α)) (free : List UInt32) (i : Nat) (o : Option α)
    (slot : UInt32) :
    generation { slots := slots.set i ⟨((slots[i]?).map Slot.generation).getD 0, o⟩, free } slot
      = generation { slots, free } slot := by
  simp only [generation, List.getElem?_set]
  split
  · rename_i here
    subst here
    split
    · rename_i inside
      simp [inside]
    · rename_i beyond
      rw [List.getElem?_eq_none (Nat.le_of_not_lt beyond)]
  · rfl

/-- A new slot has the first generation. -/
theorem generation_append (slots : List (Slot α)) (free free' : List UInt32) (slot : UInt32) :
    generation { slots := slots ++ [({} : Slot α)], free } slot
      = generation { slots, free := free' } slot := by
  simp only [generation, List.getElem?_append]
  split
  · rfl
  · rename_i beyond
    rw [List.getElem?_eq_none (Nat.le_of_not_lt beyond)]
    cases slot.toNat - slots.length with
    | zero => rfl
    | succ => rfl

theorem generation_alloc (s : Slab α) (a : α) (slot : UInt32) :
    (s.alloc a).2.generation slot = s.generation slot := by
  simp only [alloc]
  split
  · exact generation_set s.slots _ _ _ slot
  · exact (generation_set _ _ _ _ slot).trans (generation_append s.slots _ _ slot)

/-- A key names the generation that its slot has. -/
theorem generation_key (s : Slab α) (a : α) :
    (s.alloc a).2.generation (s.alloc a).1.slot = (s.alloc a).1.generation := by
  rw [generation_alloc]
  simp only [alloc]
  split
  · rfl
  · exact (generation_append s.slots [] _ _).symm

/-- An occupant stays, unless a slot that is new has the same name. -/
theorem isSome_occupant?_alloc (s : Slab α) (a : α) (held : (s.occupant? slot).isSome = true) :
    ((s.alloc a).2.occupant? slot).isSome = true := by
  have set (slots : List (Slot α)) (free : List UInt32) (i : Nat) (generation : UInt16)
      (held : (occupant? { slots, free := s.free } slot).isSome = true) :
      (occupant? { slots := slots.set i ⟨generation, some a⟩, free } slot).isSome = true := by
    simp only [occupant?, List.getElem?_set] at held ⊢
    split
    · split
      · rfl
      · rename_i here beyond
        rw [← here, List.getElem?_eq_none (Nat.le_of_not_lt beyond)] at held
        cases held
    · exact held
  simp only [alloc]
  split
  · exact set _ _ _ _ held
  · refine set _ _ _ _ ?_
    simp only [occupant?] at held ⊢
    rw [List.getElem?_append]
    split
    · exact held
    · rename_i beyond
      rw [List.getElem?_eq_none (Nat.le_of_not_lt beyond)] at held
      cases held

/-- Changing an occupant empties no slot, and fills none. -/
theorem modify_slot (s : Slab α) (key : SlotKey) (f : α → α) (slot : UInt32) :
    (s.modify key f).generation slot = s.generation slot
      ∧ ((s.modify key f).occupant? slot).isSome = (s.occupant? slot).isSome := by
  simp only [modify]
  split
  · rename_i cell found
    split
    · obtain ⟨inside, -⟩ := List.getElem?_eq_some_iff.mp found
      by_cases here : key.slot.toNat = slot.toNat
      · simp [generation, occupant?, ← here, List.getElem?_set_self inside, found]
      · simp [generation, occupant?, List.getElem?_set_ne here]
    · exact ⟨rfl, rfl⟩
  · exact ⟨rfl, rfl⟩

/-- The slot of an occupant, as it is and as it is once the occupant has left. -/
theorem exists_remove_of_isSome (held : (s.occupant? slot).isSome = true) :
    ∃ generation a, s.slots[slot.toNat]? = some ⟨generation, some a⟩
      ∧ s.remove slot = (some a,
        { slots := s.slots.set slot.toNat { generation := generation + 1, occupant := none }
          free := slot :: s.free }) := by
  obtain ⟨a, occupant⟩ := Option.isSome_iff_exists.mp held
  obtain ⟨⟨generation, _⟩, found, rfl⟩ := Option.bind_eq_some_iff.mp occupant
  exact ⟨generation, a, found, by simp [remove, found]⟩

/-- The occupant of a slot that is vacated leaves, and the generation goes up. -/
theorem remove_slot_self (held : (s.occupant? slot).isSome = true) :
    (s.remove slot).2.generation slot = s.generation slot + 1
      ∧ (s.remove slot).2.occupant? slot = none := by
  obtain ⟨generation, a, found, removed⟩ := exists_remove_of_isSome held
  obtain ⟨inside, -⟩ := List.getElem?_eq_some_iff.mp found
  simp [removed, found, Slab.generation, occupant?, List.getElem?_set_self inside]

/-- Every other slot stays as it is. -/
theorem remove_slot_of_ne (s : Slab α) {k : UInt32} (apart : k ≠ slot) :
    (s.remove slot).2.generation k = s.generation k
      ∧ (s.remove slot).2.occupant? k = s.occupant? k := by
  have apart : slot.toNat ≠ k.toNat := fun e => apart (UInt32.toNat_inj.mp e).symm
  simp only [remove]
  split
  · simp [generation, occupant?, List.getElem?_set_ne apart]
  · exact ⟨rfl, rfl⟩

theorem remove_of_vacant (vacant : s.occupant? slot = none) : s.remove slot = (none, s) := by
  simp only [remove]
  split
  · rename_i generation a found
    simp [occupant?, found] at vacant
  · rfl

end Slab

/-! ## Histories of a slab -/

/-- What is done to a slab. -/
inductive SlabOp (α : Type) where
  | alloc (a : α)
  | modify (key : SlotKey) (f : α → α)
  | remove (slot : UInt32)

namespace Slab

variable {α : Type} {slot : UInt32}

def apply (s : Slab α) : SlabOp α → Slab α
  | .alloc a => (s.alloc a).2
  | .modify key f => s.modify key f
  | .remove slot => (s.remove slot).2

def run (s : Slab α) (ops : List (SlabOp α)) : Slab α := ops.foldl apply s

/-- Whether the occupant of a slot leaves. -/
def vacates (s : Slab α) (slot : UInt32) : SlabOp α → Bool
  | .remove k => k = slot && (s.occupant? slot).isSome
  | _ => false

/-- How many occupants leave a slot. -/
def vacated (slot : UInt32) : Slab α → List (SlabOp α) → Nat
  | _, [] => 0
  | s, op :: ops => (s.vacates slot op).toNat + vacated slot (s.apply op) ops

theorem generation_apply (s : Slab α) (op : SlabOp α) (slot : UInt32) :
    (s.apply op).generation slot
      = s.generation slot + UInt16.ofNat (s.vacates slot op).toNat := by
  cases op with
  | alloc a => exact (generation_alloc s a slot).trans (UInt16.add_zero _).symm
  | modify key f => exact (modify_slot s key f slot).1.trans (UInt16.add_zero _).symm
  | remove k =>
    simp only [apply, vacates]
    by_cases here : k = slot
    · subst here
      cases held : (s.occupant? k).isSome with
      | true => simpa using (remove_slot_self held).1
      | false =>
        rw [remove_of_vacant (Option.isNone_iff_eq_none.mp (Option.isSome_eq_false_iff.mp held))]
        simp
    · simpa [here] using (s.remove_slot_of_ne (Ne.symm here)).1

/-- An occupant that does not leave is there. -/
theorem isSome_occupant?_apply {s : Slab α} {op : SlabOp α}
    (held : (s.occupant? slot).isSome = true) (stays : s.vacates slot op = false) :
    ((s.apply op).occupant? slot).isSome = true := by
  cases op with
  | alloc a => exact isSome_occupant?_alloc s a held
  | modify key f => exact (modify_slot s key f slot).2.trans held
  | remove k =>
    have apart : slot ≠ k := by
      rintro rfl
      simp [vacates, held] at stays
    exact (congrArg Option.isSome (s.remove_slot_of_ne apart).2).trans held

/-- The generation of a slot counts the occupants that left it. -/
theorem generation_run (s : Slab α) (ops : List (SlabOp α)) (slot : UInt32) :
    (s.run ops).generation slot = s.generation slot + UInt16.ofNat (s.vacated slot ops) := by
  induction ops generalizing s with
  | nil => exact (UInt16.add_zero _).symm
  | cons op ops ih =>
    calc ((s.apply op).run ops).generation slot
        = (s.apply op).generation slot + UInt16.ofNat ((s.apply op).vacated slot ops) := ih _
      _ = s.generation slot + (UInt16.ofNat (s.vacates slot op).toNat
            + UInt16.ofNat ((s.apply op).vacated slot ops)) := by
          rw [generation_apply, UInt16.add_assoc]
      _ = s.generation slot + UInt16.ofNat (s.vacated slot (op :: ops)) := by
          rw [← UInt16.ofNat_add, vacated]

theorem isSome_occupant?_run {s : Slab α} {ops : List (SlabOp α)}
    (held : (s.occupant? slot).isSome = true) (stays : s.vacated slot ops = 0) :
    ((s.run ops).occupant? slot).isSome = true := by
  induction ops generalizing s with
  | nil => exact held
  | cons op ops ih =>
    obtain ⟨first, rest⟩ := Nat.add_eq_zero_iff.mp stays
    exact ih (isSome_occupant?_apply held (Bool.toNat_eq_zero.mp first)) rest

/-- Generations go around. -/
theorem add_ofNat_eq_self (generation : UInt16) (n : Nat) :
    generation + UInt16.ofNat n = generation ↔ n % 65536 = 0 := by
  rw [UInt16.add_eq_left]
  constructor
  · intro zero
    have := congrArg UInt16.toNat zero
    simpa using this
  · intro multiple
    exact UInt16.toNat_inj.mp (by simpa using multiple)

/-- The key of a slot reaches its occupant again after 2¹⁶ have left. -/
theorem get?_of_generation {s s' : Slab α} {key : SlotKey} {n : Nat}
    (current : s.generation key.slot = key.generation)
    (generation : s'.generation key.slot = s.generation key.slot + UInt16.ofNat n) :
    s'.get? key = if n % 65536 = 0 then s'.occupant? key.slot else none := by
  rw [get?_eq, generation, current]
  exact if_congr (add_ofNat_eq_self _ n) rfl rfl

theorem FreeExact.run {s : Slab α} (exact : s.FreeExact) (ops : List (SlabOp α)) :
    (s.run ops).FreeExact := by
  induction ops generalizing s with
  | nil => exact exact
  | cons op ops ih =>
    cases op with
    | alloc a => exact ih (exact.alloc a)
    | modify key f => exact ih (exact.modify key f)
    | remove slot => exact ih (exact.remove slot)

/-- A value that has moved in is there. -/
theorem FreeExact.occupant?_alloc {s : Slab α} (exact : s.FreeExact) (a : α) :
    (s.alloc a).2.occupant? (s.alloc a).1.slot = some a := by
  cases first : s.free with
  | cons slot free =>
    obtain ⟨generation, cell⟩ := exact.head first
    have inside := (List.getElem?_eq_some_iff.mp cell).1
    simp [alloc_of_free first cell, occupant?, List.getElem?_set_self inside]
  | nil =>
    simp only [Slab.alloc, first, Slab.occupant?]
    rw [List.getElem?_set_self s.ofNat_length_lt]
    rfl

/-- What a key is good for after a slab has been used for a while. -/
theorem get?_run {s : Slab α} {a : α} {key : SlotKey} {s' : Slab α} (moved : s.alloc a = (key, s'))
    (ops : List (SlabOp α)) :
    (s'.run ops).get? key
      = if s'.vacated key.slot ops % 65536 = 0 then (s'.run ops).occupant? key.slot else none := by
  have current := generation_key s a
  rw [moved] at current
  exact get?_of_generation current (generation_run s' ops key.slot)

/-- Occupants of a slot leave so many times, and each time the next one moves in. -/
def turnover (slot : UInt32) (a : α) : Nat → List (SlabOp α)
  | 0 => []
  | n + 1 => .remove slot :: .alloc a :: turnover slot a n

/-- The slot that was emptied last is the first that is used again. -/
theorem occupant?_alloc_remove {s : Slab α} (held : (s.occupant? slot).isSome = true) (a : α) :
    ((s.remove slot).2.alloc a).2.occupant? slot = some a := by
  obtain ⟨generation, b, found, removed⟩ := exists_remove_of_isSome held
  obtain ⟨inside, -⟩ := List.getElem?_eq_some_iff.mp found
  have vacant : (s.remove slot).2.slots[slot.toNat]? = some ⟨generation + 1, none⟩ := by
    rw [removed, List.getElem?_set_self inside]
  have first : (s.remove slot).2.free = slot :: s.free := by rw [removed]
  rw [alloc_of_free first vacant, occupant?,
    List.getElem?_set_self (List.getElem?_eq_some_iff.mp vacant).1]
  rfl

theorem vacated_turnover {s : Slab α} (held : (s.occupant? slot).isSome = true) (a : α) (n : Nat) :
    s.vacated slot (turnover slot a n) = n
      ∧ (s.run (turnover slot a n)).occupant? slot
        = if n = 0 then s.occupant? slot else some a := by
  induction n generalizing s with
  | zero => exact ⟨rfl, rfl⟩
  | succ n ih =>
    have next : ((s.apply (.remove slot)).apply (.alloc a)).occupant? slot = some a :=
      occupant?_alloc_remove held a
    obtain ⟨count, last⟩ := ih (congrArg Option.isSome next)
    constructor
    · simp only [turnover, vacated, count]
      simp only [vacates, held, decide_true, Bool.and_true, Bool.toNat_true, Bool.toNat_false]
      omega
    · refine last.trans ?_
      rw [if_neg (Nat.succ_ne_zero n), next, ite_self]

/-! ## One channel at most moves in -/

variable {s s' s'' : Slab α}

/-- Nobody moves into a slot, and its occupant leaves at most once. -/
inductive Wanes (slot : UInt32) (s s' : Slab α) : Prop
  | stays (generation : s'.generation slot = s.generation slot)
      (same : (s'.occupant? slot).isSome = (s.occupant? slot).isSome)
  | leaves (generation : s'.generation slot = s.generation slot + 1)
      (before : (s.occupant? slot).isSome = true) (after : s'.occupant? slot = none)

theorem Wanes.refl (slot : UInt32) (s : Slab α) : Wanes slot s s := .stays rfl rfl

/-- A slot that is vacant cannot be vacated again. -/
theorem Wanes.trans (h : Wanes slot s s') (h' : Wanes slot s' s'') : Wanes slot s s'' := by
  cases h with
  | stays generation same =>
    cases h' with
    | stays generation' same' => exact .stays (generation'.trans generation) (same'.trans same)
    | leaves generation' before after =>
      exact .leaves (generation ▸ generation') (same ▸ before) after
  | leaves generation before after =>
    cases h' with
    | stays generation' same =>
      refine .leaves (generation'.trans generation) before ?_
      simpa [after] using same
    | leaves _ there => simp [after] at there

theorem wanes_modify (s : Slab α) (key : SlotKey) (f : α → α) (slot : UInt32) :
    Wanes slot s (s.modify key f) :=
  .stays (modify_slot s key f slot).1 (modify_slot s key f slot).2

theorem wanes_remove (s : Slab α) (k slot : UInt32) : Wanes slot s (s.remove k).2 := by
  by_cases here : slot = k
  · subst here
    cases held : s.occupant? slot with
    | none =>
      rw [remove_of_vacant held]
      exact .refl slot s
    | some a =>
      have held : (s.occupant? slot).isSome = true := held ▸ rfl
      exact .leaves (remove_slot_self held).1 held (remove_slot_self held).2
  · obtain ⟨generation, same⟩ := s.remove_slot_of_ne here
    exact .stays generation (congrArg Option.isSome same)

/-- One moves in at most, and after that nobody does. -/
def Admits (s s' : Slab α) : Prop :=
  ∃ s₁, (s₁ = s ∨ ∃ a, s₁ = (s.alloc a).2) ∧ ∀ slot, s₁.Wanes slot s'

theorem Admits.of_wanes (h : ∀ slot, s.Wanes slot s') : s.Admits s' := ⟨s, .inl rfl, h⟩

theorem Admits.of_alloc {a : α} (h : ∀ slot, (s.alloc a).2.Wanes slot s') : s.Admits s' :=
  ⟨_, .inr ⟨a, rfl⟩, h⟩

theorem Admits.trans_wanes (h : s.Admits s') (wanes : ∀ slot, s'.Wanes slot s'') :
    s.Admits s'' := by
  obtain ⟨s₁, moved, before⟩ := h
  exact ⟨s₁, moved, fun slot => (before slot).trans (wanes slot)⟩

/-- An occupant stays, or the generation goes up by one. -/
theorem Admits.generation (h : s.Admits s') (slot : UInt32) :
    s'.generation slot = s.generation slot
      ∧ ((s.occupant? slot).isSome = true → (s'.occupant? slot).isSome = true)
    ∨ s'.generation slot = s.generation slot + 1 := by
  obtain ⟨s₁, moved, wanes⟩ := h
  have before : s₁.generation slot = s.generation slot
      ∧ ((s.occupant? slot).isSome = true → (s₁.occupant? slot).isSome = true) := by
    obtain rfl | ⟨a, rfl⟩ := moved
    · exact ⟨rfl, fun held => held⟩
    · exact ⟨generation_alloc s a slot, isSome_occupant?_alloc s a⟩
  cases wanes slot with
  | stays generation same =>
    exact .inl ⟨generation.trans before.1, fun held => same.trans (before.2 held)⟩
  | leaves generation _ _ => exact .inr (before.1 ▸ generation)

end Slab

namespace Turn

variable {σ : Type} {may : Scope} {key : SlotKey} {t t' : Turn σ}

/-! ## What reactors do to slots -/

theorem Act.wanes (act : Act may key t t') (slot : UInt32) :
    t.reactor.channels.Wanes slot t'.reactor.channels := by
  cases act with
  | host | dispatch | mark | count | hand | complete | markOpen | flag => exact .refl slot _
  | submit | submitPlain | cancel | cancelPlain => exact .refl slot _
  | tune f _ => exact Slab.wanes_modify _ key f slot
  | shut c cause _ _ =>
    rw [shut_eq]
    exact Slab.wanes_modify _ key (fun _ => c.beginClose) slot
  | release =>
    obtain same | ⟨c, -, -, -, -, removed⟩ := releaseIfDone_cases t key
    · rw [same]
      exact .refl slot _
    · rw [removed]
      exact Slab.wanes_remove _ key.slot slot

/-- A handler lets nobody in. -/
theorem Acts.wanes (acts : Acts may key t t') (slot : UInt32) :
    t.reactor.channels.Wanes slot t'.reactor.channels := by
  induction acts with
  | refl => exact .refl slot _
  | tail _ act ih => exact ih.trans (act.wanes slot)

theorem Acts.admits (acts : Acts .all key t t') :
    t.reactor.channels.Admits t'.reactor.channels := .of_wanes acts.wanes

theorem wanes_closeAll (keys : List SlotKey) (cause : Failure) (t : Turn σ) (slot : UInt32) :
    t.reactor.channels.Wanes slot
      (keys.foldl (fun t key => t.close key cause) t).reactor.channels := by
  induction keys generalizing t with
  | nil => exact .refl slot _
  | cons key rest ih =>
    have closed : Acts .all key t (t.close key cause) := acts_close t key cause
    exact (closed.wanes slot).trans (ih _)

theorem wanes_beginStop (t : Turn σ) (slot : UInt32) :
    t.reactor.channels.Wanes slot t.beginStop.reactor.channels := by
  cases going : t.reactor.stopping with
  | true =>
    rw [beginStop_of_stopping going]
    exact .refl slot _
  | false =>
    have rest : Acts .all ⟨0, 0⟩ _ t.beginStop := acts_beginStop going _ trivial
    have closed := wanes_closeAll t.reactor.channels.keys .shuttingDown
      { t with reactor := { t.reactor with stopping := true } } slot
    exact closed.trans (rest.wanes slot)

theorem admits_adopt (t : Turn σ) (socket : Nat) (remote : Option Endpoint) :
    t.reactor.channels.Admits (t.adopt socket remote).reactor.channels := by
  cases remote with
  | none => exact .of_wanes fun slot => .refl slot _
  | some remote =>
    have adopted : Acts .all _ _ (t.adopt socket (some remote)) :=
      acts_adopt t socket remote trivial
    exact .of_alloc adopted.wanes

theorem admits_onAccept (t : Turn σ) (result : Int) (remote : Option Endpoint) :
    t.reactor.channels.Admits (t.onAccept result remote).reactor.channels := by
  obtain acts | acts := onAccept_cases .all t result remote trivial
  · exact (acts ⟨0, 0⟩).admits
  · exact (admits_adopt t.unarmed result.toNat remote).trans_wanes (acts ⟨0, 0⟩).wanes

theorem admits_onCompletion (t : Turn σ) (c : IoCompletion Token) :
    t.reactor.channels.Admits (t.onCompletion c).reactor.channels := by
  by_cases accepts : c.token.purpose? = some .accept
  · rw [onCompletion_of_accept t accepts]
    exact admits_onAccept t.afresh _ _
  · have acts : Acts .all c.token.key t (t.onCompletion c) :=
      acts_all_onCompletion t c accepts
    exact acts.admits

/-- A channel that is made may be gone as soon as it was to connect. -/
theorem outboundChannel_acts (t : Turn σ) (l : Link) :
    (t.outboundChannel l).2 = t
    ∨ ∃ key, Acts .all key (t.makeChannel l).2 (t.outboundChannel l).2 := by
  obtain ⟨key, c, -, -, -, same⟩ | ⟨made, -⟩ := outboundChannel_cases t l
  · exact .inl (by rw [same])
  · exact .inr ⟨_, made ▸ acts_startConnect _ _ trivial⟩

theorem admits_outbound (t : Turn σ) (l : Link) (key : SlotKey)
    (rest : Acts .all key (t.outboundChannel l).2 t') :
    t.reactor.channels.Admits t'.reactor.channels := by
  obtain same | ⟨made, acts⟩ := outboundChannel_acts t l
  · rw [same] at rest
    exact rest.admits
  · exact .of_alloc fun slot => (acts.wanes slot).trans (rest.wanes slot)

theorem admits_onTask (t : Turn σ) (task : Task) :
    t.reactor.channels.Admits (t.onTask task).reactor.channels := by
  have step := t.taskStep_onTask task
  generalize t.onTask task = t' at step ⊢
  cases step with
  | rejected => exact (acts_reject t ⟨0, 0⟩ task trivial : Acts .all _ _ _).admits
  | executed r correlationId =>
    exact (acts_runLocal t ⟨0, 0⟩ r correlationId trivial trivial : Acts .all _ _ _).admits
  | connected l | unwritten l => exact admits_outbound t l ⟨0, 0⟩ (.refl _)
  | written l bytes correlationId key =>
    exact admits_outbound t l key (acts_write _ key bytes trivial)
  | forwarded f replyTo =>
    exact (acts_runForwarded t f replyTo (Scope.serving_all _ _) trivial : Acts .all _ _ _).admits
  | replied channel bytes => exact (acts_write t channel.key bytes trivial : Acts .all _ _ _).admits
  | stopped => exact .of_wanes (wanes_beginStop t)

end Turn

theorem Moment.Move.admits {σ : Type} {m m' : Moment σ} {handed : Option Handover}
    (move : Move m handed m') :
    m.turn.reactor.channels.Admits m'.turn.reactor.channels := by
  cases move with
  | wait | mark | take => exact .of_wanes fun slot => .refl slot _
  | handle t c rest => exact Turn.admits_onCompletion t c
  | run t task t' popped =>
    have same : t'.reactor = t.reactor := (Turn.takes_popTask popped).1
    have ran := Turn.admits_onTask (t'.count fun s => { s with tasks := s.tasks + 1 }) task
    simp only
    rw [← same]
    exact ran

namespace World

variable {σ : Type} {w w' w'' : World σ} {i : Nat} {seat seat' : Seat σ} {slot : UInt32}

/-! ## Runs -/

/-- A reactor is not concerned, or it goes on, or it ends without channels. -/
theorem Step.admits (step : Step w w') (found : w.seat? i = some seat) :
    ∃ seat', w'.seat? i = some seat' ∧ (seat' = seat ∨ seat.phase = .asleep
      ∧ (seat'.phase = .asleep ∧ seat.reactor.channels.Admits seat'.reactor.channels
        ∨ seat'.phase = .ended ∧ seat'.reactor.channels = {})) := by
  have comes {j : Nat} {seat' : Seat σ} {phase : Phase} {m : Moment σ} {handed : Option Handover}
      (found' : w.seat? j = some seat') (running : seat'.phase = .asleep)
      (came : phase = .asleep ∧ seat'.reactor.channels.Admits m.turn.reactor.channels
        ∨ phase = .ended ∧ m.turn.reactor.channels = {}) :
      ∃ seat', (w.advance j phase m handed).seat? i = some seat'
        ∧ (seat' = seat ∨ seat.phase = .asleep
          ∧ (seat'.phase = .asleep ∧ seat.reactor.channels.Admits seat'.reactor.channels
            ∨ seat'.phase = .ended ∧ seat'.reactor.channels = {})) := by
    by_cases same : i = j
    · subst same
      cases found.symm.trans found'
      exact ⟨_, seat?_advance_self found, .inr ⟨running, came⟩⟩
    · exact ⟨seat, (seat?_advance_of_ne same).trans found, .inl rfl⟩
  cases step with
  | call | change | mark => exact ⟨seat, found, .inl rfl⟩
  | shutdown =>
    exact ⟨seat, (seat?_shutdown _ i).trans found, .inl rfl⟩
  | drive j seat' driver found' running =>
    exact comes found' running (.inl ⟨rfl, .of_wanes fun slot => .refl slot _⟩)
  | begin j seat' found' running =>
    have armed : Turn.Acts .all ⟨0, 0⟩ (w.turn seat') (w.turn seat').armWakeup.armAccept :=
      (Turn.acts_armWakeup _ _ trivial).trans (Turn.acts_armAccept _ _ trivial)
    exact comes found' running (.inl ⟨rfl, .of_wanes armed.wanes⟩)
  | move j seat' m handed found' running move =>
    exact comes found' running (.inl ⟨rfl, move.admits⟩)
  | finish j seat' found' running =>
    exact comes found' running (.inr ⟨rfl, by rw [(w.turn seat').finish_eq.1]⟩)

/-- The generation of a slot of a reactor. -/
def generation (w : World σ) (i : Nat) (slot : UInt32) : UInt16 :=
  match w.seat? i with
  | some seat => seat.reactor.channels.generation slot
  | none => 0

/-- A run in which so many channels leave a slot of a reactor. -/
inductive Vacates (i : Nat) (slot : UInt32) (w : World σ) : Nat → World σ → Prop
  | refl : Vacates i slot w 0 w
  | tail {n : Nat} {w' w'' : World σ} (before : Vacates i slot w n w') (step : Step w' w'') :
      Vacates i slot w (n + if w''.generation i slot = w'.generation i slot then 0 else 1) w''

theorem generation_of_found (found : w.seat? i = some seat) (slot : UInt32) :
    w.generation i slot = seat.reactor.channels.generation slot := by
  simp only [generation, found]

/-- While a reactor goes on, the generations of its slots count the channels that left
them. -/
theorem Vacates.counts {n : Nat} (run : Vacates i slot w n w') (found : w.seat? i = some seat)
    (running : seat.phase = .asleep) : ∃ seat', w'.seat? i = some seat'
      ∧ (seat'.phase = .asleep
          ∧ seat'.reactor.channels.generation slot
            = seat.reactor.channels.generation slot + UInt16.ofNat n
          ∧ (n = 0 → (seat.reactor.channels.occupant? slot).isSome = true →
            (seat'.reactor.channels.occupant? slot).isSome = true)
        ∨ seat'.phase = .ended ∧ seat'.reactor.channels = {}) := by
  induction run with
  | refl => exact ⟨seat, found, .inl ⟨running, (UInt16.add_zero _).symm, fun _ held => held⟩⟩
  | @tail n w' w'' _ step ih =>
    obtain ⟨seat', found', before⟩ := ih
    obtain ⟨seat'', found'', same | ⟨awake, ⟨running', admits⟩ | ended⟩⟩ := step.admits found'
    · subst same
      refine ⟨seat'', found'', ?_⟩
      rw [if_pos (by rw [generation_of_found found'', generation_of_found found'])]
      exact before
    · obtain ⟨-, count, stays⟩ : seat'.phase = .asleep ∧ _ ∧ _ := by
        refine before.resolve_right fun ended => ?_
        cases awake.symm.trans ended.1
      refine ⟨seat'', found'', .inl ⟨running', ?_⟩⟩
      rw [generation_of_found found'', generation_of_found found']
      rcases admits.generation slot with ⟨same, held⟩ | up
      · rw [if_pos same, same]
        exact ⟨count, fun none before => held (stays none before)⟩
      · have changes : seat''.reactor.channels.generation slot
            ≠ seat'.reactor.channels.generation slot := by simp [up]
        rw [if_neg changes, up, count, UInt16.add_assoc, ← UInt16.ofNat_one, ← UInt16.ofNat_add]
        exact ⟨rfl, nofun⟩
    · exact ⟨seat'', found'', .inr ended⟩

/-- A key of a slab reaches nothing once its occupant has left, and a task that brings a
reply under it is dropped, unless the number of occupants that left the slot since is a
multiple of 2¹⁶.  If it is, the key reaches whoever is in the slot then. -/
theorem stale_until_around :
    (∀ (before later : List (SlabOp Channel)) (c : Channel) (key : SlotKey) (s : Slab Channel),
      (Slab.run {} before).alloc c = (key, s) →
        ((s.run later).get? key
          = if s.vacated key.slot later % 65536 = 0 then (s.run later).occupant? key.slot else none)
        ∧ (s.vacated key.slot later = 0 → ((s.run later).get? key).isSome = true)
        ∧ (s.vacated key.slot later % 65536 ≠ 0 → ∀ f, (s.run later).modify key f = s.run later))
    ∧ ∀ (w w' : World σ) (i : Nat) (seat : Seat σ) (key : SlotKey) (c : Channel) (n : Nat),
      w.seat? i = some seat → seat.phase = .asleep → (w.turn seat).channel? key = some c →
      Vacates i key.slot w n w' → ∃ seat', w'.seat? i = some seat'
        ∧ (seat'.phase = .asleep → (w'.turn seat').channel? key
          = if n % 65536 = 0 then seat'.reactor.channels.occupant? key.slot else none)
        ∧ (n = 0 → seat'.phase = .asleep → ((w'.turn seat').channel? key).isSome = true)
        ∧ (n % 65536 ≠ 0 → ∀ t : Turn σ, t.reactor.channels = seat'.reactor.channels →
          t.channel? key = none ∧ ∀ bytes, t.onTask (.reply ⟨i, key⟩ bytes) = t) := by
  constructor
  · intro before later c key s moved
    have reaches := Slab.get?_run moved later
    refine ⟨reaches, ?_, ?_⟩
    · intro none
      have there := (Slab.freeExact_empty.run before).occupant?_alloc c
      rw [moved] at there
      rw [reaches, none, if_pos rfl]
      exact Slab.isSome_occupant?_run (there ▸ rfl) none
    · intro stale f
      rw [if_neg stale] at reaches
      exact Slab.modify_of_get?_eq_none reaches f
  · intro w w' i seat key c n found running there run
    obtain ⟨current, occupant⟩ := Slab.generation_of_get? there
    obtain ⟨seat', found', at'⟩ := run.counts found running
    have reaches (running' : seat'.phase = .asleep) : (w'.turn seat').channel? key
        = if n % 65536 = 0 then seat'.reactor.channels.occupant? key.slot else none := by
      obtain ⟨-, count, -⟩ | ⟨ended, -⟩ := at'
      · exact Slab.get?_of_generation current count
      · cases running'.symm.trans ended
    refine ⟨seat', found', reaches, ?_, ?_⟩
    · intro none running'
      obtain ⟨-, -, stays⟩ | ⟨ended, -⟩ := at'
      · rw [reaches running', none, if_pos rfl]
        exact stays none (occupant ▸ rfl)
      · cases running'.symm.trans ended
    · intro stale t same
      have gone : t.channel? key = none := by
        rw [Turn.channel?, same]
        obtain ⟨running', -, -⟩ | ⟨-, empty⟩ := at'
        · exact (reaches running').trans (if_neg stale)
        · rw [empty]
          rfl
      refine ⟨gone, fun bytes => ?_⟩
      simp only [Turn.onTask, Turn.reject, Turn.write, gone]
      split
      · rfl
      · rfl

/-- The first key of a slab reaches the one that moved in after 2¹⁶ others had left. -/
theorem first_key_comes_around : ∃ s : Slab Channel,
    ({} : Slab Channel).alloc (.accepted (some 7) default 1) = (⟨0, 0⟩, s)
    ∧ (s.run (Slab.turnover 0 (.accepted (some 8) default 1) 65536)).get? ⟨0, 0⟩
      = some (.accepted (some 8) default 1) := by
  obtain ⟨s, moved⟩ : ∃ s, ({} : Slab Channel).alloc (.accepted (some 7) default 1) = (⟨0, 0⟩, s) :=
    ⟨_, rfl⟩
  have held := Slab.freeExact_empty.occupant?_alloc (Channel.accepted (some 7) default 1)
  rw [moved] at held
  obtain ⟨count, last⟩ :=
    Slab.vacated_turnover (congrArg Option.isSome held) (.accepted (some 8) default 1) 65536
  refine ⟨s, moved, ?_⟩
  rw [Slab.get?_run moved, count, if_pos rfl, last, if_neg (by decide)]

/-- The world after a reactor has handled the first of its completions. -/
def handleNext (w : World σ) (i : Nat) : World σ :=
  match w.seat? i, w.batches i with
  | some seat, c :: rest => w.advance i .asleep ⟨(w.turn seat).onCompletion c, rest⟩ none
  | _, _ => w

/-- A connection comes in, and the other side closes it. -/
def visited : World Builtin.Item :=
  { resting with batches := fun _ =>
      [{ token := .plain .accept, result := 7, remote := some (.v4 0x7f000001 40000) },
       { token := .ofChannel .recv ⟨0, 0⟩, result := 0 }] }

/-- A reply that comes when the connection is gone is dropped. -/
theorem stale_until_around_of_loss :
    ∃ (w w' : World Builtin.Item) (seat seat' : Seat Builtin.Item) (c : Channel),
    w.seat? 0 = some seat ∧ seat.phase = .asleep ∧ (w.turn seat).channel? ⟨0, 0⟩ = some c
    ∧ Vacates 0 0 w 1 w' ∧ w'.seat? 0 = some seat'
    ∧ ∀ bytes, (w'.turn seat').onTask (.reply ⟨0, ⟨0, 0⟩⟩ bytes) = w'.turn seat' := by
  let w := visited.handleNext 0
  have closes : Step w (w.handleNext 0) := .move w 0 _ _ _ rfl rfl (.handle _ _ _)
  have leaves : (w.handleNext 0).generation 0 0 ≠ w.generation 0 0 := by decide
  have run : Vacates 0 0 w (0 + if _ then 0 else 1) (w.handleNext 0) := .tail .refl closes
  rw [if_neg leaves] at run
  obtain ⟨seat', found', -, -, stale⟩ :=
    stale_until_around.2 w _ 0 _ ⟨0, 0⟩ _ 1 rfl rfl rfl run
  exact ⟨w, _, _, seat', _, rfl, rfl, rfl, run, found', (stale (by decide) _ rfl).2⟩

end World

end PartitionEngine
