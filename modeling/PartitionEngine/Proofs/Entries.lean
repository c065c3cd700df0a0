import PartitionEngine.Assoc
import Mathlib.Algebra.BigOperators.Group.Finset.Basic
import Mathlib.Data.List.Nodup

/-!
# The entries of a finite map

A map that is only written by `insert` and `erase` holds no key twice (`Keyed`).  Its
entries are then what look-ups give, in some order (`Keyed.perm_of_get?_eq`).  So what
its values amount to in total changes as the value of the one key that is written
(`Keyed.total_of_agree`).
-/

namespace PartitionEngine

namespace Assoc

variable {κ α : Type} {m m' : Assoc κ α}

/-- No key occurs twice. -/
def Keyed (m : Assoc κ α) : Prop := m.keys.Nodup

theorem keyed_empty : (empty : Assoc κ α).Keyed := List.nodup_nil

theorem Keyed.filter (h : m.Keyed) (keep : α → Bool) : (m.filter keep).Keyed :=
  h.sublist (List.filter_sublist.map Prod.fst)

theorem Keyed.entries (h : m.Keyed) : m.entries.Nodup := h.of_map Prod.fst

theorem Keyed.value_unique (h : m.Keyed) {k : κ} {a b : α} (ha : (k, a) ∈ m.entries)
    (hb : (k, b) ∈ m.entries) : a = b := by
  have same : (k, a) = (k, b) := List.inj_on_of_nodup_map h ha hb rfl
  exact (Prod.mk.inj same).2

/-- What the values amount to. -/
def total (m : Assoc κ α) (weight : α → Nat) : Nat :=
  (m.values.map weight).foldl (· + ·) 0

theorem size_eq_total (m : Assoc κ α) : m.size = m.total fun _ => 1 := by
  rw [size, total, ← List.sum_eq_foldl, List.map_const', List.sum_replicate_nat, Nat.mul_one,
    values, List.length_map]

variable [DecidableEq κ]

theorem contains_eq (m : Assoc κ α) (k : κ) : m.contains k = (m.get? k).isSome := by
  rw [Bool.eq_iff_iff, contains, get?, Option.isSome_map, List.find?_isSome, List.any_eq_true]

theorem not_mem_of_get? {k : κ} (h : m.get? k = none) (a : α) : (k, a) ∉ m.entries := by
  intro mem
  rw [get?, Option.map_eq_none_iff, List.find?_eq_none] at h
  exact h (k, a) mem (by simp)

theorem mem_of_get? {k : κ} {a : α} (h : m.get? k = some a) : (k, a) ∈ m.entries := by
  rw [get?, Option.map_eq_some_iff] at h
  obtain ⟨⟨k', a'⟩, first, rfl⟩ := h
  have same : k' = k := by simpa using List.find?_some first
  exact same ▸ List.mem_of_find?_eq_some first

theorem Keyed.erase (h : m.Keyed) (k : κ) : (m.erase k).Keyed := by
  show ((m.erase k).entries.map Prod.fst).Nodup
  rw [entries_erase]
  exact h.sublist (List.filter_sublist.map Prod.fst)

theorem Keyed.insert (h : m.Keyed) (k : κ) (a : α) : (m.insert k a).Keyed := by
  refine List.nodup_cons.mpr ⟨?_, h.erase k⟩
  intro mem
  obtain ⟨e, he, same⟩ := List.mem_map.mp mem
  rw [entries_erase] at he
  exact (by simpa using (List.mem_filter.mp he).2 : e.1 ≠ k) same

theorem Keyed.get?_eq_some_iff (h : m.Keyed) {k : κ} {a : α} :
    m.get? k = some a ↔ (k, a) ∈ m.entries := by
  refine ⟨mem_of_get?, fun mem => ?_⟩
  cases found : m.get? k with
  | none => exact absurd mem (not_mem_of_get? found a)
  | some b => rw [h.value_unique (mem_of_get? found) mem]

/-- What is left of the entries when a key is erased. -/
theorem Keyed.entries_perm (h : m.Keyed) {k : κ} {a : α}
    (found : m.get? k = some a) : m.entries.Perm ((k, a) :: (m.erase k).entries) := by
  have fresh : (k, a) ∉ (m.erase k).entries := not_mem_of_get? (get?_erase_self m k) a
  refine (List.perm_ext_iff_of_nodup h.entries
    (List.nodup_cons.mpr ⟨fresh, (h.erase k).entries⟩)).mpr fun e => ?_
  rw [List.mem_cons, entries_erase, List.mem_filter]
  constructor
  · intro mem
    by_cases same : e.1 = k
    · left
      subst same
      exact Prod.ext rfl (h.value_unique mem (mem_of_get? found))
    · exact .inr ⟨mem, by simpa using same⟩
  · rintro (rfl | ⟨mem, -⟩)
    · exact mem_of_get? found
    · exact mem

/-- The entries are what look-ups give. -/
theorem Keyed.perm_of_get?_eq (h : m.Keyed) (h' : m'.Keyed) (same : ∀ k, m.get? k = m'.get? k) :
    m.entries.Perm m'.entries := by
  refine (List.perm_ext_iff_of_nodup h.entries h'.entries).mpr fun e => ?_
  rw [← h.get?_eq_some_iff, ← h'.get?_eq_some_iff, same]

/-- A key counts for what is under it. -/
theorem Keyed.total_erase (h : m.Keyed) (k : κ) (weight : α → Nat) :
    (m.erase k).total weight + (m.get? k).elim 0 weight = m.total weight := by
  cases found : m.get? k with
  | none =>
    have absent : m.contains k = false := by rw [contains_eq, found, Option.isSome_none]
    rw [Assoc.erase, if_neg (absent ▸ Bool.false_ne_true), Option.elim_none, Nat.add_zero]
  | some a =>
    have counted := ((h.entries_perm found).map fun e => weight e.2).sum_eq
    simp only [total, ← List.sum_eq_foldl, values, List.map_map, Function.comp_def, List.map_cons,
      List.sum_cons] at counted ⊢
    rw [counted, Option.elim_some, Nat.add_comm]

/-- Maps that differ in one key differ in what is under that key. -/
theorem Keyed.total_of_agree (h : m.Keyed) (h' : m'.Keyed) {k : κ}
    (agree : ∀ j, j ≠ k → m'.get? j = m.get? j) (weight : α → Nat) :
    m'.total weight + (m.get? k).elim 0 weight
      = m.total weight + (m'.get? k).elim 0 weight := by
  have others : (m'.erase k).total weight = (m.erase k).total weight := by
    rw [total, total, ← List.sum_eq_foldl, ← List.sum_eq_foldl]
    refine List.Perm.sum_eq (((perm_of_get?_eq (h'.erase k) (h.erase k) fun j => ?_).map _).map _)
    rw [get?_erase, get?_erase]
    split
    · rfl
    · exact agree j ‹_›
  have before := h.total_erase k weight
  have after := h'.total_erase k weight
  omega

theorem mem_keys_iff {k : κ} : k ∈ m.keys ↔ m.get? k ≠ none := by
  constructor
  · intro mem absent
    obtain ⟨e, inside, rfl⟩ := List.mem_map.mp mem
    exact not_mem_of_get? absent e.2 inside
  · intro present
    obtain ⟨a, found⟩ := Option.ne_none_iff_exists'.mp present
    exact List.mem_map.mpr ⟨(k, a), mem_of_get? found, rfl⟩

theorem Keyed.size_eq_card (h : m.Keyed) : m.size = m.keys.toFinset.card := by
  rw [List.toFinset_card_of_nodup h, keys, List.length_map, size]

theorem Keyed.total_eq_sum (h : m.Keyed) (weight : α → Nat) :
    m.total weight = ∑ k ∈ m.keys.toFinset, (m.get? k).elim 0 weight := by
  rw [List.sum_toFinset _ h, total, ← List.sum_eq_foldl, values, keys, List.map_map, List.map_map]
  refine congrArg List.sum (List.map_congr_left fun e mem => ?_)
  simp only [Function.comp_apply, h.get?_eq_some_iff.mpr mem, Option.elim_some]

end Assoc

end PartitionEngine
