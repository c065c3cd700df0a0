import Mathlib.Data.Finmap
import PartitionEngine.Proofs.Codec
import PartitionEngine.Proofs.Entries
import PartitionEngine.Proofs.Reuse

/-!
# Tables as one map

The tables of a reactor are maps in a map: one for each partition that has entries.  What
they hold is one finite map from partitions and keys to values (`Contents`), and the
operations on tables are those of the map (`Tables.Holds.upsert`, `Tables.Holds.evict`).

A request for an upsert either is one that `upsertPayload` writes or is malformed
(`keyAndValue?_eq_some_iff`, `keyAndValue?_eq_none_iff`).  So a dispatcher with the
operations of every member does to the map what the requests say, and answers from it
(`Dispatcher.tables_as_map`).
-/

namespace PartitionEngine

/-- What tables hold. -/
abbrev Contents := Finmap fun _ : Partition × Bytes => Bytes

/-! ## Requests and answers -/

/-- The key and the value in the request of an upsert. -/
def keyAndValue? (input : Bytes) : Option (Bytes × Bytes) :=
  if input.length < 4 then none
  else
    let length := ofBigEndian (input.take 4)
    let rest := input.drop 4
    if rest.length < length then none else some (rest.take length, rest.drop length)

theorem keyAndValue?_upsertPayload {key : Bytes} (short : key.length < 2 ^ 32) (value : Bytes) :
    keyAndValue? (upsertPayload key value) = some (key, value) := by
  have width : (UInt32.ofNat key.length).toNat = key.length := UInt32.toNat_ofNat_of_lt' short
  have read : ofBigEndian (bigEndian 4 key.length) = key.length :=
    (ofBigEndian_bigEndian 4 key.length).trans (Nat.mod_eq_of_lt short)
  have four : (bigEndian 4 key.length).length = 4 := length_bigEndian 4 _
  have whole : ¬ (upsertPayload key value).length < 4 := by
    rw [upsertPayload, List.length_append, List.length_append, length_bigEndian]
    omega
  have enough : ¬ (key ++ value).length < key.length := by
    rw [List.length_append]
    omega
  rw [keyAndValue?, if_neg whole, upsertPayload, width, List.append_assoc,
    List.take_left' four, List.drop_left' four, read]
  simp only [if_neg enough, List.take_left, List.drop_left]

/-- A request without a length, or with less than the key that it announces, has no key. -/
theorem keyAndValue?_eq_none_iff {input : Bytes} :
    keyAndValue? input = none
      ↔ input.length < 4 ∨ (input.drop 4).length < ofBigEndian (input.take 4) := by
  rw [keyAndValue?]
  split
  · rename_i short
    exact iff_of_true rfl (.inl short)
  · rename_i whole
    simp only
    split
    · rename_i short
      exact iff_of_true rfl (.inr short)
    · rename_i enough
      exact iff_of_false (Option.some_ne_none _) (not_or.mpr ⟨whole, enough⟩)

theorem parseLookup?_lookupPayload (value : Option Bytes) :
    parseLookup? (lookupPayload value) = value := by
  cases value with
  | none => rfl
  | some bytes => rfl

/-! ## What tables hold -/

namespace Tables

/-- Tables that hold the contents, and no table without entries. -/
structure Holds (t : Tables) (m : Contents) : Prop where
  keyed : t.tables.Keyed
  table : ∀ p table, t.tables.get? p = some table → table.Keyed ∧ table.entries ≠ []
  get : ∀ p key, t.get? p key = m.lookup (p, key)

variable {t : Tables} {m : Contents}

theorem holds_empty : Holds {} ∅ where
  keyed := Assoc.keyed_empty
  table _ _ found := by cases found
  get _ _ := rfl

theorem table_of_get? {p : Partition} {table : Assoc Bytes Bytes}
    (found : t.tables.get? p = some table) : t.table p = table := by
  rw [Tables.table, found, Option.getD_some]

theorem Holds.keyed_table (h : t.Holds m) (p : Partition) : (t.table p).Keyed := by
  cases found : t.tables.get? p with
  | none =>
    rw [Tables.table, found]
    exact Assoc.keyed_empty
  | some table => exact table_of_get? found ▸ (h.table p table found).1

theorem Holds.mem_keys_table_iff (h : t.Holds m) {p : Partition} {key : Bytes} :
    key ∈ (t.table p).keys ↔ (p, key) ∈ m := by
  rw [Assoc.mem_keys_iff, ← Tables.get?, h.get, Ne, Finmap.lookup_eq_none, not_not]

/-- Only the table of one partition is looked at, as only that one changes. -/
theorem Holds.of_sameBut (h : t.Holds m) {t' : Tables} {m' : Contents} {p : Partition}
    (same : t.SameBut p t') (keyed : t'.tables.Keyed)
    (own : ∀ table, t'.tables.get? p = some table → table.Keyed ∧ table.entries ≠ [])
    (get : ∀ key, t'.get? p key = m'.lookup (p, key))
    (others : ∀ q, q ≠ p → ∀ key, m'.lookup (q, key) = m.lookup (q, key)) : t'.Holds m' where
  keyed := keyed
  table q table found := by
    by_cases here : q = p
    · exact own table (here ▸ found)
    · exact h.table q table (same q here ▸ found)
  get q key := by
    by_cases here : q = p
    · rw [here]
      exact get key
    · rw [Tables.get?, Tables.table, same q here, others q here]
      exact h.get q key

/-! ## What operations do to them -/

theorem table_upsert (t : Tables) (p : Partition) (key value : Bytes) :
    (t.upsert p key value).2.table p = (t.table p).insert key value := by
  rw [Tables.upsert, Tables.table, Assoc.get?_insert, if_pos rfl, Option.getD_some]

theorem Holds.upsert (h : t.Holds m) (p : Partition) (key value : Bytes) :
    (t.upsert p key value).2.Holds (m.insert (p, key) value) := by
  refine h.of_sameBut (sameBut_upsert t p key value) (h.keyed.insert _ _) (fun table found => ?_)
    (fun other => ?_) fun q apart other =>
      Finmap.lookup_insert_of_ne _ fun e => apart (Prod.mk.inj e).1
  · obtain rfl : (t.table p).insert key value = table :=
      (table_upsert t p key value).symm.trans (table_of_get? found)
    exact ⟨(h.keyed_table p).insert _ _, List.cons_ne_nil _ _⟩
  · rw [Tables.get?, table_upsert, Assoc.get?_insert]
    split
    · rename_i same
      rw [same, Finmap.lookup_insert]
    · rename_i apart
      rw [Finmap.lookup_insert_of_ne _ fun e => apart (Prod.mk.inj e).2]
      exact h.get p other

theorem table_evict (t : Tables) (p : Partition) (key : Bytes) :
    (t.evict p key).2.table p = (t.table p).erase key := by
  cases found : t.tables.get? p with
  | none =>
    simp only [evict, Tables.table, found]
    rfl
  | some table =>
    simp only [evict, found, table_of_get? found]
    split
    · rename_i empty
      rw [Tables.table, Assoc.get?_erase, if_pos rfl]
      exact congrArg Assoc.mk (List.isEmpty_iff.mp empty).symm
    · rw [Tables.table, Assoc.get?_insert, if_pos rfl, Option.getD_some]

theorem Holds.keyed_evict (h : t.Holds m) (p : Partition) (key : Bytes) :
    (t.evict p key).2.tables.Keyed := by
  simp only [evict]
  split
  · exact h.keyed
  · simp only
    split
    · exact h.keyed.erase _
    · exact h.keyed.insert _ _

/-- A table from which the last entry was removed is dropped. -/
theorem entries_ne_nil_of_evict {p : Partition} {key : Bytes} {table : Assoc Bytes Bytes}
    (left : (t.evict p key).2.tables.get? p = some table) : table.entries ≠ [] := by
  simp only [evict] at left
  split at left
  · rename_i absent
    cases absent.symm.trans left
  · simp only at left
    split at left
    · rw [Assoc.get?_erase_self] at left
      cases left
    · rename_i nonempty
      rw [Assoc.get?_insert, if_pos rfl] at left
      cases left
      exact fun empty => nonempty (List.isEmpty_iff.mpr empty)

theorem Holds.evict (h : t.Holds m) (p : Partition) (key : Bytes) :
    (t.evict p key).2.Holds (m.erase (p, key)) := by
  refine h.of_sameBut (sameBut_evict t p key) (h.keyed_evict p key) (fun table left => ?_)
    (fun other => ?_) fun q apart other =>
      Finmap.lookup_erase_ne fun e => apart (Prod.mk.inj e).1
  · obtain rfl : (t.table p).erase key = table :=
      (table_evict t p key).symm.trans (table_of_get? left)
    exact ⟨(h.keyed_table p).erase key, entries_ne_nil_of_evict left⟩
  · rw [Tables.get?, table_evict, Assoc.get?_erase]
    split
    · rename_i same
      rw [same, Finmap.lookup_erase]
    · rename_i apart
      rw [Finmap.lookup_erase_ne fun e => apart (Prod.mk.inj e).2]
      exact h.get p other

/-! ## Counting what they hold -/

/-- The entries of a partition are counted. -/
theorem Holds.size (h : t.Holds m) (p : Partition) :
    t.size p = (m.keys.filter fun k => k.1 = p).card := by
  have keys : m.keys.filter (fun k => k.1 = p) = (t.table p).keys.toFinset.image (Prod.mk p) := by
    ext ⟨q, key⟩
    rw [Finset.mem_filter, Finmap.mem_keys, Finset.mem_image]
    constructor
    · rintro ⟨mem, rfl⟩
      exact ⟨key, List.mem_toFinset.mpr (h.mem_keys_table_iff.mpr mem), rfl⟩
    · rintro ⟨key, mem, ⟨⟩⟩
      exact ⟨h.mem_keys_table_iff.mp (List.mem_toFinset.mp mem), rfl⟩
  rw [keys, Finset.card_image_of_injective _ (Prod.mk_right_injective p)]
  exact (h.keyed_table p).size_eq_card

/-- Tables are empty only if they hold nothing: no table without entries stays. -/
theorem Holds.isEmpty_iff (h : t.Holds m) : t.isEmpty = true ↔ m = ∅ := by
  constructor
  · intro empty
    have none : t.tables = .empty := congrArg Assoc.mk (List.isEmpty_iff.mp empty)
    refine Finmap.ext_lookup fun ⟨p, key⟩ => ?_
    rw [← h.get p key, Tables.get?, Tables.table, none]
    rfl
  · rintro rfl
    refine List.isEmpty_iff.mpr (List.eq_nil_iff_forall_not_mem.mpr fun ⟨p, table⟩ mem => ?_)
    have found := h.keyed.get?_eq_some_iff.mpr mem
    obtain ⟨⟨key, value⟩, inside⟩ := List.exists_mem_of_ne_nil _ (h.table p table found).2
    have held : key ∈ (t.table p).keys :=
      table_of_get? found ▸ List.mem_map_of_mem (f := Prod.fst) inside
    exact Finmap.notMem_empty (h.mem_keys_table_iff.mp held)

end Tables

/-! ## Requests -/

/-- What a request does to the contents. -/
def Errand.apply (e : Errand) (m : Contents) : Contents :=
  if e.opcode = Opcode.tableUpsert.byte then
    match keyAndValue? e.input with
    | some (key, value) => m.insert (e.partition, key) value
    | none => m
  else if e.opcode = Opcode.tableEvict.byte then m.erase (e.partition, e.input)
  else m

/-- What tables hold after some requests, if they held nothing before. -/
def contents (log : List Errand) : Contents := log.foldl (fun m e => e.apply m) ∅

theorem contents_concat (log : List Errand) (e : Errand) :
    contents (log ++ [e]) = e.apply (contents log) := by
  rw [contents, List.foldl_concat]
  rfl

/-- A request has to do with one key of its partition. -/
theorem Errand.exists_lookup_apply (e : Errand) (m : Contents) :
    ∃ key, ∀ place, place ≠ (e.partition, key) → (e.apply m).lookup place = m.lookup place := by
  rw [apply]
  split
  · cases keyAndValue? e.input with
    | none => exact ⟨[], fun _ _ => rfl⟩
    | some pair => exact ⟨pair.1, fun _ apart => Finmap.lookup_insert_of_ne _ apart⟩
  · split
    · exact ⟨e.input, fun _ apart => Finmap.lookup_erase_ne apart⟩
    · exact ⟨[], fun _ _ => rfl⟩

theorem Builtin.runUpsert_of_some (kept : Item) {c : Call} {key value : Bytes}
    (parsed : keyAndValue? c.input = some (key, value)) :
    runUpsert kept c = ⟨{}, [], lookupPayload (c.tables.get? c.partition key),
      (c.tables.upsert c.partition key value).2, .finished⟩ := by
  rw [keyAndValue?] at parsed
  rw [runUpsert]
  split at parsed
  · cases parsed
  · rename_i whole
    rw [if_neg whole]
    simp only at parsed ⊢
    split at parsed
    · cases parsed
    · rename_i enough
      cases parsed
      rw [if_neg enough]
      rfl

theorem Builtin.runUpsert_of_none (kept : Item) {c : Call}
    (malformed : keyAndValue? c.input = none) :
    ∃ unread text, runUpsert kept c = ⟨kept, unread, [], c.tables, .failed (.malformed text)⟩ := by
  rw [runUpsert]
  split
  · exact ⟨_, _, rfl⟩
  · rename_i whole
    have short := (keyAndValue?_eq_none_iff.mp malformed).resolve_left whole
    simp only
    rw [if_pos short]
    exact ⟨_, _, rfl⟩

namespace Registry

variable {σ : Type} [Builtin.HasItem σ] (t : Tables) (p : Partition) (id : UInt64)

/-- A new instance, as any other, runs an upsert on what it keeps. -/
theorem exists_serve_upsert (input : Bytes) : ∃ kept,
    let run := Builtin.runUpsert kept ⟨p, id, input, t⟩
    (builtin : Registry σ).serve t ⟨Opcode.tableUpsert.byte, p, id, input⟩
      = (some run.result, run.tables) :=
  ⟨Builtin.HasItem.item (Builtin.upsert : Operation σ).fresh, rfl⟩

theorem serve_upsert_of_some {input key value : Bytes}
    (parsed : keyAndValue? input = some (key, value)) :
    (builtin : Registry σ).serve t ⟨Opcode.tableUpsert.byte, p, id, input⟩
      = (some (.ok (lookupPayload (t.get? p key))), (t.upsert p key value).2) := by
  obtain ⟨kept, served⟩ := exists_serve_upsert (σ := σ) t p id input
  simp only [served, Builtin.runUpsert_of_some kept (c := ⟨p, id, input, t⟩) parsed]
  rfl

theorem serve_upsert_of_none {input : Bytes} (malformed : keyAndValue? input = none) :
    ∃ text, (builtin : Registry σ).serve t ⟨Opcode.tableUpsert.byte, p, id, input⟩
      = (some (.error ⟨.malformedRequest, text⟩), t) := by
  obtain ⟨kept, served⟩ := exists_serve_upsert (σ := σ) t p id input
  obtain ⟨unread, text, ran⟩ := Builtin.runUpsert_of_none kept (c := ⟨p, id, input, t⟩) malformed
  refine ⟨text, ?_⟩
  simp only [served, ran]
  rfl

theorem serve_select (key : Bytes) :
    (builtin : Registry σ).serve t ⟨Opcode.tableSelectByKey.byte, p, id, key⟩
      = (some (.ok (lookupPayload (t.get? p key))), t) := rfl

theorem serve_evict (key : Bytes) :
    (builtin : Registry σ).serve t ⟨Opcode.tableEvict.byte, p, id, key⟩
      = (none, (t.evict p key).2) := rfl

/-- The other operations of every member look at no table or only read. -/
theorem tables_serve_of_other {e : Errand} (stores : e.opcode ≠ Opcode.tableUpsert.byte)
    (evicts : e.opcode ≠ Opcode.tableEvict.byte) : ((builtin : Registry σ).serve t e).2 = t := by
  simp only [serve, builtin, register, if_neg stores, if_neg evicts]
  split
  · rfl
  · rename_i op found
    split at found
    · cases found
      rfl
    · split at found
      · cases found
        rfl
      · split at found
        · cases found
          rfl
        · cases found

variable {t} in
/-- Requests do to the tables what they do to the contents. -/
theorem holds_serve {m : Contents} (h : t.Holds m) (e : Errand) :
    ((builtin : Registry σ).serve t e).2.Holds (e.apply m) := by
  obtain ⟨opcode, p, id, input⟩ := e
  simp only [Errand.apply]
  split
  · rename_i stores
    subst stores
    cases parsed : keyAndValue? input with
    | none =>
      obtain ⟨text, served⟩ := serve_upsert_of_none (σ := σ) t p id parsed
      rw [served]
      exact h
    | some pair =>
      rw [serve_upsert_of_some t p id parsed]
      exact h.upsert p pair.1 pair.2
  · rename_i stores
    split
    · rename_i evicts
      subst evicts
      rw [serve_evict]
      exact h.evict p input
    · rename_i evicts
      rw [tables_serve_of_other t stores evicts]
      exact h

theorem holds_serveAll (log : List Errand) :
    ((builtin : Registry σ).serveAll {} log).Holds (contents log) := by
  induction log using List.reverseRecOn with
  | nil => exact Tables.holds_empty
  | append_singleton log e ih =>
    rw [contents_concat, serveAll, List.foldl_concat]
    exact holds_serve ih e

end Registry

/-! ## Refinement -/

section Apply

variable (log : List Errand) (p : Partition) (id : UInt64)

theorem contents_upsert {input key value : Bytes}
    (parsed : keyAndValue? input = some (key, value)) :
    contents (log ++ [⟨Opcode.tableUpsert.byte, p, id, input⟩])
      = (contents log).insert (p, key) value := by
  rw [contents_concat, Errand.apply, if_pos rfl, parsed]

theorem contents_malformed {input : Bytes} (malformed : keyAndValue? input = none) :
    contents (log ++ [⟨Opcode.tableUpsert.byte, p, id, input⟩]) = contents log := by
  rw [contents_concat, Errand.apply, if_pos rfl, malformed]

theorem contents_evict (key : Bytes) :
    contents (log ++ [⟨Opcode.tableEvict.byte, p, id, key⟩]) = (contents log).erase (p, key) := by
  have apart : Opcode.tableEvict.byte ≠ Opcode.tableUpsert.byte := by decide
  rw [contents_concat, Errand.apply, if_neg apart, if_pos rfl]

theorem contents_of_other {e : Errand} (stores : e.opcode ≠ Opcode.tableUpsert.byte)
    (evicts : e.opcode ≠ Opcode.tableEvict.byte) : contents (log ++ [e]) = contents log := by
  rw [contents_concat, Errand.apply, if_neg stores, if_neg evicts]

theorem contents_select (key : Bytes) :
    contents (log ++ [⟨Opcode.tableSelectByKey.byte, p, id, key⟩]) = contents log := by
  have reads : Opcode.tableSelectByKey.byte ≠ Opcode.tableUpsert.byte := by decide
  have keeps : Opcode.tableSelectByKey.byte ≠ Opcode.tableEvict.byte := by decide
  exact contents_of_other log reads keeps

end Apply

/-- After any requests the tables of a dispatcher with the operations of every member are one
map.  An upsert stores in it and answers what was there, a select answers what is there,
and an evict removes.  An upsert that is malformed fails, and with any other operation
nothing changes.  No request has to do with another partition than its own or with more
than one key.  The numbers of entries are those of the map, and the tables are empty
exactly if the map is. -/
theorem Dispatcher.tables_as_map {σ : Type} [Builtin.HasItem σ] (capacity : Nat) (log : List Errand) :
    let d := log.foldl serve (new (Registry.builtin : Registry σ) capacity)
    let m := contents log
    (∀ p key, d.tables.get? p key = m.lookup (p, key))
    ∧ (∀ p, d.tables.size p = (m.keys.filter fun place => place.1 = p).card)
    ∧ (d.tables.isEmpty = true ↔ m = ∅)
    ∧ (∀ p id key value, key.length < 2 ^ 32 →
      let e : Errand := ⟨Opcode.tableUpsert.byte, p, id, upsertPayload key value⟩
      (∃ bytes, d.answer e = some (.ok bytes) ∧ parseLookup? bytes = m.lookup (p, key))
      ∧ contents (log ++ [e]) = m.insert (p, key) value)
    ∧ (∀ p id key,
      let e : Errand := ⟨Opcode.tableSelectByKey.byte, p, id, key⟩
      (∃ bytes, d.answer e = some (.ok bytes) ∧ parseLookup? bytes = m.lookup (p, key))
      ∧ contents (log ++ [e]) = m)
    ∧ (∀ p id key,
      let e : Errand := ⟨Opcode.tableEvict.byte, p, id, key⟩
      d.answer e = none ∧ contents (log ++ [e]) = m.erase (p, key))
    ∧ (∀ p id input, input.length < 4 ∨ (input.drop 4).length < ofBigEndian (input.take 4) →
      let e : Errand := ⟨Opcode.tableUpsert.byte, p, id, input⟩
      (∃ text, d.answer e = some (.error ⟨.malformedRequest, text⟩))
      ∧ contents (log ++ [e]) = m)
    ∧ (∀ e, e.opcode ≠ Opcode.tableUpsert.byte → e.opcode ≠ Opcode.tableEvict.byte →
      contents (log ++ [e]) = m)
    ∧ ∀ e, ∃ key, ∀ place, place ≠ (e.partition, key) →
      (contents (log ++ [e])).lookup place = m.lookup place := by
  intro d m
  have resettable := Registry.resettable_builtin (σ := σ)
  obtain ⟨tidy, tables⟩ := (tidy_new Registry.builtin capacity).run resettable log
  have h : d.tables.Holds m := tables ▸ Registry.holds_serveAll log
  have answers (e : Errand) : d.answer e = ((Registry.builtin : Registry σ).serve d.tables e).1 :=
    (tidy.step resettable e).1
  have looks {e : Errand} {p : Partition} {key : Bytes}
      (found : d.answer e = some (.ok (lookupPayload (d.tables.get? p key)))) :
      ∃ bytes, d.answer e = some (.ok bytes) ∧ parseLookup? bytes = m.lookup (p, key) :=
    ⟨_, found, (parseLookup?_lookupPayload _).trans (h.get p key)⟩
  refine ⟨h.get, h.size, h.isEmpty_iff, fun p id key value short => ⟨looks ?_, ?_⟩,
    fun p id key => ⟨looks ?_, contents_select log p id key⟩,
    fun p id key => ⟨?_, contents_evict log p id key⟩,
    fun p id input malformed => ?_, fun e => contents_of_other log, fun e => ?_⟩
  · rw [answers, Registry.serve_upsert_of_some _ _ _ (keyAndValue?_upsertPayload short value)]
  · exact contents_upsert log p id (keyAndValue?_upsertPayload short value)
  · rw [answers, Registry.serve_select]
  · rw [answers, Registry.serve_evict]
  · have malformed := keyAndValue?_eq_none_iff.mpr malformed
    obtain ⟨text, served⟩ := Registry.serve_upsert_of_none (σ := σ) d.tables p id malformed
    exact ⟨⟨text, by rw [answers, served]⟩, contents_malformed log p id malformed⟩
  · rw [contents_concat]
    exact e.exists_lookup_apply _

end PartitionEngine
