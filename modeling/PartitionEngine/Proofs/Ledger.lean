import PartitionEngine.Proofs.Pending
import Mathlib.Data.List.Induction

/-!
# The ledger of a table

A ledger lists the invocations a table ever registered, in the order of their
futures, each with its result.  It is a function of the history alone: an
operation writes its outcome to the entries it selects that have none
(`Entry.settle`).

`Records` ties a table to its ledger.  The pending entries are exactly the
entries without a result, and each future holds what its entry holds.  Every
operation of the table takes invocations of a peer out by a test and delivers
one outcome to all of them, which is the one step lemma `Records.takes`.
-/

namespace PartitionEngine

theorem Completion.result_complete (c : Completion) (outcome : Outcome) :
    (c.complete outcome).2.result = c.result.or (some outcome) := by
  unfold complete isDone
  cases found : c.result with
  | none => rfl
  | some r => exact found

/-- A registered invocation of a peer, with its result. -/
structure Entry where
  peer : Address
  invocation : Invocation
  result : Option Outcome := none

/-- Writes the outcome that an operation has for the invocation, unless there is
a result. -/
def Entry.settle (outcome : Address → Invocation → Option Outcome) (e : Entry) : Entry :=
  { e with result := e.result.or (outcome e.peer e.invocation) }

theorem Entry.map_settle_none (ledger : List Entry) :
    ledger.map (Entry.settle fun _ _ => none) = ledger := by
  have same : Entry.settle (fun _ _ => none) = id := by
    funext e
    simp [Entry.settle]
  rw [same, List.map_id]

namespace InvocationTable

/-- The outcome for the invocations of some peers that a test selects. -/
def selected (peers : Address → Bool) (select : Invocation → Bool) (outcome : Outcome)
    (peer : Address) (i : Invocation) : Option Outcome :=
  if peers peer && select i then some outcome else none

theorem selected_or (some_peers more : Address → Bool) (select : Invocation → Bool)
    (outcome : Outcome) (peer : Address) (i : Invocation) :
    (selected some_peers select outcome peer i).or (selected more select outcome peer i)
      = selected (fun peer => some_peers peer || more peer) select outcome peer i := by
  cases sel : select i with
  | false => simp [selected, sel]
  | true =>
    cases first : some_peers peer with
    | true => simp [selected, sel, first]
    | false => simp [selected, sel, first]

/-- What has arrived at a future, if there is a future of that number. -/
def standing (t : InvocationTable) (k : FutureId) : Option (Option Outcome) :=
  (t.future? k).map (·.completion.result)

/-- The id drawn last for a peer. -/
def lastId (t : InvocationTable) (peer : Address) : UInt64 :=
  ((t.peers.get? peer).getD {}).counter

/-- The table has what the ledger says. -/
structure Records (t : InvocationTable) (ledger : List Entry) : Prop where
  numbered : ∀ (k : Nat) (e : Entry), ledger[k]? = some e → e.invocation.future = k
  ids : ∀ k, (t.future? k).map (·.correlationId) = ledger[k]?.map (·.invocation.correlationId)
  results : ∀ k, t.standing k = ledger[k]?.map (·.result)
  waits : ∀ peer id i,
    t.Waits peer id i ↔ ⟨peer, i, none⟩ ∈ ledger ∧ i.correlationId = id
  keyed : t.peers.Keyed
  pending : ∀ peer p, t.peers.get? peer = some p → p.pending.Keyed

theorem waits_insert_iff {t t' : InvocationTable} {peer k : Address} {p : PeerInvocations}
    (peers : t'.peers = t.peers.insert peer p) {id : UInt64} {i : Invocation} :
    t'.Waits k id i ↔ if k = peer then (id, i) ∈ p.pending.entries else t.Waits k id i := by
  unfold Waits
  rw [peers, Assoc.get?_insert]
  split
  · simp
  · rfl

theorem waits_iff {t : InvocationTable} {peer : Address} {id : UInt64} {i : Invocation}
    {p : PeerInvocations} (found : t.peers.get? peer = some p) :
    t.Waits peer id i ↔ (id, i) ∈ p.pending.entries := by
  simp [Waits, found]

/-- A peer that is not there has nothing that waits. -/
theorem waits_iff_getD (t : InvocationTable) (peer : Address) (id : UInt64) (i : Invocation) :
    t.Waits peer id i ↔ (id, i) ∈ ((t.peers.get? peer).getD {}).pending.entries := by
  cases found : t.peers.get? peer with
  | none => simp [Waits, found, Assoc.empty]
  | some p => simp [Waits, found]

theorem standing_deliver (t : InvocationTable) (j k : FutureId) (outcome : Outcome) :
    (t.deliver j outcome).standing k
      = (t.standing k).map fun r => if j = k then r.or (some outcome) else r := by
  simp only [standing, future?, deliver, Array.getElem?_modify]
  split
  · simp only [Option.map_map, Function.comp_def]
    simp only [Completion.result_complete]
  · simp only [Option.map_id']

/-- Delivering an outcome sets the results that are not set. -/
theorem standing_deliver_all (taken : List Invocation) (outcome : Outcome) (t : InvocationTable)
    (k : FutureId) :
    (taken.foldl (fun t i => t.deliver i.future outcome) t).standing k
      = (t.standing k).map fun r =>
          if ∃ i ∈ taken, i.future = k then r.or (some outcome) else r := by
  induction taken generalizing t with
  | nil => simp
  | cons i rest ih =>
    rw [List.foldl_cons, ih, standing_deliver, Option.map_map]
    congr 1
    funext r
    by_cases here : i.future = k
    · by_cases later : ∃ j ∈ rest, j.future = k
      · simp [here, later]
      · simp [here, later]
    · simp [here]

theorem ids_deliver_all (taken : List Invocation) (outcome : Outcome) (t : InvocationTable)
    (k : FutureId) :
    ((taken.foldl (fun t i => t.deliver i.future outcome) t).future? k).map (·.correlationId)
      = (t.future? k).map (·.correlationId) := by
  induction taken generalizing t with
  | nil => rfl
  | cons i rest ih =>
    rw [List.foldl_cons, ih]
    simp only [future?, deliver, Array.getElem?_modify]
    split
    · simp only [Option.map_map, Function.comp_def]
    · rfl

theorem futures_deliver_all (taken : List Invocation) (outcome : Outcome) {t t' : InvocationTable}
    (same : t.futures = t'.futures) :
    (taken.foldl (fun t i => t.deliver i.future outcome) t).futures
      = (taken.foldl (fun t i => t.deliver i.future outcome) t').futures := by
  induction taken generalizing t t' with
  | nil => exact same
  | cons i rest ih => exact ih (by simp only [deliver, same])

theorem mem_settle_none {ledger : List Entry} {outcome : Address → Invocation → Option Outcome}
    {peer : Address} {i : Invocation} :
    ⟨peer, i, none⟩ ∈ ledger.map (Entry.settle outcome)
      ↔ ⟨peer, i, none⟩ ∈ ledger ∧ outcome peer i = none := by
  rw [List.mem_map]
  constructor
  · rintro ⟨⟨k, j, r⟩, mem, same⟩
    simp only [Entry.settle, Entry.mk.injEq, Option.or_eq_none_iff] at same
    obtain ⟨rfl, rfl, rfl, unsettled⟩ := same
    exact ⟨mem, unsettled⟩
  · rintro ⟨mem, unsettled⟩
    exact ⟨_, mem, by simp [Entry.settle, unsettled]⟩

/-- Either nothing waits under the id, or what is found there leaves and gets the
outcome. -/
theorem complete_cases (t : InvocationTable) (peer : Address) (id : UInt64) (outcome : Outcome) :
    (t.complete peer id outcome = (false, t) ∧ ∀ i, ¬ t.Waits peer id i) ∨
    ∃ p i, t.peers.get? peer = some p ∧ p.pending.get? id = some i ∧
      t.complete peer id outcome = (true, InvocationTable.deliver
        { t with peers := t.peers.insert peer { p with pending := p.pending.erase id } }
        i.future outcome) := by
  unfold complete
  split
  · rename_i absent
    refine .inl ⟨rfl, ?_⟩
    rintro i ⟨p, found, -⟩
    rw [absent] at found
    cases found
  · rename_i p found
    split
    · rename_i absent
      refine .inl ⟨rfl, fun i waits => ?_⟩
      exact Assoc.not_mem_of_get? absent i ((waits_iff found).mp waits)
    · rename_i i held
      exact .inr ⟨p, i, found, held, rfl⟩

theorem complete_first_iff (t : InvocationTable) (peer : Address) (id : UInt64)
    (outcome : Outcome) :
    (t.complete peer id outcome).1 = true ↔ ∃ i, t.Waits peer id i := by
  rcases complete_cases t peer id outcome with ⟨unchanged, absent⟩ | ⟨p, i, found, held, changed⟩
  · simp [unchanged, absent]
  · simp only [changed, true_iff]
    exact ⟨i, p, found, Assoc.mem_of_get? held⟩

/-! ### The id drawn last -/

theorem lastId_insert {t t' : InvocationTable} {peer : Address} {p : PeerInvocations}
    (peers : t'.peers = t.peers.insert peer p) (k : Address) :
    t'.lastId k = if k = peer then p.counter else t.lastId k := by
  unfold lastId
  rw [peers, Assoc.get?_insert]
  split
  · rfl
  · rfl

/-- Settling invocations draws no ids. -/
theorem lastId_failWhere (t : InvocationTable) (peer k : Address) (e : Failure)
    (select : Invocation → Bool) : (t.failWhere peer e select).2.lastId k = t.lastId k := by
  unfold failWhere
  split
  · rfl
  · rename_i p found
    rw [lastId_insert (t := t) (peers_deliver_all _ e _)]
    split
    · rename_i same
      simp only [lastId, same, found, Option.getD_some]
    · rfl

theorem lastId_failAnywhere (t : InvocationTable) (k : Address) (e : Failure)
    (select : Invocation → Bool) : (t.failAnywhere e select).2.lastId k = t.lastId k := by
  have passed (peers : List Address) (s : InvocationTable) :
      (s.failEach peers e select).lastId k = s.lastId k := by
    induction peers generalizing s with
    | nil => rfl
    | cons peer rest ih => exact (ih _).trans (lastId_failWhere s peer k e select)
  rw [snd_failAnywhere]
  exact passed t.peers.keys t

theorem lastId_complete (t : InvocationTable) (peer k : Address) (id : UInt64) (outcome : Outcome) :
    (t.complete peer id outcome).2.lastId k = t.lastId k := by
  rcases t.complete_cases peer id outcome with ⟨unchanged, -⟩ | ⟨p, i, found, -, changed⟩
  · rw [unchanged]
  · rw [changed, lastId_insert (t := t) rfl]
    split
    · rename_i same
      simp only [lastId, same, found, Option.getD_some]
    · rfl

theorem lastId_addPeer (t : InvocationTable) (peer k : Address) :
    (t.addPeer peer).lastId k = t.lastId k := by
  unfold addPeer
  split
  · rfl
  · rename_i absent
    rw [lastId_insert (t := t) rfl]
    split
    · rename_i same
      simp only [lastId, same, absent, Option.getD_none]
    · rfl

theorem lastId_nextId (t : InvocationTable) (peer k : Address) :
    (t.nextId peer).2.lastId k = if k = peer then t.lastId peer + 1 else t.lastId k := by
  have drawn : (t.nextId peer).2.peers = t.peers.insert peer
      { (t.peers.get? peer).getD {} with counter := t.lastId peer + 1 } := rfl
  exact lastId_insert drawn k

theorem lastId_register (t : InvocationTable) (peer k : Address) (partition : Partition)
    (reactor : Nat) :
    (t.register peer partition reactor).2.2.lastId k
      = if k = peer then t.lastId peer + 1 else t.lastId k := by
  unfold register
  rw [lastId_insert (t := (t.nextId peer).2) rfl]
  split
  · rename_i same
    subst same
    have drawn := lastId_nextId t k k
    rw [if_pos rfl] at drawn
    exact drawn
  · rename_i other
    have kept := lastId_nextId t peer k
    rw [if_neg other] at kept
    exact kept

namespace Records

variable {t t' : InvocationTable} {ledger : List Entry}

theorem empty : Records {} [] where
  numbered := by simp
  ids := by simp [future?]
  results := by simp [standing, future?]
  waits := by
    intro peer id i
    constructor
    · rintro ⟨p, found, -⟩
      cases found
    · rintro ⟨mem, -⟩
      cases mem
  keyed := Assoc.keyed_empty
  pending := by
    intro peer p found
    cases found

theorem getElem?_concat (ledger : List Entry) (e : Entry) (k : Nat) :
    (ledger ++ [e])[k]? = if k = ledger.length then some e else ledger[k]? := by
  rw [List.getElem?_append]
  split
  · rw [if_neg (by omega)]
  · rw [List.getElem?_singleton]
    split
    · rw [if_pos (by omega)]
    · rw [if_neg (by omega), List.getElem?_eq_none (by omega)]

theorem get?_of_mem (h : t.Records ledger) {e : Entry} (mem : e ∈ ledger) :
    ledger[e.invocation.future]? = some e := by
  obtain ⟨k, hk⟩ := List.getElem?_of_mem mem
  rw [h.numbered k e hk, hk]

theorem length (h : t.Records ledger) : t.futures.size = ledger.length := by
  have inside (k : Nat) : k < t.futures.size ↔ k < ledger.length := by
    have same := congrArg (· = none) (h.results k)
    simp only [standing, future?, Option.map_eq_none_iff, Array.getElem?_eq_none_iff,
      List.getElem?_eq_none_iff, eq_iff_iff] at same
    omega
  have := inside t.futures.size
  have := inside ledger.length
  omega

/-- The pending invocations of a peer, if there are any, are told by their ids. -/
theorem keyed_getD (h : t.Records ledger) (peer : Address) :
    ((t.peers.get? peer).getD {}).pending.Keyed := by
  cases found : t.peers.get? peer with
  | none => exact Assoc.keyed_empty
  | some p => exact h.pending peer p found

/-! ### Taking invocations out -/

/-- An entry without a result is among those that are taken out of a peer if the test
selects it. -/
theorem exists_taken_iff (h : t.Records ledger) {taken : List Invocation} {peer : Address}
    {p : PeerInvocations} {select : Invocation → Bool} (found : t.peers.get? peer = some p)
    (out : ∀ i, i ∈ taken ↔ i ∈ p.pending.values ∧ select i = true) {k : Nat} {e : Entry}
    (at_k : ledger[k]? = some e) (unsettled : e.result = none) :
    (∃ i ∈ taken, i.future = k) ↔ e.peer = peer ∧ select e.invocation = true := by
  constructor
  · rintro ⟨i, mem, here⟩
    obtain ⟨values, sel⟩ := (out i).mp mem
    obtain ⟨⟨id, j⟩, held, rfl⟩ := List.mem_map.mp values
    have listed := h.get?_of_mem ((h.waits peer id j).mp ((waits_iff found).mpr held)).1
    have same : e = ⟨peer, j, none⟩ := by
      rw [here, at_k] at listed
      exact Option.some.inj listed
    exact ⟨congrArg Entry.peer same, congrArg Entry.invocation same ▸ sel⟩
  · rintro ⟨rfl, sel⟩
    have whole : e = ⟨e.peer, e.invocation, none⟩ := by rw [← unsettled]
    have waits := (h.waits e.peer _ e.invocation).mpr ⟨whole ▸ List.mem_of_getElem? at_k, rfl⟩
    have value := List.mem_map_of_mem (f := Prod.snd) ((waits_iff found).mp waits)
    exact ⟨e.invocation, (out _).mpr ⟨value, sel⟩, h.numbered k e at_k⟩

/-- Invocations of a peer are taken out of the table by a test, and one outcome
is delivered to all of them. -/
theorem takes (h : t.Records ledger) (taken : List Invocation) {peer : Address}
    {p : PeerInvocations} {q : Assoc UInt64 Invocation} {select : Invocation → Bool}
    {outcome : Outcome} (found : t.peers.get? peer = some p)
    (peers : t'.peers = t.peers.insert peer { p with pending := q })
    (futures : t'.futures = (taken.foldl (fun t i => t.deliver i.future outcome) t).futures)
    (rest : q.entries = p.pending.entries.filter fun e => !select e.2)
    (out : ∀ i, i ∈ taken ↔ i ∈ p.pending.values ∧ select i = true) :
    t'.Records (ledger.map (.settle (selected (· = peer) select outcome))) where
  numbered := by
    intro k e he
    rw [List.getElem?_map, Option.map_eq_some_iff] at he
    obtain ⟨e, he, rfl⟩ := he
    exact h.numbered k e he
  ids := by
    intro k
    have same := ids_deliver_all taken outcome t k
    simp only [future?] at same
    rw [future?, futures, same, List.getElem?_map, Option.map_map]
    exact h.ids k
  results := by
    intro k
    have same : t'.standing k
        = (taken.foldl (fun t i => t.deliver i.future outcome) t).standing k := by
      simp only [standing, future?, futures]
    rw [same, standing_deliver_all, h.results k, List.getElem?_map, Option.map_map, Option.map_map]
    cases he : ledger[k]? with
    | none => rfl
    | some e =>
      refine congrArg some ?_
      simp only [Function.comp_apply, Entry.settle]
      cases unsettled : e.result with
      | some r => split <;> rfl
      | none =>
        simp only [h.exists_taken_iff found out he unsettled]
        by_cases chosen : e.peer = peer ∧ select e.invocation = true
        · simp [selected, chosen]
        · simp only [selected, decide_eq_true_eq, Bool.and_eq_true, chosen, ↓reduceIte,
            Option.none_or]
  waits := by
    intro k id i
    rw [waits_insert_iff peers, mem_settle_none]
    split
    · rename_i same
      subst same
      rw [rest, List.mem_filter, ← waits_iff found, h.waits]
      simp only [selected, decide_true, Bool.true_and]
      cases select i with
      | true => simp
      | false => simp
    · rename_i other
      simp [selected, other, h.waits]
  keyed := peers ▸ h.keyed.insert _ _
  pending := by
    intro k p' found'
    rw [peers, Assoc.get?_insert] at found'
    split at found'
    · cases found'
      have keyed := h.pending peer p found
      show (q.entries.map Prod.fst).Nodup
      rw [rest]
      exact keyed.filter fun i => !select i
    · exact h.pending k p' found'

theorem settle_of_selected_none (outcome : Outcome) {select : Invocation → Bool}
    {peers : Address → Bool}
    (none_selected : ∀ peer i, ⟨peer, i, none⟩ ∈ ledger → (peers peer && select i) = false) :
    ledger.map (.settle (selected peers select outcome)) = ledger := by
  rw [List.map_congr_left (g := id), List.map_id]
  rintro ⟨peer, i, r⟩ mem
  cases r with
  | some r => rfl
  | none => simp [Entry.settle, selected, none_selected peer i mem]

theorem complete (h : t.Records ledger) (peer : Address) (id : UInt64) (outcome : Outcome) :
    (t.complete peer id outcome).2.Records
      (ledger.map (.settle (selected (· = peer) (·.correlationId = id) outcome))) := by
  rcases complete_cases t peer id outcome with ⟨unchanged, absent⟩ | ⟨p, i, found, held, changed⟩
  · rw [unchanged, settle_of_selected_none]
    · exact h
    · intro k i mem
      by_cases both : k = peer ∧ i.correlationId = id
      · obtain ⟨rfl, same⟩ := both
        exact absurd ((h.waits k id i).mpr ⟨mem, same⟩) (absent i)
      · simpa using both
  · rw [changed]
    have own (j : UInt64) (i : Invocation) (mem : (j, i) ∈ p.pending.entries) :
        i.correlationId = j := ((h.waits peer j i).mp ((waits_iff found).mpr mem)).2
    have keyed := h.pending peer p found
    refine h.takes [i] (q := p.pending.erase id) found rfl rfl ?_ ?_
    · rw [Assoc.entries_erase]
      refine List.filter_congr fun e mem => ?_
      rw [own e.1 e.2 mem]
      simp
    · intro j
      rw [List.mem_singleton]
      constructor
      · rintro rfl
        have mem := Assoc.mem_of_get? held
        exact ⟨List.mem_map_of_mem (f := Prod.snd) mem, by simpa using own id j mem⟩
      · rintro ⟨value, same⟩
        obtain ⟨⟨id', j'⟩, mem, rfl⟩ := List.mem_map.mp value
        obtain rfl : id' = id := (own id' j' mem).symm.trans (by simpa using same)
        exact keyed.value_unique mem (Assoc.mem_of_get? held)

theorem failWhere (h : t.Records ledger) (peer : Address) (e : Failure)
    (select : Invocation → Bool) :
    (t.failWhere peer e select).2.Records
      (ledger.map (.settle (selected (· = peer) select (.error e)))) := by
  unfold InvocationTable.failWhere
  split
  · rename_i absent
    rw [settle_of_selected_none]
    · exact h
    · intro k i mem
      obtain ⟨p, there, -⟩ := (h.waits k _ i).mpr ⟨mem, rfl⟩
      have other : k ≠ peer := by
        rintro rfl
        rw [absent] at there
        cases there
      simp [other]
  · rename_i p found
    refine h.takes (p.pending.values.filter select) (q := p.pending.filter fun i => !select i)
      found ?_ ?_ rfl fun i => List.mem_filter
    · exact peers_deliver_all _ e _
    · exact futures_deliver_all _ _ rfl

/-- The keys are worked through one by one; an entry whose peer is among them is
settled when its peer comes. -/
theorem failAnywhere (h : t.Records ledger) (e : Failure) (select : Invocation → Bool) :
    (t.failAnywhere e select).2.Records
      (ledger.map (.settle (selected (fun _ => true) select (.error e)))) := by
  have passed (peers : List Address) (s : InvocationTable) (ledger : List Entry)
      (h : s.Records ledger) :
      (s.failEach peers e select).Records
        (ledger.map (.settle (selected (fun peer => peers.contains peer) select (.error e)))) := by
    induction peers generalizing s ledger with
    | nil =>
      rw [settle_of_selected_none _ (by simp)]
      exact h
    | cons peer rest ih =>
      have later := ih _ _ (h.failWhere peer e select)
      rw [List.map_map] at later
      have both : Entry.settle (selected (fun k => rest.contains k) select (.error e))
          ∘ Entry.settle (selected (· = peer) select (.error e))
          = Entry.settle (selected (fun k => (peer :: rest).contains k) select (.error e)) := by
        funext x
        simp only [Function.comp_apply, Entry.settle, Option.or_assoc, selected_or,
          List.contains_cons, beq_eq_decide]
      rw [both] at later
      exact later
  have all : ledger.map
        (Entry.settle (selected (fun peer => t.peers.keys.contains peer) select (.error e)))
      = ledger.map (Entry.settle (selected (fun _ => true) select (.error e))) := by
    refine List.map_congr_left ?_
    rintro ⟨peer, i, r⟩ mem
    cases r with
    | some r => rfl
    | none =>
      obtain ⟨p, found, -⟩ := (h.waits peer _ i).mpr ⟨mem, rfl⟩
      simp [Entry.settle, selected, mem_keys_of_get? found]
  rw [snd_failAnywhere]
  exact all ▸ passed t.peers.keys t ledger h

/-! ### Drawing ids -/

/-- The record of a peer is replaced, or made, and its pending invocations stay. -/
theorem replace (h : t.Records ledger) {peer : Address} {p : PeerInvocations}
    (peers : t'.peers = t.peers.insert peer p) (futures : t'.futures = t.futures)
    (same : p.pending = ((t.peers.get? peer).getD {}).pending) : t'.Records ledger where
  numbered := h.numbered
  ids := by
    simp only [future?, futures]
    exact h.ids
  results := by
    simp only [standing, future?, futures]
    exact h.results
  waits := by
    intro k id i
    rw [waits_insert_iff peers, ← h.waits]
    split
    · rename_i here
      subst here
      rw [same, waits_iff_getD]
    · rfl
  keyed := peers ▸ h.keyed.insert _ _
  pending := by
    intro k p' found
    rw [peers, Assoc.get?_insert] at found
    split at found
    · cases found
      rw [same]
      exact h.keyed_getD peer
    · exact h.pending k p' found

theorem nextId (h : t.Records ledger) (peer : Address) : (t.nextId peer).2.Records ledger :=
  h.replace rfl rfl rfl

theorem addPeer (h : t.Records ledger) (peer : Address) : (t.addPeer peer).Records ledger := by
  unfold InvocationTable.addPeer
  split
  · exact h
  · rename_i absent
    exact h.replace (p := {}) rfl rfl (by rw [absent]; rfl)

/-- A registration draws an id and adds an invocation that waits under it. -/
theorem register (h : t.Records ledger) (peer : Address) (partition : Partition) (reactor : Nat)
    (fresh : ∀ i, ¬ t.Waits peer (t.lastId peer + 1) i) :
    (t.register peer partition reactor).2.2.Records (ledger ++
      [⟨peer, ⟨t.lastId peer + 1, partition, reactor, ledger.length⟩, none⟩]) := by
  have size := h.length
  have peers : (t.register peer partition reactor).2.2.peers
      = (t.nextId peer).2.peers.insert peer
          ⟨t.lastId peer + 1, ((t.peers.get? peer).getD {}).pending.insert (t.lastId peer + 1)
            ⟨t.lastId peer + 1, partition, reactor, t.futures.size⟩⟩ := by
    simp [InvocationTable.register, InvocationTable.nextId, addFuture, Assoc.get?_insert, lastId]
  have vacant : ((t.peers.get? peer).getD {}).pending.get? (t.lastId peer + 1) = none := by
    cases waiting : ((t.peers.get? peer).getD {}).pending.get? (t.lastId peer + 1) with
    | none => rfl
    | some i => exact absurd ((waits_iff_getD ..).mpr (Assoc.mem_of_get? waiting)) (fresh i)
  have futures : (t.register peer partition reactor).2.2.futures
      = t.futures.push { correlationId := t.lastId peer + 1 } := by
    simp only [lastId] at vacant
    simp [InvocationTable.register, InvocationTable.nextId, addFuture, Assoc.get?_insert, lastId,
      vacant, abandon]
  refine ⟨?numbered, ?ids, ?results, ?waits, ?keyed, ?pending⟩
  case numbered =>
    intro k e he
    rw [getElem?_concat] at he
    split at he
    · rename_i last
      cases he
      exact last.symm
    · exact h.numbered k e he
  case ids =>
    intro k
    rw [future?, futures, Array.getElem?_push, getElem?_concat, size]
    split
    · rfl
    · exact h.ids k
  case results =>
    intro k
    rw [standing, future?, futures, Array.getElem?_push, getElem?_concat, size]
    split
    · rfl
    · exact h.results k
  case waits =>
    intro k id i
    rw [waits_insert_iff peers, List.mem_append, List.mem_singleton, Entry.mk.injEq]
    split
    · rename_i same
      subst same
      rw [Assoc.insert, List.mem_cons, Assoc.entries_erase, List.mem_filter, ← waits_iff_getD,
        h.waits, size]
      constructor
      · rintro (new | ⟨⟨old, own⟩, -⟩)
        · cases new
          exact ⟨.inr ⟨rfl, rfl, rfl⟩, rfl⟩
        · exact ⟨.inl old, own⟩
      · rintro ⟨old | ⟨-, rfl, -⟩, own⟩
        · have reused : id ≠ t.lastId k + 1 := by
            rintro rfl
            exact fresh i ((h.waits k _ i).mpr ⟨old, own⟩)
          exact .inr ⟨⟨old, own⟩, by simpa using reused⟩
        · exact .inl (by rw [← own])
    · rename_i other
      rw [(h.nextId peer).waits]
      simp [other]
  case keyed => exact peers ▸ ((h.nextId peer).keyed.insert _ _)
  case pending =>
    intro k p found
    rw [peers, Assoc.get?_insert] at found
    split at found
    · cases found
      exact (h.keyed_getD peer).insert _ _
    · exact (h.nextId peer).pending k p found

/-! ### Counting -/

theorem nodup (h : t.Records ledger) : ledger.Nodup := by
  rw [List.nodup_iff_getElem?_ne_getElem?]
  intro j k less inside same
  have at_j := List.getElem?_eq_getElem (Nat.lt_trans less inside)
  have left := h.numbered j _ at_j
  have right := h.numbered k _ (same ▸ at_j)
  exact absurd (left.symm.trans right) (Nat.ne_of_lt less)

/-- The entries of what waits. -/
def waiting (t : InvocationTable) : List Entry :=
  t.peers.entries.flatMap fun e => e.2.pending.entries.map fun w => ⟨e.1, w.2, none⟩

theorem length_waiting (t : InvocationTable) : (waiting t).length = t.outstanding := by
  rw [waiting, List.length_flatMap, outstanding, ← List.sum_eq_foldl, Assoc.values, List.map_map]
  simp [Function.comp_def, Assoc.size]

theorem mem_waiting (h : t.Records ledger) (e : Entry) :
    e ∈ waiting t ↔ e ∈ ledger ∧ e.result = none := by
  obtain ⟨peer, i, r⟩ := e
  simp only [waiting, List.mem_flatMap, List.mem_map]
  constructor
  · rintro ⟨⟨k, p⟩, held, ⟨id, j⟩, mem, same⟩
    cases same
    have found := h.keyed.get?_eq_some_iff.mpr held
    exact ⟨((h.waits k id j).mp ⟨p, found, mem⟩).1, rfl⟩
  · rintro ⟨mem, unsettled⟩
    obtain rfl : r = none := unsettled
    obtain ⟨p, found, held⟩ := (h.waits peer _ i).mpr ⟨mem, rfl⟩
    exact ⟨(peer, p), Assoc.mem_of_get? found, (_, i), held, rfl⟩

theorem nodup_waiting (h : t.Records ledger) : (waiting t).Nodup := by
  refine List.nodup_flatMap.mpr ⟨?_, ?_⟩
  · rintro ⟨peer, p⟩ held
    have found := h.keyed.get?_eq_some_iff.mpr held
    refine (h.pending peer p found).entries.map_on ?_
    rintro ⟨id, i⟩ mem ⟨id', i'⟩ mem' same
    cases same
    have own := ((h.waits peer id i).mp ⟨p, found, mem⟩).2
    have own' := ((h.waits peer id' i).mp ⟨p, found, mem'⟩).2
    rw [← own, ← own']
  · have apart : t.peers.entries.Pairwise fun e e' => e.1 ≠ e'.1 := List.pairwise_map.mp h.keyed
    refine apart.imp fun {e e'} differ => ?_
    intro x mem mem'
    obtain ⟨w, -, rfl⟩ := List.mem_map.mp mem
    obtain ⟨w', -, same⟩ := List.mem_map.mp mem'
    exact differ (congrArg Entry.peer same).symm

/-- What is outstanding are the entries without a result. -/
theorem outstanding_eq (h : t.Records ledger) :
    t.outstanding = ledger.countP fun e => e.result.isNone := by
  have same : (waiting t).Perm (ledger.filter fun e => e.result.isNone) := by
    refine (List.perm_ext_iff_of_nodup h.nodup_waiting (h.nodup.filter _)).mpr fun e => ?_
    rw [h.mem_waiting, List.mem_filter, Option.isNone_iff_eq_none]
  rw [← length_waiting, same.length_eq, List.countP_eq_length_filter]

theorem future_of_mem (h : t.Records ledger) {e : Entry} (mem : e ∈ ledger) :
    ∃ f, t.future? e.invocation.future = some f ∧ f.correlationId = e.invocation.correlationId ∧
      f.completion.result = e.result := by
  have at_e := h.get?_of_mem mem
  have id := h.ids e.invocation.future
  have result := h.results e.invocation.future
  rw [at_e] at id result
  obtain ⟨f, found, same⟩ := Option.map_eq_some_iff.mp id
  rw [standing, found] at result
  exact ⟨f, found, same, Option.some.inj result⟩

theorem result?_eq (h : t.Records ledger) (k : FutureId) :
    t.result? k = (ledger[k]?.bind (·.result)).map (k, ·) := by
  have same := congrArg (·.bind id) (h.results k)
  simp only [standing, Option.bind_map, Function.id_comp] at same
  rw [result?, same]

/-- The futures that are not done are the entries without a result. -/
theorem countP_futures (h : t.Records ledger) :
    t.futures.countP (!·.completion.isDone) = ledger.countP fun e => e.result.isNone := by
  have same : t.futures.toList.map (·.completion.result) = ledger.map (·.result) := by
    refine List.ext_getElem? fun k => ?_
    rw [List.getElem?_map, List.getElem?_map, Array.getElem?_toList]
    exact h.results k
  have counted := congrArg (List.countP (·.isNone)) same
  rw [List.countP_map, List.countP_map] at counted
  rw [← Array.countP_toList]
  refine Eq.trans ?_ counted
  congr 1
  funext f
  simp [Completion.isDone, ← Option.not_isSome]

theorem countP_range {α : Type} (l : List α) {p : Nat → Bool} {q : α → Bool}
    (same : ∀ k a, l[k]? = some a → p k = q a) : (List.range l.length).countP p = l.countP q := by
  induction l using List.reverseRecOn with
  | nil => rfl
  | append_singleton l a ih =>
    have first : (List.range l.length).countP p = l.countP q := by
      refine ih fun k b hb => same k b ?_
      rw [List.getElem?_append_left (List.getElem?_eq_some_iff.mp hb).1, hb]
    have last : p l.length = q a := same l.length a (by simp)
    rw [List.length_append, List.length_singleton, List.range_succ, List.countP_append, first,
      List.countP_append, List.countP_singleton, List.countP_singleton, last]

theorem countP_settle (ledger : List Entry) (outcome : Address → Invocation → Option Outcome) :
    ledger.countP (fun e => e.result.isNone && (outcome e.peer e.invocation).isSome)
      + (ledger.map (Entry.settle outcome)).countP (fun e => e.result.isNone)
      = ledger.countP fun e => e.result.isNone := by
  induction ledger with
  | nil => rfl
  | cons e rest ih =>
    simp only [List.map_cons, List.countP_cons, Entry.settle, Option.isNone_or]
    cases e.result with
    | some r => simpa using ih
    | none =>
      cases outcome e.peer e.invocation with
      | none =>
        simp only [Option.isNone_none, Option.isSome_none, Bool.and_self, Bool.and_false]
        simp only [↓reduceIte, Bool.false_eq_true]
        omega
      | some r =>
        simp only [Option.isNone_none, Option.isSome_some, Option.isNone_some, Bool.and_self,
          Bool.and_false]
        simp only [↓reduceIte, Bool.false_eq_true]
        omega

/-- What the settling took out is what got done. -/
theorem doneSince_length (h : t.Records ledger) {outcome : Address → Invocation → Option Outcome}
    (h' : t'.Records (ledger.map (.settle outcome))) :
    (t.doneSince t').length + t'.outstanding = t.outstanding := by
  have turned : (t.doneSince t').length
      = ledger.countP fun e => e.result.isNone && (outcome e.peer e.invocation).isSome := by
    rw [doneSince, done, ← List.countP_eq_length_filter, List.countP_filterMap, h'.length,
      List.length_map]
    refine countP_range ledger fun k e at_k => ?_
    have before : (t.result? k).isNone = e.result.isNone := by
      rw [h.result?_eq, at_k, Option.isNone_map]
      rfl
    rw [h'.result?_eq, List.getElem?_map, at_k]
    cases hr : e.result with
    | some r => simp [Entry.settle, hr, before]
    | none =>
      cases ho : outcome e.peer e.invocation with
      | none => simp [Entry.settle, hr, ho]
      | some r => simp [Entry.settle, hr, ho, before]
  rw [h.outstanding_eq, h'.outstanding_eq, turned]
  exact countP_settle ledger outcome

end Records

/-- Replacing the invocations of a peer changes what is outstanding by the
difference. -/
theorem outstanding_insert {t t' : InvocationTable} (keyed : t.peers.Keyed) {peer : Address}
    {p p' : PeerInvocations} (found : t.peers.get? peer = some p)
    (peers : t'.peers = t.peers.insert peer p') :
    t'.outstanding + p.pending.size = t.outstanding + p'.pending.size := by
  have moved := keyed.total_of_agree (keyed.insert peer p')
    (fun j other => by rw [Assoc.get?_insert, if_neg other]) (·.pending.size)
  rw [found, Assoc.get?_insert, if_pos rfl, ← peers] at moved
  exact moved

/-- A completion takes out one invocation, or none. -/
theorem complete_count {t : InvocationTable} {ledger : List Entry} (h : t.Records ledger)
    (peer : Address) (id : UInt64) (outcome : Outcome) :
    (t.complete peer id outcome).1.toNat + (t.complete peer id outcome).2.outstanding
      = t.outstanding := by
  rcases complete_cases t peer id outcome with ⟨unchanged, -⟩ | ⟨p, i, found, held, changed⟩
  · rw [unchanged]
    exact Nat.zero_add _
  · have peers : (t.complete peer id outcome).2.peers
        = t.peers.insert peer { p with pending := p.pending.erase id } := by
      rw [changed]
      rfl
    have moved := outstanding_insert h.keyed found peers
    have left := ((h.pending peer p found).entries_perm held).length_eq
    simp only [Assoc.size] at moved
    rw [List.length_cons] at left
    rw [show (t.complete peer id outcome).1 = true by rw [changed], Bool.toNat_true]
    omega

/-- What was failed is no longer outstanding, and nothing else changed. -/
theorem failWhere_count {t : InvocationTable} (keyed : t.peers.Keyed) (peer : Address) (e : Failure)
    (select : Invocation → Bool) :
    (t.failWhere peer e select).1 + (t.failWhere peer e select).2.outstanding = t.outstanding := by
  unfold failWhere
  split
  · exact Nat.zero_add _
  · rename_i p found
    have moved := outstanding_insert keyed found
      (peers_deliver_all (p.pending.values.filter select) e
        { t with peers := t.peers.insert peer
                   { p with pending := p.pending.filter fun i => !select i } })
    have parts := List.length_eq_length_filter_add (l := p.pending.values) select
    have kept : (p.pending.filter fun i => !select i).size
        = (p.pending.values.filter (!select ·)).length := by
      rw [Assoc.values, List.filter_map, List.length_map]
      rfl
    have all : p.pending.size = p.pending.values.length := (List.length_map _).symm
    simp only at moved ⊢
    omega

theorem keyed_failWhere {t : InvocationTable} (keyed : t.peers.Keyed) (peer : Address) (e : Failure)
    (select : Invocation → Bool) : (t.failWhere peer e select).2.peers.Keyed := by
  unfold failWhere
  split
  · exact keyed
  · rw [peers_deliver_all]
    exact keyed.insert _ _

theorem failAnywhere_count {t : InvocationTable} (keyed : t.peers.Keyed) (e : Failure)
    (select : Invocation → Bool) :
    (t.failAnywhere e select).1 + (t.failAnywhere e select).2.outstanding = t.outstanding := by
  have passed (keys : List Address) (n : Nat) (s : InvocationTable) (keyed : s.peers.Keyed) :
      let failed := keys.foldl (fun failed peer =>
        (failed.1 + (failed.2.failWhere peer e select).1,
          (failed.2.failWhere peer e select).2)) (n, s)
      failed.1 + failed.2.outstanding = n + s.outstanding := by
    induction keys generalizing n s with
    | nil => rfl
    | cons peer rest ih =>
      have later := ih (n + (s.failWhere peer e select).1) _ (keyed_failWhere keyed peer e select)
      have now := failWhere_count keyed peer e select
      simp only [List.foldl_cons] at later ⊢
      omega
  have whole := passed t.peers.keys 0 t keyed
  rw [Nat.zero_add] at whole
  exact whole

end InvocationTable

end PartitionEngine
