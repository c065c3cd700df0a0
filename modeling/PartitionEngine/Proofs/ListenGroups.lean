import PartitionEngine.Proofs.Endpoints
import PartitionEngine.System.ListenGroup

/-!
# Groups of listeners

Listeners are opened on the ports of a group one after the other, and closed again if one
fails.  All that is left then is that descriptors were handed out (`Host.listenFrom_eq`).
What a port fails with does not depend on that, nor on listeners on other ports, so a search
for a group goes by what the groups fail with at first (`Host.searchGroups_eq`): it passes
over groups until one is free, one fails for good, or no more fit
(`Host.chooseGroup_cases`).
-/

namespace PartitionEngine

/-! ## Failures that are passed over -/

/-- A group is passed over if its port is taken or not permitted. -/
theorem IoFailure.isRetryable_iff (errno : Int) : (IoFailure.os errno).isRetryable = true ↔
    (IoFailure.os errno).kind = "AddrInUse" ∨ (IoFailure.os errno).kind = "PermissionDenied" := by
  constructor
  · intro retry
    have listed : errno = 1 ∨ errno = 13 ∨ errno = 98 := by
      simpa [isRetryable, Errno.notPermitted, Errno.permissionDenied, Errno.addressInUse] using retry
    obtain rfl | rfl | rfl := listed <;> decide
  · intro named
    simp only [kind] at named
    split at named
    · rename_i row name found
      have same : row = errno := by simpa using List.find?_some found
      have mem := List.mem_of_find?_eq_some found
      subst same
      simp only [List.mem_cons, Prod.mk.injEq, List.not_mem_nil] at mem
      -- One case for each row of the table.
      repeat' obtain ⟨rfl, rfl⟩ | mem := mem
      all_goals
        revert named
        decide
    · simp at named

namespace Host

variable {h : Host} {ip : Ip} {base port n : Nat} {d : Nat} {ds : List Nat}

/-! ## Closing listeners -/

/-- The numbers of open files have been handed out. -/
def Numbered (h : Host) : Prop := ∀ d ∈ h.files.keys, d < h.nextDescriptor

/-- The host after some descriptors were handed out and their files were closed. -/
def skip (h : Host) (n : Nat) : Host := { h with nextDescriptor := h.nextDescriptor + n }

theorem skip_skip (h : Host) (n m : Nat) : (h.skip n).skip m = h.skip (n + m) := by
  simp [skip, Nat.add_assoc]

theorem Numbered.skip (numbered : h.Numbered) (n : Nat) : (h.skip n).Numbered :=
  fun d mem => Nat.lt_add_right n (numbered d mem)

/-- Closing a descriptor closes nothing else, and nobody notices. -/
def Quiet (h : Host) (d : Nat) : Prop :=
  ∀ file, h.files.get? d = some file → ∃ e, file = .listener e []

theorem close_of_quiet (quiet : h.Quiet d) : h.close (some d) = { h with files := h.files.erase d } := by
  have noStream : h.stream? d = none := by
    simp only [stream?]
    split
    · rename_i s found
      obtain ⟨e, same⟩ := quiet _ found
      cases same
    · rfl
  have one : h.closeOne d = { h with files := h.files.erase d } := by
    simp only [closeOne, noStream]
  simp only [close]
  split
  · rename_i e backlog found
    obtain ⟨e', same⟩ := quiet _ found
    cases same
    exact one
  · exact one

theorem closeAll_of_quiet (quiet : ∀ d ∈ ds, h.Quiet d) :
    h.closeAll ds = { h with files := ⟨h.files.entries.filter fun e => e.1 ∉ ds⟩ } := by
  induction ds generalizing h with
  | nil => simp [closeAll]
  | cons d ds ih =>
    have rest : ∀ k ∈ ds, Quiet { h with files := h.files.erase d } k := by
      intro k mem file found
      rw [Assoc.get?_erase] at found
      split at found
      · cases found
      · exact quiet k (List.mem_cons_of_mem d mem) file found
    have first := close_of_quiet (quiet d List.mem_cons_self)
    have both : (h.files.erase d).entries.filter (fun e => e.1 ∉ ds)
        = h.files.entries.filter fun e => e.1 ∉ d :: ds := by
      rw [Assoc.entries_erase, List.filter_filter]
      refine List.filter_congr fun e _ => ?_
      simp [Bool.and_comm]
    calc h.closeAll (d :: ds) = (h.close (some d)).closeAll ds := rfl
      _ = _ := by rw [first, ih rest, both]

/-! ## Opening listeners -/

/-- Why a port cannot be listened on, if it cannot. -/
def refusal? (h : Host) (ip : Ip) (port : Nat) : Option IoFailure :=
  match h.listen (.ofIp ip (UInt16.ofNat port)) with
  | .ok _ => none
  | .error failure => some failure

/-- Listeners on consecutive ports, the first port last. -/
def newListeners (next : Nat) (ip : Ip) (base n : Nat) : List (Nat × OpenFile) :=
  ((List.range n).map fun i =>
    (next + i, OpenFile.listener (.ofIp ip (UInt16.ofNat (base + i))) [])).reverse

/-- The host with listeners on consecutive ports. -/
def withListeners (h : Host) (ip : Ip) (base n : Nat) : Host :=
  { h with
    files := ⟨newListeners h.nextDescriptor ip base n ++ h.files.entries⟩
    nextDescriptor := h.nextDescriptor + n }

theorem mem_newListeners {next : Nat} {e : Nat × OpenFile} :
    e ∈ newListeners next ip base n
      ↔ ∃ i < n, e = (next + i, .listener (.ofIp ip (UInt16.ofNat (base + i))) []) := by
  simp [newListeners, eq_comm]

theorem Numbered.withListeners (numbered : h.Numbered) : (h.withListeners ip base n).Numbered := by
  intro d mem
  obtain ⟨e, entry, rfl⟩ := List.mem_map.mp mem
  rcases List.mem_append.mp entry with new | old
  · obtain ⟨i, inside, rfl⟩ := mem_newListeners.mp new
    exact Nat.add_lt_add_left inside _
  · exact Nat.lt_add_right n (numbered e.1 (List.mem_map_of_mem old))

/-- One more listener is opened. -/
theorem add_withListeners (numbered : h.Numbered) (ip : Ip) (base n : Nat) :
    (h.withListeners ip base n).add (.listener (.ofIp ip (UInt16.ofNat (base + n))) [])
      = (h.nextDescriptor + n, h.withListeners ip base (n + 1)) := by
  have unused : ((h.withListeners ip base n).files.erase (h.nextDescriptor + n)).entries
      = (h.withListeners ip base n).files.entries := by
    rw [Assoc.entries_erase]
    refine List.filter_eq_self.mpr fun e mem => ?_
    have below : e.1 < h.nextDescriptor + n :=
      numbered.withListeners e.1 (List.mem_map_of_mem mem)
    exact decide_eq_true (Nat.ne_of_lt below)
  have one_more : newListeners h.nextDescriptor ip base (n + 1)
      = (h.nextDescriptor + n, .listener (.ofIp ip (UInt16.ofNat (base + n))) [])
        :: newListeners h.nextDescriptor ip base n := by
    simp [newListeners, List.range_succ]
  have entries : (h.withListeners ip base n).files.insert (h.nextDescriptor + n)
        (.listener (.ofIp ip (UInt16.ofNat (base + n))) [])
      = (h.withListeners ip base (n + 1)).files := by
    rw [Assoc.insert, unused]
    simp [withListeners, one_more]
  simp only [add]
  refine Prod.ext rfl ?_
  have next : (h.withListeners ip base n).nextDescriptor = h.nextDescriptor + n := rfl
  rw [next, entries]
  rfl

/-- What was opened is closed again. -/
theorem closeAll_withListeners (numbered : h.Numbered) (ip : Ip) (base : Nat)
    (all : ∀ d, d ∈ ds ↔ d ∈ List.range' h.nextDescriptor n) :
    (h.withListeners ip base n).closeAll ds = h.skip n := by
  have quiet : ∀ d ∈ ds, (h.withListeners ip base n).Quiet d := by
    intro d mem file found
    rcases List.mem_append.mp (Assoc.mem_of_get? found) with new | old
    · obtain ⟨i, -, same⟩ := mem_newListeners.mp new
      exact ⟨_, congrArg Prod.snd same⟩
    · have below := numbered d (List.mem_map_of_mem (f := Prod.fst) old)
      have above := (List.mem_range'_1.mp ((all d).mp mem)).1
      omega
  have new : (newListeners h.nextDescriptor ip base n).filter (fun e => e.1 ∉ ds) = [] := by
    refine List.filter_eq_nil_iff.mpr fun e mem => ?_
    obtain ⟨i, inside, rfl⟩ := mem_newListeners.mp mem
    simp [all, inside]
  have old : h.files.entries.filter (fun e => e.1 ∉ ds) = h.files.entries := by
    refine List.filter_eq_self.mpr fun e mem => ?_
    have below := numbered e.1 (List.mem_map_of_mem mem)
    simp only [all, decide_eq_true_iff, List.mem_range'_1]
    omega
  have left : (h.withListeners ip base n).files.entries.filter (fun e => e.1 ∉ ds)
      = h.files.entries := by
    rw [show (h.withListeners ip base n).files.entries
      = newListeners h.nextDescriptor ip base n ++ h.files.entries from rfl, List.filter_append, new,
      old, List.nil_append]
  rw [closeAll_of_quiet quiet, left]
  rfl

/-- What the descriptors of new listeners stand for, and that all others are as before. -/
theorem get?_withListeners (numbered : h.Numbered) (ip : Ip) (base n : Nat) :
    (∀ i < n, (h.withListeners ip base n).files.get? (h.nextDescriptor + i)
      = some (.listener (.ofIp ip (UInt16.ofNat (base + i))) []))
    ∧ ∀ d ∉ List.range' h.nextDescriptor n,
      (h.withListeners ip base n).files.get? d = h.files.get? d := by
  induction n with
  | zero => exact ⟨nofun, fun _ _ => rfl⟩
  | succ n ih =>
    have more := congrArg (fun opened => opened.2.files) (add_withListeners numbered ip base n)
    simp only [add] at more
    rw [← more]
    have next : (h.withListeners ip base n).nextDescriptor = h.nextDescriptor + n := rfl
    rw [next]
    refine ⟨fun i below => ?_, fun d other => ?_⟩
    · rw [Assoc.get?_insert]
      by_cases last : i = n
      · rw [if_pos (by rw [last]), last]
      · rw [if_neg (by omega)]
        exact ih.1 i (by omega)
    · rw [List.range'_1_concat, List.mem_append, List.mem_singleton, not_or] at other
      rw [Assoc.get?_insert, if_neg other.2]
      exact ih.2 d other.1

/-! ## Ports -/

theorem refusal?_eq (h : Host) (ip : Ip) (port : Nat) : h.refusal? ip port =
    if h.canOpen then (h.listenError? (.ofIp ip (UInt16.ofNat port))).map .os
    else some (.os Errno.tooManyFiles) := by
  simp only [refusal?, listen, openFile]
  by_cases opens : h.canOpen
  · simp only [if_pos opens]
    cases h.listenError? (.ofIp ip (UInt16.ofNat port)) <;> rfl
  · simp only [if_neg opens]

theorem refusal?_skip (h : Host) (n : Nat) (ip : Ip) (port : Nat) :
    (h.skip n).refusal? ip port = h.refusal? ip port := by
  rw [refusal?_eq, refusal?_eq]
  rfl

theorem port_ofIp (ip : Ip) (port : UInt16) : (Endpoint.ofIp ip port).port = port := by
  cases ip <;> rfl

/-- The listeners of a host that has more of them. -/
theorem listeners_withListeners (h : Host) (ip : Ip) (base n : Nat) :
    (h.withListeners ip base n).listeners = ((List.range n).map fun i =>
      (h.nextDescriptor + i, Endpoint.ofIp ip (UInt16.ofNat (base + i)))).reverse ++ h.listeners := by
  simp only [listeners, withListeners, newListeners, List.filterMap_append, List.filterMap_reverse,
    List.filterMap_map]
  congr 2
  rw [← List.filterMap_eq_map]
  rfl

/-- Listeners on other ports do not matter. -/
theorem refusal?_withListeners (some_port : 1 ≤ port) (below : port < 65536)
    (beyond : base + n ≤ port) : (h.withListeners ip base n).refusal? ip port = h.refusal? ip port := by
  have apart : (((List.range n).map fun i =>
      (h.nextDescriptor + i, Endpoint.ofIp ip (UInt16.ofNat (base + i)))).reverse).find?
        (fun l => l.2 = .ofIp ip (UInt16.ofNat port)) = none := by
    refine List.find?_eq_none.mpr fun l mem same => ?_
    obtain ⟨i, inside, rfl⟩ := List.mem_map.mp (List.mem_reverse.mp mem)
    have inside := List.mem_range.mp inside
    have same := (Endpoint.ofIp_inj.mp (decide_eq_true_iff.mp same)).2
    have same := congrArg UInt16.toNat same
    rw [UInt16.toNat_ofNat_of_lt' (show base + i < 65536 by omega),
      UInt16.toNat_ofNat_of_lt' (show port < 65536 from below)] at same
    omega
  have listener : (h.withListeners ip base n).listener? (.ofIp ip (UInt16.ofNat port))
      = h.listener? (.ofIp ip (UInt16.ofNat port)) := by
    rw [listener?, listeners_withListeners, List.find?_append, apart, Option.none_or, listener?]
  have error : (h.withListeners ip base n).listenError? (.ofIp ip (UInt16.ofNat port))
      = h.listenError? (.ofIp ip (UInt16.ofNat port)) := by
    simp only [listenError?, listener]
    rfl
  rw [refusal?_eq, refusal?_eq, error]
  rfl

/-- A port that is not refused gets a listener. -/
theorem listen_withListeners (numbered : h.Numbered) (ip : Ip) (some_port : 1 ≤ base)
    (below : base + n < 65536) : (h.withListeners ip base n).listen (.ofIp ip (UInt16.ofNat (base + n)))
      = match h.refusal? ip (base + n) with
        | none => .ok (h.nextDescriptor + n, h.withListeners ip base (n + 1))
        | some failure => .error failure := by
  rw [← refusal?_withListeners (by omega) below (Nat.le_refl _)]
  have port : (Endpoint.ofIp ip (UInt16.ofNat (base + n))).port ≠ 0 := by
    rw [port_ofIp]
    intro zero
    have zero := congrArg UInt16.toNat zero
    rw [UInt16.toNat_ofNat_of_lt' below] at zero
    exact absurd zero (by simp; omega)
  simp only [refusal?, listen, openFile, endpointFor, if_neg port]
  by_cases opens : (h.withListeners ip base n).canOpen
  · simp only [if_pos opens]
    cases (h.withListeners ip base n).listenError? (.ofIp ip (UInt16.ofNat (base + n))) with
    | none => exact congrArg Except.ok (add_withListeners numbered ip base n)
    | some errno => rfl
  · simp only [if_neg opens]

/-! ## One group -/

/-- The failure of the first port of a group that fails. -/
def groupFailure? (h : Host) (ip : Ip) (base count : Nat) : Option IoFailure :=
  (List.range' base count).findSome? (h.refusal? ip)

theorem groupFailure?_succ (h : Host) (ip : Ip) (base n : Nat) :
    h.groupFailure? ip base (n + 1)
      = (h.refusal? ip base).or (h.groupFailure? ip (base + 1) n) := by
  rw [groupFailure?, List.range'_succ, List.findSome?_cons]
  cases h.refusal? ip base <;> rfl

/-- The ports of a group are listened on one after the other, until one fails. -/
theorem listenFrom_eq (numbered : h.Numbered) (ip : Ip) (some_port : 1 ≤ base) (m : Nat)
    (below : base + n + m ≤ 65536) :
    ∃ k, listenFrom ip m (base + n) (List.range' h.nextDescriptor n).reverse
        (h.withListeners ip base n)
      = match h.groupFailure? ip (base + n) m with
        | none => (.ok (List.range' h.nextDescriptor (n + m)), h.withListeners ip base (n + m))
        | some failure => (.error failure, h.skip k) := by
  induction m generalizing n with
  | zero => exact ⟨0, by simp [listenFrom, groupFailure?]⟩
  | succ m ih =>
    have first := listen_withListeners (n := n) numbered ip some_port (by omega)
    simp only [listenFrom, first, groupFailure?_succ]
    cases h.refusal? ip (base + n) with
    | none =>
      obtain ⟨k, rest⟩ := ih (n := n + 1) (by omega)
      have opened : (h.nextDescriptor + n) :: (List.range' h.nextDescriptor n).reverse
          = (List.range' h.nextDescriptor (n + 1)).reverse := by
        rw [List.range'_1_concat, List.reverse_concat]
      rw [← Nat.add_assoc base n 1, Nat.add_assoc n 1 m, Nat.add_comm 1 m] at rest
      refine ⟨k, ?_⟩
      simp only [Option.none_or, opened]
      exact rest
    | some failure =>
      refine ⟨n, ?_⟩
      simp only [Option.some_or]
      rw [closeAll_withListeners numbered ip base fun _ => List.mem_reverse]

/-! ## Group after group -/

/-- The first group that is free, by what the groups fail with. -/
def chooseGroup (fails : Nat → Option IoFailure) (last count : Nat) :
    (tries base : Nat) → IoFailure → Except IoFailure Nat
  | 0, _, failure => .error failure
  | tries + 1, base, failure =>
    if last < base + count - 1 then .error failure
    else match fails base with
      | none => .ok base
      | some e =>
        if e.isRetryable then chooseGroup fails last count tries (base + count) e else .error e

theorem groupFailure?_skip (h : Host) (n : Nat) (ip : Ip) (base count : Nat) :
    (h.skip n).groupFailure? ip base count = h.groupFailure? ip base count := by
  rw [groupFailure?, funext (refusal?_skip h n ip), groupFailure?]

/-- The search for a group goes by what the ports of the groups fail with. -/
theorem searchGroups_eq (numbered : h.Numbered) (ip : Ip) (some_port : 1 ≤ base) {last count : Nat}
    (few : last < 65536) (one : 1 ≤ count) (tries : Nat) (failure : IoFailure) :
    ∃ n, searchGroups ip last count tries base failure h
      = match chooseGroup (h.groupFailure? ip · count) last count tries base failure with
        | .ok base => (.ok ⟨base, List.range' (h.skip n).nextDescriptor count⟩,
            (h.skip n).withListeners ip base count)
        | .error e => (.error e, h.skip n) := by
  induction tries generalizing base failure h with
  | zero => exact ⟨0, rfl⟩
  | succ tries ih =>
    simp only [searchGroups, chooseGroup]
    by_cases beyond : last < base + count - 1
    · exact ⟨0, by simp only [if_pos beyond]; rfl⟩
    · simp only [if_neg beyond]
      obtain ⟨k, listens⟩ := listenFrom_eq (n := 0) numbered ip some_port count (by omega)
      have start : h.withListeners ip base 0 = h := rfl
      rw [start] at listens
      simp only [Nat.add_zero, List.range'_zero, List.reverse_nil, Nat.zero_add] at listens
      rw [listens]
      cases h.groupFailure? ip base count with
      | none => exact ⟨0, rfl⟩
      | some e =>
        by_cases retry : e.isRetryable
        · obtain ⟨n, rest⟩ := ih (numbered.skip k) (show 1 ≤ base + count by omega) e
          refine ⟨k + n, ?_⟩
          simp only [if_pos retry, rest, groupFailure?_skip, skip_skip]
        · exact ⟨k, by simp only [if_neg retry]⟩

/-- The search passes over groups until one is free, one fails for good, or no more fit. -/
theorem chooseGroup_cases (fails : Nat → Option IoFailure) {last count tries base : Nat}
    (one : 1 ≤ count) (enough : last < base + tries) (failure : IoFailure) :
    ∃ k, (∀ j < k, base + j * count + count ≤ last + 1
        ∧ ∃ e, fails (base + j * count) = some e ∧ e.isRetryable = true)
      ∧ match chooseGroup fails last count tries base failure with
        | .ok b => b = base + k * count ∧ b + count ≤ last + 1 ∧ fails b = none
        | .error e =>
          (base + k * count + count ≤ last + 1 ∧ fails (base + k * count) = some e
            ∧ e.isRetryable = false)
          ∨ (last + 1 < base + k * count + count
            ∧ (k = 0 ∧ e = failure ∨ ∃ j, k = j + 1 ∧ fails (base + j * count) = some e)) := by
  induction tries generalizing base failure with
  | zero =>
    refine ⟨0, fun j below => absurd below (Nat.not_lt_zero j), .inr ⟨?_, .inl ⟨rfl, rfl⟩⟩⟩
    rw [Nat.zero_mul]
    omega
  | succ tries ih =>
    have next (j : Nat) : base + count + j * count = base + (j + 1) * count := by
      rw [Nat.succ_mul]
      omega
    simp only [chooseGroup]
    by_cases beyond : last < base + count - 1
    · refine ⟨0, fun j below => absurd below (Nat.not_lt_zero j), ?_⟩
      rw [if_pos beyond]
      refine .inr ⟨?_, .inl ⟨rfl, rfl⟩⟩
      rw [Nat.zero_mul]
      omega
    · have fits : base + count ≤ last + 1 := by omega
      rw [if_neg beyond]
      cases group : fails base with
      | none =>
        refine ⟨0, fun j below => absurd below (Nat.not_lt_zero j), ?_, fits, group⟩
        rw [Nat.zero_mul, Nat.add_zero]
      | some e =>
        by_cases retry : e.isRetryable
        · obtain ⟨k, passed, rest⟩ := ih (show last < base + count + tries by omega) e
          refine ⟨k + 1, fun j below => ?_, ?_⟩
          · cases j with
            | zero => exact ⟨by rwa [Nat.zero_mul], e, by rwa [Nat.zero_mul], retry⟩
            | succ j =>
              have passed := passed j (Nat.lt_of_succ_lt_succ below)
              rwa [next] at passed
          · simp only [if_pos retry]
            rw [next] at rest
            split at rest
            · exact rest
            · refine rest.imp_right fun ⟨short, which⟩ => ⟨short, .inr ?_⟩
              rcases which with ⟨rfl, rfl⟩ | ⟨j, rfl, group⟩
              · exact ⟨0, rfl, by rwa [Nat.zero_mul]⟩
              · exact ⟨j + 1, rfl, by rwa [next] at group⟩
        · refine ⟨0, fun j below => absurd below (Nat.not_lt_zero j), ?_⟩
          simp only [if_neg retry]
          refine .inl ⟨by rwa [Nat.zero_mul], by rwa [Nat.zero_mul], Bool.eq_false_iff.mpr retry⟩

/-- A group fails with an error number of the system. -/
theorem exists_os_of_groupFailure? {count : Nat} {e : IoFailure}
    (fails : h.groupFailure? ip base count = some e) : ∃ errno, e = .os errno := by
  obtain ⟨port, -, refused⟩ := List.exists_of_findSome?_eq_some fails
  rw [refusal?_eq] at refused
  split at refused
  · obtain ⟨errno, -, rfl⟩ := Option.map_eq_some_iff.mp refused
    exact ⟨errno, rfl⟩
  · exact ⟨_, (Option.some.inj refused).symm⟩

end Host

end PartitionEngine
