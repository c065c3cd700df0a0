import PartitionEngine.Proofs.ListenGroups
import PartitionEngine.System.Socket

/-!
# Ranges of ports

A range of ports is cut into groups of one size, and the search for a group of free ports
takes them in order (`PortRange.listenGroup_outcome`).  The first group that is free is
chosen, if all before it fail because a port is taken or not permitted (`PortRange.Chosen`).
Then there is a listener on each of its ports, where a member with the address of the group
has its reactors (`PortRange.Gets`).  Else no listener is left (`PortRange.Fails` tells what
the search fails with).

`PortRange.searchWords` is the search in words of 32 bits.  It keeps a list of what it tries,
and gives up if a sum does not fit a word, a port does not fit 16 bits, or the loop does not
end.  It never gives up, and it comes to the same.
-/

namespace PartitionEngine

/-- A range of ports at an address, and how many are wanted in a row. -/
structure PortRange where
  ip : Ip
  first : UInt16
  last : UInt16
  count : Nat

namespace PortRange

variable {r : PortRange} {h : Host} {k : Nat}

/-- The first port of a group. -/
def base (r : PortRange) (k : Nat) : Nat := r.first.toNat + k * r.count

/-- A group ends in the range. -/
def Fits (r : PortRange) (k : Nat) : Prop := r.base k + r.count ≤ r.last.toNat + 1

/-- What the first port of a group that fails fails with, in the order of the ports. -/
def failure? (r : PortRange) (h : Host) (k : Nat) : Option IoFailure :=
  h.groupFailure? r.ip (r.base k) r.count

/-- A failure that another port may not have. -/
def Transient (e : IoFailure) : Prop := e.kind = "AddrInUse" ∨ e.kind = "PermissionDenied"

instance (e : IoFailure) : Decidable (Transient e) :=
  inferInstanceAs (Decidable (e.kind = "AddrInUse" ∨ e.kind = "PermissionDenied"))

/-- A group is in the range, and its first port that fails is taken or not permitted. -/
def Passed (r : PortRange) (h : Host) (k : Nat) : Prop :=
  r.Fits k ∧ ∃ e, r.failure? h k = some e ∧ Transient e

/-- The ports of a group are free, and all groups before are passed over. -/
def Chosen (r : PortRange) (h : Host) (k : Nat) : Prop :=
  r.Fits k ∧ r.failure? h k = none ∧ ∀ j < k, r.Passed h j

/-! ## The search in words -/

/-- A sum of words, if it is a word. -/
def sum? (a b : UInt32) : Option UInt32 :=
  if a.toNat + b.toNat < UInt32.size then some (a + b) else none

/-- A difference of words, if it is a word. -/
def difference? (a b : UInt32) : Option UInt32 := if b ≤ a then some (a - b) else none

/-- The port a word stands for, if it stands for one. -/
def port? (w : UInt32) : Option UInt16 := if w.toNat < UInt16.size then some w.toUInt16 else none

/-- Listens on the ports of a group that are left, from port `i` of the group on.  Gives what
comes of it, and the endpoints that were tried. -/
def listenWords (ip : Ip) (base : UInt32) : (left : Nat) → (i : UInt32) → (opened : List Nat) →
    Host → List Endpoint → Option ((Except IoFailure (List Nat) × Host) × List Endpoint)
  | 0, _, opened, h, tried => some ((.ok opened.reverse, h), tried)
  | left + 1, i, opened, h, tried => do
    let endpoint := Endpoint.ofIp ip (← port? (← sum? base i))
    match h.listen endpoint with
    | .ok (descriptor, h) =>
      listenWords ip base left (← sum? i 1) (descriptor :: opened) h (tried ++ [endpoint])
    | .error e => some ((.error e, h.closeAll opened), tried ++ [endpoint])

/-- Tries groups from `base` on.  Gives up if the loop does not end within so many tests. -/
def groupsWords (ip : Ip) (last count : UInt32) : (tests : Nat) → (base : UInt32) → IoFailure →
    Host → List Endpoint → Option ((Except IoFailure ListenGroup × Host) × List Endpoint)
  | 0, _, _, _, _ => none
  | tests + 1, base, failure, h, tried => do
    let next ← sum? base count
    if last < (← difference? next 1) then some ((.error failure, h), tried)
    else match ← listenWords ip base count.toNat 0 [] h tried with
      | ((.ok descriptors, h), tried) =>
        some ((.ok { base := (← port? base).toNat, descriptors }, h), tried)
      | ((.error e, h), tried) =>
        if e.isRetryable then groupsWords ip last count tests next e h tried
        else some ((.error e, h), tried)

/-- The search of a range in words of 32 bits. -/
def searchWords (r : PortRange) (h : Host) :
    Option ((Except IoFailure ListenGroup × Host) × List Endpoint) :=
  groupsWords r.ip r.last.toUInt32 (UInt32.ofNat (max r.count 1))
    (r.last.toNat + 1 - r.first.toNat + 1) r.first.toUInt32
    (.custom "AddrNotAvailable" "port range too small") h []

theorem sum?_eq {a b : UInt32} (word : a.toNat + b.toNat < UInt32.size) :
    sum? a b = some (a + b) ∧ (a + b).toNat = a.toNat + b.toNat :=
  ⟨if_pos word, (UInt32.toNat_add a b).trans (Nat.mod_eq_of_lt word)⟩

theorem port?_eq {w : UInt32} (fits : w.toNat < 65536) :
    port? w = some (UInt16.ofNat w.toNat) := by
  rw [port?, if_pos fits]
  exact congrArg some (UInt16.toNat_inj.mp (by simp))

/-- Endpoints at an address, with their ports in a range. -/
def Within (ip : Ip) (first last : Nat) (tried : List Endpoint) : Prop :=
  ∀ e ∈ tried, ∃ port, first ≤ port ∧ port ≤ last ∧ e = .ofIp ip (UInt16.ofNat port)

theorem listenWords_eq (ip : Ip) {base i : UInt32} {left : Nat}
    (fits : base.toNat + i.toNat + left ≤ 65536) (opened : List Nat) (h : Host)
    (tried : List Endpoint) : ∃ more,
      listenWords ip base left i opened h tried
        = some (Host.listenFrom ip left (base.toNat + i.toNat) opened h, tried ++ more)
      ∧ Within ip (base.toNat + i.toNat) (base.toNat + i.toNat + left - 1) more := by
  induction left generalizing i opened h tried with
  | zero => exact ⟨[], by simp [listenWords, Host.listenFrom], nofun⟩
  | succ left ih =>
    obtain ⟨here, value⟩ := sum?_eq (a := base) (b := i) (by simp [UInt32.size]; omega)
    obtain ⟨step, after⟩ := sum?_eq (a := i) (b := 1) (by simp [UInt32.size]; omega)
    have port := port?_eq (w := base + i) (by omega)
    rw [value] at port
    simp only [listenWords, Host.listenFrom, here, step, port, Option.bind_eq_bind, Option.bind_some]
    have first : Within ip (base.toNat + i.toNat) (base.toNat + i.toNat + (left + 1) - 1)
        [.ofIp ip (UInt16.ofNat (base.toNat + i.toNat))] := by
      intro e mem
      exact ⟨_, Nat.le_refl _, by omega, List.mem_singleton.mp mem⟩
    cases h.listen (.ofIp ip (UInt16.ofNat (base.toNat + i.toNat))) with
    | ok opens =>
      obtain ⟨descriptor, h'⟩ := opens
      have after : (i + 1).toNat = i.toNat + 1 := after
      obtain ⟨more, same, within⟩ := ih (i := i + 1) (by omega) (descriptor :: opened) h'
        (tried ++ [.ofIp ip (UInt16.ofNat (base.toNat + i.toNat))])
      refine ⟨.ofIp ip (UInt16.ofNat (base.toNat + i.toNat)) :: more, ?_, ?_⟩
      · rw [after, List.append_assoc, ← Nat.add_assoc] at same
        exact same
      · intro e mem
        rcases List.mem_cons.mp mem with rfl | mem
        · exact first _ List.mem_cons_self
        · obtain ⟨port, lower, upper, same⟩ := within e mem
          exact ⟨port, by omega, by omega, same⟩
    | error e => exact ⟨_, rfl, first⟩

/-- The test for the end of the loop, in words. -/
theorem test_eq (last : UInt32) {count base : UInt32} (one : 1 ≤ count.toNat) (many : count.toNat ≤ 1024)
    (start : base.toNat ≤ 65536) :
    sum? base count = some (base + count) ∧ (base + count).toNat = base.toNat + count.toNat
      ∧ difference? (base + count) 1 = some (base + count - 1)
      ∧ (last < base + count - 1 ↔ last.toNat < base.toNat + count.toNat - 1) := by
  obtain ⟨sum, value⟩ := sum?_eq (a := base) (b := count) (by simp [UInt32.size]; omega)
  have above : 1 ≤ base + count := by
    rw [UInt32.le_iff_toNat_le, value]
    exact Nat.le_add_left_of_le one
  refine ⟨sum, value, if_pos above, ?_⟩
  rw [UInt32.lt_iff_toNat_lt, UInt32.toNat_sub_of_le _ _ above, value]
  rfl

theorem groupsWords_eq (ip : Ip) {last count base : UInt32} {tries : Nat}
    (few : last.toNat < 65536) (one : 1 ≤ count.toNat) (many : count.toNat ≤ 1024)
    (start : base.toNat ≤ 65536) (enough : last.toNat < base.toNat + tries) (failure : IoFailure)
    (h : Host) (tried : List Endpoint) : ∃ more,
      groupsWords ip last count (tries + 1) base failure h tried
        = some (Host.searchGroups ip last.toNat count.toNat tries base.toNat failure h,
          tried ++ more)
      ∧ Within ip base.toNat last.toNat more := by
  obtain ⟨sum, value, top, test⟩ := test_eq last one many start
  simp only [groupsWords, sum, top, Option.bind_eq_bind, Option.bind_some]
  cases tries with
  | zero =>
    refine ⟨[], ?_, nofun⟩
    rw [if_pos (test.mpr (by omega)), List.append_nil]
    rfl
  | succ tries =>
    simp only [Host.searchGroups]
    by_cases beyond : last < base + count - 1
    · refine ⟨[], ?_, nofun⟩
      rw [if_pos beyond, if_pos (test.mp beyond), List.append_nil]
    · have fits := mt test.mpr beyond
      rw [if_neg beyond, if_neg fits]
      obtain ⟨more, listens, within⟩ := listenWords_eq ip
        (show base.toNat + (0 : UInt32).toNat + count.toNat ≤ 65536 by simp; omega) [] h tried
      have zero : base.toNat + (0 : UInt32).toNat = base.toNat := Nat.add_zero _
      rw [zero] at listens within
      have within : Within ip base.toNat last.toNat more := fun e mem => by
        obtain ⟨port, lower, upper, same⟩ := within e mem
        exact ⟨port, lower, by omega, same⟩
      have port := port?_eq (w := base) (by omega)
      simp only [listens, Option.bind_some]
      cases Host.listenFrom ip count.toNat base.toNat [] h with
      | mk result h' =>
        cases result with
        | ok descriptors =>
          refine ⟨more, ?_, within⟩
          have value : (UInt16.ofNat base.toNat).toNat = base.toNat :=
            UInt16.toNat_ofNat_of_lt' (show base.toNat < 65536 by omega)
          simp only [port, Option.bind_some, value]
        | error e =>
          by_cases retry : e.isRetryable
          · simp only [if_pos retry]
            have enough : last.toNat < (base + count).toNat + tries := by omega
            obtain ⟨rest, same, within'⟩ :=
              groupsWords_eq ip few one many (by omega) enough e h' (tried ++ more)
            rw [value] at same within'
            refine ⟨more ++ rest, by rw [same, List.append_assoc], fun e mem => ?_⟩
            rcases List.mem_append.mp mem with mem | mem
            · exact within e mem
            · obtain ⟨port, lower, upper, same⟩ := within' e mem
              exact ⟨port, by omega, upper, same⟩
          · exact ⟨more, by simp only [if_neg retry], within⟩

/-! ## What a search comes to -/

/-- A group was found, and there is a listener on each of its ports. -/
structure Gets (r : PortRange) (h : Host) (g : ListenGroup) (h' : Host) : Prop where
  /-- The group is the one that is chosen, and the first whose ports are free. -/
  base : ∃ k, r.Chosen h k ∧ g.base = r.base k
    ∧ ∀ j, r.Fits j → r.failure? h j = none → r.base k ≤ r.base j
  /-- The listeners are in the order of their ports, and each is where a member with the address
  has the reactor. -/
  each : ∀ i < r.count, ∃ d e, g.descriptors[i]? = some d
    ∧ (Address.ofIp r.ip (UInt16.ofNat g.base)).reactorEndpoint? i = some e
    ∧ e = .ofIp r.ip (UInt16.ofNat (g.base + i)) ∧ h'.localEndpoint (some d) = .ok e
  count : g.descriptors.length = r.count
  /-- No other listener was opened, and none was closed. -/
  listeners : ∃ opened : List (Nat × Endpoint), opened.map Prod.fst = g.descriptors
    ∧ h'.listeners = opened.reverse ++ h.listeners
  others : ∀ d ∉ g.descriptors, h'.files.get? d = h.files.get? d

/-- What a search that finds nothing fails with: the first failure that is not transient, else
the failure of the last group, else that there is no group. -/
inductive Fails (r : PortRange) (h : Host) : IoFailure → Prop
  | lasting (k : Nat) {e : IoFailure} (fits : r.Fits k) (passed : ∀ j < k, r.Passed h j)
      (group : r.failure? h k = some e) (lasting : ¬Transient e) : Fails r h e
  | last (k : Nat) {e : IoFailure} (end_ : ¬r.Fits (k + 1)) (passed : ∀ j ≤ k, r.Passed h j)
      (group : r.failure? h k = some e) : Fails r h e
  | none (short : ¬r.Fits 0) : Fails r h (.custom "AddrNotAvailable" "port range too small")

theorem Fits.of_le {j : Nat} (fits : r.Fits k) (le : j ≤ k) : r.Fits j := by
  have bases : j * r.count ≤ k * r.count := Nat.mul_le_mul_right _ le
  simp only [Fits, base] at fits ⊢
  omega

/-- A search fails only if no group is chosen. -/
theorem Fails.not_chosen {e : IoFailure} (fails : r.Fails h e) : ¬r.Chosen h k := by
  rintro ⟨fits, free, before⟩
  have not_passed (passed : r.Passed h k) : False := by
    obtain ⟨-, e, group, -⟩ := passed
    cases free.symm.trans group
  cases fails with
  | lasting k' _ passed group lasting =>
    rcases Nat.lt_trichotomy k k' with less | same | more
    · exact not_passed (passed k less)
    · subst same
      cases free.symm.trans group
    · obtain ⟨-, e', group', transient⟩ := before k' more
      cases group.symm.trans group'
      exact lasting transient
  | last k' short passed group =>
    rcases Nat.lt_or_ge k' k with more | less
    · exact short (fits.of_le more)
    · exact not_passed (passed k less)
  | none short => exact short (fits.of_le (Nat.zero_le k))

/-- The first port of the group that is found, by what the groups fail with. -/
def search (r : PortRange) (h : Host) : Except IoFailure Nat :=
  Host.chooseGroup (h.groupFailure? r.ip · r.count) r.last.toNat r.count
    (r.last.toNat + 1 - r.first.toNat) r.first.toNat
    (.custom "AddrNotAvailable" "port range too small")

theorem search_skip (r : PortRange) (h : Host) (n : Nat) : r.search (h.skip n) = r.search h := by
  simp only [search, Host.groupFailure?_skip]

/-- What is found is the group that is chosen. -/
theorem search_cases (h : Host) (one : 1 ≤ r.count) :
    (∃ k, r.Chosen h k ∧ r.search h = .ok (r.base k))
      ∨ ∃ e, r.Fails h e ∧ r.search h = .error e := by
  have transient {k : Nat} {e : IoFailure} (group : r.failure? h k = some e) :
      e.isRetryable = true ↔ Transient e := by
    obtain ⟨errno, rfl⟩ := Host.exists_os_of_groupFailure? group
    exact IoFailure.isRetryable_iff errno
  have enough : r.last.toNat < r.first.toNat + (r.last.toNat + 1 - r.first.toNat) := by omega
  obtain ⟨k, passed, chosen⟩ := Host.chooseGroup_cases (h.groupFailure? r.ip · r.count) one enough
    (.custom "AddrNotAvailable" "port range too small")
  have passed : ∀ j < k, r.Passed h j := by
    intro j below
    obtain ⟨fits, e, group, retry⟩ := passed j below
    exact ⟨fits, e, group, (transient group).mp retry⟩
  split at chosen
  · rename_i b found
    obtain ⟨rfl, fits, free⟩ := chosen
    exact .inl ⟨k, ⟨fits, free, passed⟩, found⟩
  · rename_i e found
    refine .inr ⟨e, ?_, found⟩
    rcases chosen with ⟨fits, group, lasting⟩ | ⟨short, ⟨rfl, rfl⟩ | ⟨j, rfl, group⟩⟩
    · refine .lasting k fits passed group fun t => ?_
      rw [(transient group).mpr t] at lasting
      cases lasting
    · exact .none (Nat.not_le_of_lt short)
    · exact .last j (Nat.not_le_of_lt short) (fun i le => passed i (Nat.lt_succ_of_le le)) group

/-- A search opens the listeners of the group it finds.  Else it leaves none. -/
theorem listenGroup_eq (numbered : h.Numbered) (some_port : 1 ≤ r.first.toNat)
    (one : 1 ≤ r.count) : ∃ n, h.listenGroup r.ip r.first r.last r.count
      = match r.search h with
        | .ok base => (.ok ⟨base, List.range' (h.skip n).nextDescriptor r.count⟩,
            (h.skip n).withListeners r.ip base r.count)
        | .error e => (.error e, h.skip n) := by
  rw [Host.listenGroup, Nat.max_eq_left one]
  exact Host.searchGroups_eq numbered r.ip some_port r.last.toNat_lt one _ _

/-- The group that is chosen, with its listeners. -/
theorem Chosen.gets (chosen : r.Chosen h k) (numbered : h.Numbered) (n : Nat) :
    r.Gets h ⟨r.base k, List.range' (h.skip n).nextDescriptor r.count⟩
      ((h.skip n).withListeners r.ip (r.base k) r.count) where
  base := by
    refine ⟨k, chosen, rfl, fun j _ free => ?_⟩
    have le : k ≤ j := by
      by_contra less
      obtain ⟨-, e, group, -⟩ := chosen.2.2 j (Nat.lt_of_not_le less)
      cases free.symm.trans group
    exact Nat.add_le_add_left (Nat.mul_le_mul_right _ le) _
  each i below := by
    have fits : r.base k + i < 65536 := by
      have fits : r.base k + r.count ≤ r.last.toNat + 1 := chosen.1
      have few := r.last.toNat_lt
      omega
    have base : (UInt16.ofNat (r.base k)).toNat = r.base k :=
      UInt16.toNat_ofNat_of_lt' (show r.base k < 65536 by omega)
    refine ⟨(h.skip n).nextDescriptor + i, .ofIp r.ip (UInt16.ofNat (r.base k + i)), ?_, ?_, rfl, ?_⟩
    · rw [List.getElem?_range' below, Nat.one_mul]
    · have ip : (Endpoint.ofIp r.ip (UInt16.ofNat (r.base k))).ip = r.ip := by cases r.ip <;> rfl
      simp only [Address.reactorEndpoint?, Address.ofIp, Address.port, Address.ip, Host.port_ofIp,
        base, ip, if_pos fits]
    · have file := (Host.get?_withListeners (numbered.skip n) r.ip (r.base k) r.count).1 i below
      simp only [Host.localEndpoint, Host.file?, Option.bind_some, file]
  count := List.length_range'
  listeners := by
    refine ⟨_, ?_, Host.listeners_withListeners (h.skip n) r.ip (r.base k) r.count⟩
    rw [List.map_map, List.range'_eq_map_range]
    exact List.map_congr_left fun i _ => by simp
  others := (Host.get?_withListeners (numbered.skip n) r.ip (r.base k) r.count).2

/-- The search ends without leaving its words and its range.  It finds the first group of free
ports that is not behind a failure that lasts, and opens its listeners; else it fails, and
leaves none. -/
theorem listenGroup_outcome {h : Host} (numbered : h.Numbered) (r : PortRange)
    (some_port : 1 ≤ r.first.toNat) (one : 1 ≤ r.count) (many : r.count ≤ 1024) :
    (∃ tried, r.searchWords h = some (h.listenGroup r.ip r.first r.last r.count, tried)
      ∧ Within r.ip r.first.toNat r.last.toNat tried)
    ∧ ((∃ g h', h.listenGroup r.ip r.first r.last r.count = (.ok g, h')) ↔ ∃ k, r.Chosen h k)
    ∧ (∀ g h', h.listenGroup r.ip r.first r.last r.count = (.ok g, h') → r.Gets h g h')
    ∧ ∀ e h', h.listenGroup r.ip r.first r.last r.count = (.error e, h') →
      r.Fails h e ∧ ∃ n, h' = h.skip n := by
  refine ⟨?_, ?_⟩
  · have count : (UInt32.ofNat (max r.count 1)).toNat = r.count := by
      rw [Nat.max_eq_left one]
      exact UInt32.toNat_ofNat_of_lt' (show r.count < 4294967296 by omega)
    have few : r.last.toUInt32.toNat < 65536 := r.last.toNat_lt
    have start : r.first.toUInt32.toNat ≤ 65536 := r.first.toNat_lt.le
    have enough : r.last.toUInt32.toNat
        < r.first.toUInt32.toNat + (r.last.toNat + 1 - r.first.toNat) := by
      simp
      omega
    obtain ⟨tried, same, within⟩ := groupsWords_eq r.ip few (one.trans_eq count.symm)
      (count.trans_le many) start enough (.custom "AddrNotAvailable" "port range too small") h []
    refine ⟨tried, ?_, within⟩
    rw [count] at same
    rw [searchWords, same, Host.listenGroup, Nat.max_eq_left one]
    rfl
  · obtain ⟨n, same⟩ := listenGroup_eq numbered some_port one
    rw [same]
    rcases search_cases h one with ⟨k, chosen, found⟩ | ⟨e, fails, found⟩
    · simp only [found]
      refine ⟨⟨fun _ => ⟨k, chosen⟩, fun _ => ⟨_, _, rfl⟩⟩, ?_, nofun⟩
      rintro g h' ⟨rfl, rfl⟩
      exact chosen.gets numbered n
    · simp only [found]
      refine ⟨⟨nofun, fun ⟨k, chosen⟩ => absurd chosen fails.not_chosen⟩, nofun, ?_⟩
      rintro e' h' ⟨rfl, rfl⟩
      exact ⟨fails, n, rfl⟩

/-- Three ports of a range are taken, and one is not permitted. -/
def busy : Host := {
  taken := [(.ofIp .loopback 11001, Errno.addressInUse), (.ofIp .loopback 11002, Errno.permissionDenied),
    (.ofIp .loopback 11003, Errno.badDescriptor), (.ofIp .loopback 11006, Errno.addressInUse)] }

/-- The second port of the first group and the first of the second are what is passed over. -/
theorem listenGroup_busy : busy.Numbered ∧ ∃ g h',
    busy.listenGroup .loopback 11000 11006 2 = (.ok g, h')
      ∧ Gets ⟨.loopback, 11000, 11006, 2⟩ busy g h' := by
  have numbered : busy.Numbered := nofun
  let r : PortRange := ⟨.loopback, 11000, 11006, 2⟩
  have chosen : r.Chosen busy 2 := by
    refine ⟨by simp [Fits, base, r], rfl, fun j below => ?_⟩
    obtain rfl | rfl : j = 0 ∨ j = 1 := by omega
    · exact ⟨by simp [Fits, base, r], _, rfl, by decide⟩
    · exact ⟨by simp [Fits, base, r], _, rfl, by decide⟩
  obtain ⟨-, succeeds, gets, -⟩ :=
    listenGroup_outcome numbered r (by decide) (by decide) (by decide)
  obtain ⟨g, h', found⟩ := succeeds.mpr ⟨2, chosen⟩
  exact ⟨numbered, g, h', found, gets g h' found⟩

end PortRange

end PartitionEngine
