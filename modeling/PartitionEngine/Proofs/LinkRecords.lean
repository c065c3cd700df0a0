import PartitionEngine.Proofs.Calls
import Mathlib.Data.List.GetD

/-!
# Records of links

A link is told by its peer and its index, and its record is found under them.  A
change to the record of one link leaves every other record as it is
(`Links.record_modify_of_ne`).  A peer that becomes known has the records that links
have by default, so nothing is seen of it (`Links.record_addPeer`).
-/

namespace PartitionEngine

/-- A link of reactor `i` leads where its peer says. -/
structure Link.Leads (l : Link) (i : Nat) : Prop where
  index : l.index = i
  endpoint : l.peer.reactorEndpoint? i = some l.endpoint

theorem Link.Leads.eq {l l' : Link} {i j : Nat} (h : l.Leads i) (h' : l'.Leads j)
    (peer : l.peer = l'.peer) (index : l.index = l'.index) : l = l' := by
  obtain ⟨rfl, endpoint⟩ := h
  obtain ⟨rfl, endpoint'⟩ := h'
  cases l
  cases l'
  cases peer
  cases index
  cases endpoint.symm.trans endpoint'
  rfl

theorem Shared.Knows.leads {σ : Type} {s : Shared σ} {i : Nat} {l : Link} (h : s.Knows i l) :
    l.Leads i := ⟨h.index, h.endpoint⟩

namespace Links

variable {links links' : Links} {l l' : Link} {f : LinkRecord → LinkRecord} {peer : Address}

/-- A link has a record of its own. -/
def Has (links : Links) (l : Link) : Prop :=
  ∃ records, links.peers.get? l.peer = some records ∧ l.index < records.length

/-- Every peer has a record for each reactor. -/
def Full (links : Links) : Prop :=
  ∀ peer records, links.peers.get? peer = some records → records.length = links.reactorCount

theorem Full.has (full : links.Full) (known : (links.peers.get? l.peer).isSome = true)
    (inside : l.index < links.reactorCount) : links.Has l := by
  obtain ⟨records, found⟩ := Option.isSome_iff_exists.mp known
  exact ⟨records, found, (full _ _ found).symm ▸ inside⟩

theorem record_modify_self (has : links.Has l) (f : LinkRecord → LinkRecord) :
    (links.modify l f).record l = f (links.record l) := by
  obtain ⟨records, found, inside⟩ := has
  have inside' : l.index < (records.modify l.index f).length := by
    rw [List.length_modify]
    exact inside
  simp only [record, modify, found, Assoc.get?_insert, if_true, Option.getD_some,
    List.getD_eq_getElem _ _ inside, List.getD_eq_getElem _ _ inside', List.getElem_modify]

theorem record_modify_of_ne (apart : ¬ (l'.peer = l.peer ∧ l'.index = l.index))
    (f : LinkRecord → LinkRecord) : (links.modify l f).record l' = links.record l' := by
  simp only [record, modify]
  split
  · rename_i records found
    rw [Assoc.get?_insert]
    split
    · rename_i same
      have other : l.index ≠ l'.index := fun index => apart ⟨same, index.symm⟩
      rw [same, found, Option.getD_some, Option.getD_some, List.getD_eq_getElem?_getD,
        List.getD_eq_getElem?_getD, List.getElem?_modify]
      simp [other]
    · rfl
  · rfl

/-- A link without a record is not changed. -/
theorem record_modify_of_not_has (absent : ¬ links.Has l) (f : LinkRecord → LinkRecord) :
    (links.modify l f).record l = links.record l := by
  simp only [Has, not_exists, not_and, Nat.not_lt] at absent
  simp only [record, modify]
  split
  · rename_i records found
    have outside : records.length ≤ l.index := absent records found
    rw [Assoc.get?_insert, if_pos rfl, found, Option.getD_some, Option.getD_some,
      List.getD_eq_default _ _ outside,
      List.getD_eq_default _ _ (by rw [List.length_modify]; exact outside)]
  · rfl

theorem record_of_not_has (absent : ¬ links.Has l) : links.record l = {} := by
  simp only [Has, not_exists, not_and, Nat.not_lt] at absent
  rw [record]
  cases found : links.peers.get? l.peer with
  | none => rfl
  | some records => exact List.getD_eq_default _ _ (absent records found)

/-- A change that leaves what is counted leaves it for every link. -/
theorem connects_modify (keep : ∀ r, (f r).connects = r.connects) (l l' : Link) :
    ((links.modify l f).record l').connects = (links.record l').connects := by
  by_cases same : l'.peer = l.peer ∧ l'.index = l.index
  · have record (links : Links) : links.record l' = links.record l := by
      rw [Links.record, Links.record, same.1, same.2]
    rw [record, record]
    by_cases has : links.Has l
    · rw [record_modify_self has, keep]
    · rw [record_modify_of_not_has has]
  · rw [record_modify_of_ne same]

theorem has_modify (has : links.Has l') (l : Link) (f : LinkRecord → LinkRecord) :
    (links.modify l f).Has l' := by
  obtain ⟨records, found, inside⟩ := has
  simp only [Has, modify]
  split
  · rename_i records' found'
    simp only [Assoc.get?_insert]
    by_cases same : l'.peer = l.peer
    · rw [same] at found
      cases found.symm.trans found'
      exact ⟨_, if_pos same, by rw [List.length_modify]; exact inside⟩
    · exact ⟨records, (if_neg same).trans found, inside⟩
  · exact ⟨records, found, inside⟩

theorem Full.modify (full : links.Full) (l : Link) (f : LinkRecord → LinkRecord) :
    (links.modify l f).Full := by
  intro peer records found
  simp only [Links.modify] at found ⊢
  split at found
  · rename_i records' found'
    rw [Assoc.get?_insert] at found
    split at found
    · cases found
      exact (List.length_modify ..).trans (full _ _ found')
    · exact full _ _ found
  · exact full _ _ found

theorem record_addPeer (added : links.addPeer peer = .ok links') (l : Link) :
    links'.record l = links.record l := by
  simp only [addPeer] at added
  split at added
  · cases added
    rfl
  · rename_i unknown
    split at added
    · cases added
    · cases added
      simp only [record, Assoc.get?_insert]
      split
      · rename_i same
        have absent : links.peers.get? l.peer = none := by
          rw [same]
          simpa [Assoc.contains_eq] using unknown
        rw [absent, Option.getD_some, Option.getD_none, List.getD_nil, List.getD_eq_getElem?_getD]
        exact List.getElem?_getD_replicate_default_eq ..
      · rfl

theorem Full.addPeer (full : links.Full) (added : links.addPeer peer = .ok links') :
    links'.Full := by
  simp only [Links.addPeer] at added
  split at added
  · cases added
    exact full
  · split at added
    · cases added
    · cases added
      intro p records found
      rw [Assoc.get?_insert] at found
      split at found
      · cases found
        exact List.length_replicate
      · exact full p records found

/-- Looking for a link changes no record. -/
theorem record_link {index : Nat} {result : Except Failure Link}
    (made : links.link peer index = (result, links')) :
    (∀ l, links'.record l = links.record l) ∧ (links.Full → links'.Full)
      ∧ links'.reactorCount = links.reactorCount := by
  have count {links'' : Links} (added : links.addPeer peer = .ok links'') :
      links''.reactorCount = links.reactorCount := by
    simp only [Links.addPeer] at added
    split at added
    · cases added
      rfl
    · split at added
      · cases added
      · cases added
        rfl
  simp only [link] at made
  split at made
  · cases made
    exact ⟨fun _ => rfl, fun full => full, rfl⟩
  · rename_i added
    split at made
    all_goals
      cases made
      exact ⟨record_addPeer added, fun full => full.addPeer added, count added⟩

end Links

end PartitionEngine
