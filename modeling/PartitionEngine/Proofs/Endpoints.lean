import PartitionEngine.Proofs.Connections

/-!
# Endpoints of peers

A reactor finds the channel of a link by the endpoint that the link leads to, and an
endpoint is made of the address and the port of the peer alone.  Two peers that differ
in more than flow label and scope have no endpoint in common for any index
(`Address.reactorEndpoint?_eq_iff`).  Then the entries of a reactor name channels of
their own links, and a task for a link leaves the channels of all others as they are
(`Turn.Fit.keeps_others`).
-/

namespace PartitionEngine

theorem Endpoint.ofIp_inj {ip ip' : Ip} {port port' : UInt16} :
    ofIp ip port = ofIp ip' port' ↔ ip = ip' ∧ port = port' := by
  cases ip <;> cases ip' <;> simp [ofIp]

namespace Address

variable {p q : Address} {i : Nat} {e e' : Endpoint}

/-- The reactors of two peers listen at one endpoint if the peers have the address and the
port in common. -/
theorem reactorEndpoint?_eq_iff (listens : p.reactorEndpoint? i = some e)
    (listens' : q.reactorEndpoint? i = some e') : e = e' ↔ p.ip = q.ip ∧ p.port = q.port := by
  simp only [reactorEndpoint?, Option.ite_none_right_eq_some, Option.some.injEq] at listens listens'
  obtain ⟨fits, rfl⟩ := listens
  obtain ⟨fits', rfl⟩ := listens'
  rw [Endpoint.ofIp_inj]
  refine and_congr_right fun _ => ⟨fun same => ?_, fun same => by rw [same]⟩
  have same := congrArg UInt16.toNat same
  rw [UInt16.toNat_ofNat_of_lt' fits, UInt16.toNat_ofNat_of_lt' fits'] at same
  exact UInt16.toNat_inj.mp (Nat.add_right_cancel same)

/-- Only in version 6 is there more to an address than what its endpoints are made of. -/
theorem alike_iff (apart : p ≠ q) : p.ip = q.ip ∧ p.port = q.port ↔
    ∃ ip port flow scope flow' scope',
      p = ⟨.v6 ip port flow scope⟩ ∧ q = ⟨.v6 ip port flow' scope'⟩ := by
  constructor
  · rintro ⟨sameIp, samePort⟩
    obtain ⟨⟨ip, port⟩ | ⟨ip, port, flow, scope⟩⟩ := p
    · obtain ⟨⟨ip', port'⟩ | _⟩ := q
      · cases sameIp
        cases samePort
        exact absurd rfl apart
      · cases sameIp
    · obtain ⟨_ | ⟨ip', port', flow', scope'⟩⟩ := q
      · cases sameIp
      · cases sameIp
        cases samePort
        exact ⟨ip, port, flow, scope, flow', scope', rfl, rfl⟩
  · rintro ⟨ip, port, flow, scope, flow', scope', rfl, rfl⟩
    exact ⟨rfl, rfl⟩

end Address

namespace Turn

variable {σ : Type} {t t' : Turn σ} {K : Link → Prop} {l : Link} {key k : SlotKey} {c : Channel}

/-! ## The channel of a link -/

/-- If no other link leads to the endpoint, its entry names a channel of the link. -/
theorem Fit.serves_of_entry (h : t.Fit K) (own : ∀ l', K l' → l'.endpoint = l.endpoint → l' = l)
    (entry : t.reactor.outbound.get? l.endpoint = some key) : t.Serves key l := by
  obtain ⟨l', serves, endpoint⟩ := h.entry _ key entry
  obtain ⟨c, found, usable, link⟩ := serves
  obtain rfl := own l' (h.known key c l' found link) endpoint
  exact ⟨c, found, usable, link⟩

/-- What is done on the channel of a link leaves those of other links alone. -/
theorem Fit.keeps_others_outbound (h : t.Fit K)
    (room : t.reactor.channels.slots.length < Slab.maxSlots)
    (own : ∀ l', K l' → l'.endpoint = l.endpoint → l' = l)
    (some : ∀ key, (t.outboundChannel l).1 = some key → Acts .all key (t.outboundChannel l).2 t')
    (none : (t.outboundChannel l).1 = none → t' = (t.outboundChannel l).2)
    (found : t'.channel? k = .some c) : t.channel? k = .some c ∨ c.link = .some l := by
  obtain ⟨key, c', entry, found', -, same⟩ | ⟨made, here, -⟩ := outboundChannel_cases t l
  · rw [same] at some
    have acts := some key rfl
    by_cases at' : k = key
    · subst at'
      obtain ⟨c₁, found₁, -, link⟩ := h.serves_of_entry own entry
      exact .inr ((acts.channel found₁ c found).1.trans link)
    · exact .inl ((acts.untouched at').channel.symm.trans found)
  · -- The channel is new, and whatever follows is done on it.
    have acts : Acts .all (t.makeChannel l).1 (t.makeChannel l).2 t' := by
      have started : Acts .all (t.makeChannel l).1 (t.makeChannel l).2 (t.outboundChannel l).2 :=
        made ▸ acts_startConnect _ _ trivial
      cases usable : (t.outboundChannel l).1 with
      | none => exact none usable ▸ started
      | some key =>
        obtain ⟨rfl, -⟩ := here key usable
        exact started.trans (some _ usable)
    by_cases at' : k = (t.makeChannel l).1
    · subst at'
      have fresh : (t.makeChannel l).2.channel? (t.makeChannel l).1
          = .some (.outbound l t.config.maxMessageSize) :=
        (channel?_addChannel h.exact room _ _).trans (if_pos rfl)
      exact .inr (acts.channel fresh c found).1
    · have added : (t.makeChannel l).2.channel? k = t.channel? k :=
        (channel?_addChannel h.exact room _ _).trans (if_neg at')
      exact .inl (added.symm.trans ((acts.untouched at').channel.symm.trans found))

/-- A task for a link leaves the channels of other links alone. -/
theorem Fit.keeps_others (h : t.Fit K) (room : t.reactor.channels.slots.length < Slab.maxSlots)
    (own : ∀ l', K l' → l'.endpoint = l.endpoint → l' = l) {task : Task}
    (about : task.link? = some l) (found : (t.onTask task).channel? k = some c) :
    t.channel? k = some c ∨ c.link = some l := by
  cases stopping : t.reactor.stopping with
  | true =>
    have same := (untouched_of_forall (fun key => acts_reject t key task trivial) k).channel
    simp only [Turn.onTask, stopping, if_true] at found
    exact .inl (same.symm.trans found)
  | false =>
    cases task with
    | connect l' =>
      cases about
      simp only [Turn.onTask, stopping, Bool.false_eq_true, if_false] at found
      exact h.keeps_others_outbound room own (fun key _ => .refl _) (fun _ => rfl) found
    | write l' bytes id =>
      cases about
      simp only [Turn.onTask, stopping, Bool.false_eq_true, if_false] at found
      refine h.keeps_others_outbound room own (fun key usable => ?_) (fun none => ?_) found
      · split
        · rename_i key' t₁ made
          rw [made] at usable ⊢
          cases usable
          exact acts_write t₁ key bytes trivial
        · rename_i t₁ made
          rw [made] at usable
          cases usable
      · split
        · rename_i key' t₁ made
          rw [made] at none
          cases none
        · rename_i t₁ made
          rw [made]
    | execute | forward | reply | stop => cases about

end Turn

namespace World

variable {σ : Type}

/-- The links of two peers lead to one endpoint only if the peers are addresses of version 6
that differ in flow label or scope alone.  If no such address is known besides a peer, the
entry of a link to this peer names a channel of the link.  Then requests for the peer change
no channel of another link, and responses on its own channel are looked up under it. -/
theorem requests_keep_to_link :
    (∀ (links₁ links₁' links₂ links₂' : Links) (p q : Address) (i : Nat) (l l' : Link), p ≠ q →
      links₁.link p i = (.ok l, links₁') → links₂.link q i = (.ok l', links₂') →
        (l.endpoint = l'.endpoint ↔ ∃ ip port flow scope flow' scope',
          p = ⟨.v6 ip port flow scope⟩ ∧ q = ⟨.v6 ip port flow' scope'⟩))
    ∧ ∀ (w : World σ) (i : Nat) (seat : Seat σ) (l : Link), Reachable w → w.HasRoom →
      w.seat? i = some seat → seat.phase = .asleep → w.engine.shared.Knows i l →
      (∀ p, (w.engine.shared.links.peers.get? p).isSome = true → p.ip = l.peer.ip →
        p.port = l.peer.port → p = l.peer) →
      (∀ key, seat.reactor.outbound.get? l.endpoint = some key → (w.turn seat).Serves key l)
      ∧ ∀ t : Turn σ, t.reactor = seat.reactor →
        (∀ task k c, task.link? = some l → (t.onTask task).channel? k = some c →
          t.channel? k = some c ∨ c.link = some l)
        ∧ ∀ k c f, t.channel? k = some c → c.link = some l → f.isResponse = true →
          t.shared.shuttingDown = false → (t.onFrame k f).shared.invocations
            = (t.shared.invocations.complete l.peer f.correlationId f.outcome).2 := by
  constructor
  · intro links₁ links₁' links₂ links₂' p q i l l' apart made made'
    obtain ⟨-, leads⟩ := Links.link_spec made
    obtain ⟨-, leads'⟩ := Links.link_spec made'
    obtain ⟨-, -, listens, -⟩ := leads l rfl
    obtain ⟨-, -, listens', -⟩ := leads' l' rfl
    exact (Address.reactorEndpoint?_eq_iff listens listens').trans (Address.alike_iff apart)
  · intro w i seat l reached room found running knows unique
    have fit := reached.sound.fit i seat found running
    have own (l' : Link) (knows' : w.engine.shared.Knows i l') (same : l'.endpoint = l.endpoint) :
        l' = l := by
      obtain ⟨ip, port⟩ := (Address.reactorEndpoint?_eq_iff knows'.endpoint knows.endpoint).mp same
      have peer := unique l'.peer knows'.peer ip port
      exact knows'.leads.eq knows.leads peer (knows'.index.trans knows.index.symm)
    refine ⟨fun key entry => fit.serves_of_entry own entry, fun t same => ⟨?_, ?_⟩⟩
    · intro task k c about found'
      have fit : t.Fit (w.engine.shared.Knows i) := fit.of_reactor
        (congrArg Reactor.channels same) (congrArg Reactor.outbound same)
      exact fit.keeps_others (same ▸ room i seat found) own about found'
    · intro k c f found' link response going
      simp [Turn.onFrame, response, Turn.onResponse, found', link, going, Turn.modifyInvocations]

/-- Two peers on different networks, as their scopes say, and their links lead to one
endpoint. -/
theorem scopes_share_endpoint : ∃ (p q : Address) (l l' : Link), p ≠ q
    ∧ (({ reactorCount := 1 } : Links).link p 0).1 = .ok l
    ∧ (({ reactorCount := 1 } : Links).link q 0).1 = .ok l' ∧ l.endpoint = l'.endpoint :=
  ⟨⟨.v6 0xfe800000000000000000000000000001 5000 0 1⟩,
    ⟨.v6 0xfe800000000000000000000000000001 5000 0 2⟩, _, _, by decide, rfl, rfl, rfl⟩

/-- Two engines at one address listen at different ports.  After a call to the one, whatever
is sent to it goes by the channel of its link. -/
theorem requests_keep_to_link_of_call : ∃ (l : Link) (seat : Seat Builtin.Item),
    (({ reactorCount := 1 } : Links).link home 0).1 = .ok l ∧ l.endpoint ≠ outward.endpoint
    ∧ written.seat? 0 = some seat ∧ (written.turn seat).Serves ⟨0, 0⟩ outward
    ∧ ∀ bytes id k c, ((written.turn seat).onTask (.write outward bytes id)).channel? k = some c →
      (written.turn seat).channel? k = some c ∨ c.link = some outward := by
  obtain ⟨endpoints, keeps⟩ := requests_keep_to_link (σ := Builtin.Item)
  obtain ⟨entries, tasks⟩ := keeps written 0 _ outward reachable_written
    (of_alone rfl (by decide)) rfl rfl ⟨rfl, rfl, rfl⟩ fun p known _ _ => eq_away_of_known known
  have differ := endpoints { reactorCount := 1 } _ { reactorCount := 1 } _ home away 0 _ outward
    (by decide) rfl rfl
  refine ⟨_, _, rfl, fun same => ?_, rfl, entries _ rfl, fun bytes id k c => ?_⟩
  · obtain ⟨_, _, _, _, _, _, version, -⟩ := differ.mp same
    cases version
  · exact (tasks _ rfl).1 _ k c rfl

end World

end PartitionEngine
