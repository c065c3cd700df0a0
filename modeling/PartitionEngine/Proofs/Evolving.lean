import PartitionEngine.Proofs.Acts
import PartitionEngine.Proofs.Calls

/-!
# What a reactor does to those who wait

A reactor lets the invocations shrink, and hands over nothing but requests and
responses of others.  A channel that serves a link goes on serving it, or no
invocation is left that goes through the link (`Turn.Evolves`).

The entries for endpoints name channels that serve, and channels have known links
(`Turn.Fit`).  Every act keeps that, and so does every handler.
-/

namespace PartitionEngine

namespace Shared

variable {σ : Type} {s s' s'' : Shared σ}

/-- What a reactor does to what is shared.  No invocation comes, and no task but to
pass something on. -/
structure Quiet (s s' : Shared σ) : Prop extends Onward s s' where
  relays : ∀ i task, task ∈ s'.queued i → task ∈ s.queued i ∨ task.isRelay = true
  waits : s.invocations.Shrinks s'.invocations

namespace Quiet

theorem refl (s : Shared σ) : s.Quiet s := ⟨.refl s, fun _ _ mem => .inl mem, .refl _⟩

theorem trans (h : s.Quiet s') (h' : s'.Quiet s'') : s.Quiet s'' where
  toOnward := h.toOnward.trans h'.toOnward
  relays i task mem := (h'.relays i task mem).elim (h.relays i task) .inr
  waits := h.waits.trans h'.waits

theorem invocations (s : Shared σ) {invocations : InvocationTable}
    (waits : s.invocations.Shrinks invocations) : s.Quiet { s with invocations } :=
  ⟨.invocations s invocations, fun _ _ mem => .inl mem, waits⟩

theorem links (s : Shared σ) (l : Link) (f : LinkRecord → LinkRecord) :
    s.Quiet { s with links := s.links.modify l f } :=
  ⟨⟨⟨rfl, rfl, rfl, s.links.isSome_get?_modify l f⟩, fun _ _ mem => mem⟩, fun _ _ mem => .inl mem,
    .refl _⟩

/-- A change to a handle that leaves its tasks alone. -/
theorem handle {f : ReactorHandle → ReactorHandle} {i : Nat}
    (keep : ∀ r, s.reactor? i = some r → (f r).queue.tasks = r.queue.tasks) :
    s.Quiet (s.modifyReactor i f) where
  toOnward := .of_reactors s _ (List.length_modify ..) fun j _ mem =>
    (queued_modifyReactor_of_tasks keep j).symm ▸ mem
  relays j _ mem := .inl (queued_modifyReactor_of_tasks keep j ▸ mem)
  waits := .refl _

theorem relay (s : Shared σ) (thread : ThreadId) (i : Nat) {task : Task} (relay : task.isRelay = true) :
    s.Quiet (s.submit thread i task).2 where
  toOnward := .submit s thread i task
  relays j other mem := by
    rcases mem_queued_submit s thread i task mem with mem | ⟨-, rfl⟩
    · exact .inl mem
    · exact .inr relay
  waits := invocations_submit s thread i task ▸ .refl _

/-- Nothing is passed on over a link. -/
theorem known (h : s.Quiet s') (known : s.LinksKnown) : s'.LinksKnown := by
  intro i task l mem about
  rcases h.relays i task mem with mem | relay
  · exact (known i task l mem about).keeps h.toKeeps
  · cases task <;> cases about <;> cases relay

end Quiet

/-- No invocation goes through a link. -/
def Deserted (s : Shared σ) (l : Link) : Prop :=
  ∀ id i, s.invocations.Waits l.peer id i → i.reactor ≠ l.index

theorem Deserted.quiet {l : Link} (h : s.Deserted l) (quiet : s.Quiet s') : s'.Deserted l :=
  fun id i waits => h id i (quiet.waits _ id i waits)

end Shared

namespace Turn

variable {σ : Type} {may : Scope} {K : Link → Prop} {key : SlotKey} {t t' t'' : Turn σ}

/-- A channel connects or is open, and is the one of a link. -/
def Serves (t : Turn σ) (key : SlotKey) (l : Link) : Prop :=
  ∃ c, t.channel? key = some c ∧ isUsable c ∧ c.link = some l

theorem Serves.of_eq {l : Link} (h : t.Serves key l) (same : t'.channel? key = t.channel? key) :
    t'.Serves key l := by
  obtain ⟨c, found, rest⟩ := h
  exact ⟨c, same.trans found, rest⟩

/-- What a reactor does to those who wait. -/
structure Evolves (t t' : Turn σ) : Prop where
  shared : t.shared.Quiet t'.shared
  index : t'.reactor.index = t.reactor.index
  address : t'.reactor.localAddress = t.reactor.localAddress
  stopping : t.reactor.stopping = true → t'.reactor.stopping = true
  serves : ∀ key l, t.Serves key l → t'.Serves key l ∨ t'.shared.Deserted l

namespace Evolves

theorem refl (t : Turn σ) : Evolves t t :=
  ⟨.refl _, rfl, rfl, fun stopping => stopping, fun _ _ serves => .inl serves⟩

theorem trans (h : Evolves t t') (h' : Evolves t' t'') : Evolves t t'' where
  shared := h.shared.trans h'.shared
  index := h'.index.trans h.index
  address := h'.address.trans h.address
  stopping stopping := h'.stopping (h.stopping stopping)
  serves key l serves := by
    rcases h.serves key l serves with serves | deserted
    · exact h'.serves key l serves
    · exact .inr (deserted.quiet h'.shared)

/-- What leaves the channels alone. -/
theorem of_channels (shared : t.shared.Quiet t'.shared)
    (index : t'.reactor.index = t.reactor.index)
    (address : t'.reactor.localAddress = t.reactor.localAddress)
    (stopping : t'.reactor.stopping = t.reactor.stopping)
    (channels : t'.reactor.channels = t.reactor.channels) : Evolves t t' where
  shared := shared
  index := index
  address := address
  stopping winding := stopping.trans winding
  serves key l serves := .inl (serves.of_eq (by rw [channel?, channels, channel?]))

end Evolves

/-- The channels of a reactor fit what it knows of them. -/
structure Fit (K : Link → Prop) (t : Turn σ) : Prop where
  exact : t.reactor.channels.FreeExact
  entry : ∀ e key, t.reactor.outbound.get? e = some key → ∃ l, t.Serves key l ∧ l.endpoint = e
  known : ∀ key c l, t.channel? key = some c → c.link = some l → K l

theorem Fit.of_reactor (h : t.Fit K) (channels : t'.reactor.channels = t.reactor.channels)
    (outbound : t'.reactor.outbound = t.reactor.outbound) : t'.Fit K where
  exact := channels ▸ h.exact
  entry e key entry := by
    obtain ⟨l, serves, endpoint⟩ := h.entry e key (outbound ▸ entry)
    exact ⟨l, serves.of_eq (by rw [channel?, channels, channel?]), endpoint⟩
  known key c l found := h.known key c l (by rw [channel?, ← channels]; exact found)

theorem Fit.mono {K' : Link → Prop} (h : t.Fit K) (weaker : ∀ l, K l → K' l) : t.Fit K' :=
  ⟨h.exact, h.entry, fun key c l found link => weaker l (h.known key c l found link)⟩

/-! ## Acts -/

theorem isUsable_of_tuned {c c' : Channel} (h : isUsable c) (tuned : c.Tuned may c') :
    isUsable c' := by
  rcases tuned.state with same | ⟨-, -, isOpen⟩
  · rw [isUsable, same]
    exact h
  · exact .inr isOpen

theorem Serves.tune {f : Channel → Channel} {k : SlotKey} {l : Link} (h : t.Serves k l)
    (tuned : ∀ c, t.channel? key = some c → c.Tuned may (f c)) :
    (t.modifyChannel key f).Serves k l := by
  obtain ⟨c, found, usable, link⟩ := h
  by_cases same : k = key
  · subst same
    exact ⟨f c, channel?_modifyChannel_self found f, isUsable_of_tuned usable (tuned c found),
      (tuned c found).link.trans link⟩
  · exact ⟨c, by rw [channel?_modifyChannel, if_neg same, found], usable, link⟩

theorem not_isUsable_of_isClosed {c : Channel} (closed : c.state.isClosed = true) :
    ¬ isUsable c := by
  rintro (state | state)
  all_goals
    rw [state] at closed
    cases closed

theorem Serves.release {k : SlotKey} {l : Link} (h : t.Serves k l) (key : SlotKey) :
    (t.releaseIfDone key).Serves k l := by
  obtain same | ⟨c, found, closing, -⟩ := releaseIfDone_cases t key
  · rw [same]
    exact h
  · have apart : k ≠ key := by
      rintro rfl
      obtain ⟨c', found', usable, -⟩ := h
      cases found.symm.trans found'
      exact not_isUsable_of_isClosed (by rw [closing]; rfl) usable
    exact h.of_eq (Untouched.release t apart).channel

theorem quiet_count (t : Turn σ) (f : ReactorStats → ReactorStats) :
    t.shared.Quiet (t.count f).shared :=
  .handle (f := fun r => r.count f) fun _ _ => rfl

theorem quiet_shut (t : Turn σ) (key : SlotKey) (c : Channel) (cause : Failure) :
    t.shared.Quiet (t.shut key c cause).shared := by
  have counted := quiet_count t fun s => { s with closed := s.closed + 1 }
  simp only [shut]
  split
  · exact (counted.trans (.invocations _ fun _ _ _ waits =>
      (InvocationTable.waits_failWhere waits).1)).trans (.links _ _ _)
  · exact counted

/-- No invocation is left that goes through the link of a channel that is shut. -/
theorem deserted_shut {c : Channel} {l : Link} (link : c.link = some l) (cause : Failure) :
    (t.shut key c cause).shared.Deserted l := by
  intro id i waits
  simp only [shut] at waits
  simp only [link] at waits
  simpa using (InvocationTable.waits_failWhere waits).2 rfl

theorem serves_shut {c : Channel} {k : SlotKey} {l : Link} (found : t.channel? key = some c)
    (cause : Failure) (h : t.Serves k l) :
    (t.shut key c cause).Serves k l ∨ (t.shut key c cause).shared.Deserted l := by
  by_cases same : k = key
  · subst same
    obtain ⟨c', found', -, link⟩ := h
    rw [found] at found'
    cases found'
    exact .inr (deserted_shut link cause)
  · exact .inl (h.of_eq (Untouched.shut t same c cause).channel)

theorem Act.evolves (act : Act may key t t') : Evolves t t' := by
  cases act with
  | host | dispatch | mark | flag => exact .of_channels (.refl _) rfl rfl rfl rfl
  | submit | submitPlain | cancel | cancelPlain => exact .of_channels (.refl _) rfl rfl rfl rfl
  | count f => exact .of_channels (quiet_count t f) rfl rfl rfl rfl
  | hand index task relay => exact .of_channels (.relay _ _ _ relay) rfl rfl rfl rfl
  | complete peer correlationId result =>
    have shrinks := InvocationTable.shrinks_complete t.shared.invocations peer correlationId result
    exact .of_channels (.invocations _ shrinks) rfl rfl rfl rfl
  | markOpen l => exact .of_channels (.links _ _ _) rfl rfl rfl rfl
  | tune f tuned =>
    exact ⟨.refl _, rfl, rfl, fun stopping => stopping, fun k l serves => .inl (serves.tune tuned)⟩
  | shut c cause found live =>
    have rest : (t.shut key c cause).reactor.index = t.reactor.index
        ∧ (t.shut key c cause).reactor.localAddress = t.reactor.localAddress
        ∧ (t.shut key c cause).reactor.stopping = t.reactor.stopping := by
      rw [shut_eq]
      exact ⟨rfl, rfl, rfl⟩
    exact ⟨quiet_shut t key c cause, rest.1, rest.2.1, fun stopping => rest.2.2.trans stopping,
      fun k l serves => serves_shut found cause serves⟩
  | release =>
    have rest : (t.releaseIfDone key).shared = t.shared
        ∧ (t.releaseIfDone key).reactor.index = t.reactor.index
        ∧ (t.releaseIfDone key).reactor.localAddress = t.reactor.localAddress
        ∧ (t.releaseIfDone key).reactor.stopping = t.reactor.stopping := by
      rw [releaseIfDone_eq]
      exact ⟨rfl, rfl, rfl, rfl⟩
    exact ⟨rest.1 ▸ .refl _, rest.2.1, rest.2.2.1, fun stopping => rest.2.2.2.trans stopping,
      fun k l serves => .inl (serves.release key)⟩

theorem Acts.evolves (acts : Acts may key t t') : Evolves t t' := by
  induction acts with
  | refl => exact .refl t
  | tail _ act ih => exact ih.trans act.evolves

/-- The entry of a channel that is shut goes. -/
theorem entry_shut {c : Channel} {cause : Failure} {e : Endpoint} {k : SlotKey}
    (entry : (t.shut key c cause).reactor.outbound.get? e = some k) :
    t.reactor.outbound.get? e = some k
      ∧ ∀ l, c.link = some l → l.endpoint = e → k ≠ key := by
  simp only [shut] at entry
  split at entry
  · rename_i l link
    simp only [abandonLink, modifyLinks, modifyInvocations] at entry
    split at entry
    · rename_i own
      rw [Assoc.get?_erase] at entry
      split at entry
      · cases entry
      · rename_i other
        refine ⟨entry, ?_⟩
        intro l' link' endpoint
        rw [link] at link'
        cases link'
        exact absurd endpoint.symm other
    · rename_i foreign
      refine ⟨entry, fun l' link' endpoint same => foreign ?_⟩
      rw [link] at link'
      cases link'
      rw [endpoint, ← same]
      exact entry
  · rename_i link
    refine ⟨entry, ?_⟩
    intro l' link'
    rw [link] at link'
    cases link'

theorem Fit.shut {c : Channel} (h : t.Fit K) (found : t.channel? key = some c) (cause : Failure)
    (exact : (t.shut key c cause).reactor.channels.FreeExact) : (t.shut key c cause).Fit K where
  exact := exact
  entry e k entry := by
    obtain ⟨entry, other⟩ := entry_shut entry
    obtain ⟨l, serves, endpoint⟩ := h.entry e k entry
    refine ⟨l, ?_, endpoint⟩
    have apart : k ≠ key := by
      rintro rfl
      obtain ⟨c', found', -, link⟩ := serves
      rw [found] at found'
      cases found'
      exact other l link endpoint rfl
    exact serves.of_eq (Untouched.shut t apart c cause).channel
  known k c' l found' link := by
    by_cases same : k = key
    · subst same
      rw [channel?_shut found] at found'
      cases found'
      exact h.known k c l found link
    · rw [(Untouched.shut t same c cause).channel] at found'
      exact h.known k c' l found' link

theorem Fit.release (h : t.Fit K) (key : SlotKey)
    (exact : (t.releaseIfDone key).reactor.channels.FreeExact) : (t.releaseIfDone key).Fit K where
  exact := exact
  entry e k entry := by
    have same : (t.releaseIfDone key).reactor.outbound = t.reactor.outbound := by
      rw [releaseIfDone_eq]
    obtain ⟨l, serves, endpoint⟩ := h.entry e k (same ▸ entry)
    exact ⟨l, serves.release key, endpoint⟩
  known k c l found link := h.known k c l (channel?_of_releaseIfDone found) link

theorem Act.fit (act : Act may key t t') (h : t.Fit K) : t'.Fit K := by
  have exact := act.freeExact h.exact
  cases act with
  | host | dispatch | mark | count | hand | complete | markOpen | flag =>
    exact h.of_reactor rfl rfl
  | submit | submitPlain | cancel | cancelPlain => exact h.of_reactor rfl rfl
  | tune f tuned =>
    refine ⟨exact, ?_, ?_⟩
    · intro e k entry
      obtain ⟨l, serves, endpoint⟩ := h.entry e k entry
      exact ⟨l, serves.tune tuned, endpoint⟩
    · intro k c l found link
      rw [channel?_modifyChannel] at found
      split at found
      · rename_i same
        obtain ⟨c', here, rfl⟩ := Option.map_eq_some_iff.mp found
        exact h.known key c' l here ((tuned c' here).link ▸ link)
      · exact h.known k c l found link
  | shut c cause found live => exact h.shut found cause exact
  | release => exact h.release key exact

theorem Acts.fit (acts : Acts may key t t') (h : t.Fit K) : t'.Fit K := by
  induction acts with
  | refl => exact h
  | tail _ act ih => exact act.fit ih

theorem isClosed_of_tuned {c c' : Channel} (closed : c.state.isClosed = true)
    (tuned : c.Tuned may c') : c'.state.isClosed = true := by
  rcases tuned.state with same | ⟨-, connecting, -⟩
  · exact same ▸ closed
  · rw [connecting] at closed
    cases closed

theorem live_of_tuned {c c' : Channel} (tuned : c.Tuned may c')
    (live : c'.state.isClosed = false) : c.state.isClosed = false := by
  cases closed : c.state.isClosed with
  | false => rfl
  | true => exact (isClosed_of_tuned closed tuned).symm.trans live

/-- What became of a channel: it was tuned, or it was closed. -/
theorem Acts.channel (acts : Acts may key t t') {c : Channel} (found : t.channel? key = some c) :
    ∀ c', t'.channel? key = some c' →
      c'.link = c.link ∧ (c.Tuned may c' ∨ c'.state.isClosed = true) := by
  induction acts with
  | refl =>
    intro c' found'
    cases found.symm.trans found'
    exact ⟨rfl, .inl (.refl c)⟩
  | @tail t₁ t₂ _ act ih =>
    intro c' found'
    cases act with
    | host | dispatch | mark | count | hand | complete | markOpen | flag => exact ih c' found'
    | submit | submitPlain | cancel | cancelPlain => exact ih c' found'
    | tune f tuned =>
      obtain ⟨c₁, here, rfl⟩ := exists_of_channel?_modifyChannel found'
      have now := tuned c₁ here
      obtain ⟨link, before | closed⟩ := ih c₁ here
      · exact ⟨now.link.trans link, .inl (before.trans now)⟩
      · exact ⟨now.link.trans link, .inr (isClosed_of_tuned closed now)⟩
    | shut c₁ cause here live =>
      rw [channel?_shut here] at found'
      cases found'
      exact ⟨(ih c₁ here).1, .inr rfl⟩
    | release => exact ih c' (channel?_of_releaseIfDone found')

end Turn

end PartitionEngine
