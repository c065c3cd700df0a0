import PartitionEngine.Proofs.Handovers
import PartitionEngine.Proofs.Posting

/-!
# Links and their channels

What a reactor keeps true of its links.  The channel that serves a link is the one the
entry for its endpoint names, and the record of the link says what the channel does: it
connects, or is open.  A link without a channel is idle, or it has been asked for
(`Turn.Coherent`).

A handler that opens nothing can only close a channel, and closing takes the entry along
and resets the link (`Acts.coheres`).  So the content lies in three places: a channel
that is made (`Coherent.makeChannel`), one that opens (`Coherent.openChannel`), and one
that is closed (`Coherent.shut`).  Each changes what serves one link, with its record and
its entry (`Coherent.change`).
-/

namespace PartitionEngine

/-- The link that a channel is for while it can be used, and what the record of that
link ought to say. -/
def Channel.serving? (c : Channel) : Option (Link × LinkState) :=
  match c.state with
  | .connecting => c.link.map fun l => (l, .connecting)
  | .open => c.link.map fun l => (l, .open)
  | _ => none

theorem Channel.serving?_eq_some {c : Channel} {l : Link} {state : LinkState} :
    c.serving? = some (l, state) ↔ c.link = some l
      ∧ (c.state = .connecting ∧ state = .connecting ∨ c.state = .open ∧ state = .open) := by
  simp only [serving?]
  cases c.state <;> cases c.link <;> simp [eq_comm]

/-- A channel that is tuned by a handler that opens nothing serves as before. -/
theorem Channel.Tuned.serving? {may : Scope} {c c' : Channel} (tuned : c.Tuned may c')
    (closed : ¬ may.opens) : c'.serving? = c.serving? := by
  have state := tuned.state.resolve_right fun opened => closed opened.1
  simp only [Channel.serving?, tuned.link, state]

/-- What a reactor does to the records of links.  It may count a connection that was
made. -/
structure Links.Changes (i : Nat) (made : Option Link) (links links' : Links) : Prop where
  has : ∀ l, links.Has l → links'.Has l
  full : links.Full → links'.Full
  count : links'.reactorCount = links.reactorCount
  connects : ∀ j l, l.Leads j → (links'.record l).connects
    = (links.record l).connects + if made = some l then 1 else 0
  others : ∀ l, l.index ≠ i → links'.record l = links.record l

namespace Links.Changes

variable {i : Nat} {made : Option Link} {links links' links'' : Links}

theorem refl (links : Links) : links.Changes i none links :=
  ⟨fun _ has => has, fun full => full, rfl, fun _ _ _ => rfl, fun _ _ => rfl⟩

theorem trans (h : links.Changes i made links') (h' : links'.Changes i none links'') :
    links.Changes i made links'' where
  has l has := h'.has l (h.has l has)
  full full := h'.full (h.full full)
  count := h'.count.trans h.count
  connects j l leads := (h'.connects j l leads).trans (h.connects j l leads)
  others l other := (h'.others l other).trans (h.others l other)

theorem count_modify (links : Links) (l : Link) (f : LinkRecord → LinkRecord) :
    (links.modify l f).reactorCount = links.reactorCount := by
  simp only [modify]
  split <;> rfl

/-- A change to the record of a link of reactor `i` that counts nothing. -/
theorem modify {l : Link} (index : l.index = i) (f : LinkRecord → LinkRecord)
    (keep : ∀ r, (f r).connects = r.connects) : links.Changes i none (links.modify l f) where
  has _ has := has_modify has l f
  full full := full.modify l f
  count := count_modify links l f
  connects _ l' _ := connects_modify keep l l'
  others _ other := record_modify_of_ne (fun same => other (same.2.trans index)) f

/-- A connection is started. -/
theorem connectStarted {l : Link} (leads : l.Leads i) (has : links.Has l) :
    links.Changes i (some l) (links.connectStarted l) where
  has _ has := has_modify has l _
  full full := full.modify l _
  count := count_modify links l _
  connects j l' leads' := by
    by_cases same : l = l'
    · subst same
      rw [if_pos rfl, Links.connectStarted, record_modify_self has]
    · rw [if_neg (by simpa using same), Links.connectStarted, record_modify_of_ne]
      · rfl
      · exact fun both => same (leads.eq leads' both.1.symm both.2.symm)
  others _ other := record_modify_of_ne (fun same => other (same.2.trans leads.index)) _

end Links.Changes

namespace Turn

variable {σ : Type} {may : Scope} {i : Nat} {K : Link → Prop} {asked : Link → Prop} {key : SlotKey}
  {t t' t'' : Turn σ} {l : Link} {made : Option Link}

/-- The link that the channel under a key serves. -/
def serving? (t : Turn σ) (key : SlotKey) : Option (Link × LinkState) :=
  (t.channel? key).bind Channel.serving?

theorem serves_iff : t.Serves key l ↔ ∃ state, t.serving? key = some (l, state) := by
  constructor
  · rintro ⟨c, found, connecting | isOpen, link⟩
    · exact ⟨.connecting, by simp [serving?, found, Channel.serving?_eq_some, link, connecting]⟩
    · exact ⟨.open, by simp [serving?, found, Channel.serving?_eq_some, link, isOpen]⟩
  · rintro ⟨state, here⟩
    obtain ⟨c, found, serving⟩ := Option.bind_eq_some_iff.mp here
    obtain ⟨link, ⟨connecting, -⟩ | ⟨isOpen, -⟩⟩ := Channel.serving?_eq_some.mp serving
    · exact ⟨c, found, .inl connecting, link⟩
    · exact ⟨c, found, .inr isOpen, link⟩

/-- Links and channels agree.  `K` tells the links that channels may be for, and `asked`
those that the reactor was asked to connect. -/
structure Coherent (i : Nat) (K asked : Link → Prop) (t : Turn σ) : Prop where
  fit : t.Fit K
  leads : ∀ l, K l → l.Leads i
  has : ∀ l, K l → t.shared.links.Has l
  entry : ∀ key l state, t.serving? key = some (l, state) →
    t.reactor.outbound.get? l.endpoint = some key
  state : ∀ key l state, t.serving? key = some (l, state) → t.shared.links.state l = state
  rest : ∀ l, l.Leads i → (∀ key, ¬ t.Serves key l) → t.shared.links.state l = .idle
    ∨ t.shared.links.state l = .connecting ∧ asked l

namespace Coherent

/-- A link that is served is known. -/
theorem known (h : t.Coherent i K asked) {state : LinkState}
    (here : t.serving? key = some (l, state)) : K l := by
  obtain ⟨c, found, -, link⟩ := serves_iff.mpr ⟨state, here⟩
  exact h.fit.known key c l found link

/-- One channel at most serves a link. -/
theorem unique (h : t.Coherent i K asked) {k : SlotKey} (here : t.Serves key l)
    (there : t.Serves k l) : key = k := by
  obtain ⟨state, here⟩ := serves_iff.mp here
  obtain ⟨state', there⟩ := serves_iff.mp there
  exact Option.some.inj ((h.entry key l state here).symm.trans (h.entry k l state' there))

theorem mono {asked' : Link → Prop} (h : t.Coherent i K asked) (weaker : ∀ l, asked l → asked' l) :
    t.Coherent i K asked' :=
  { h with rest := fun l leads none => (h.rest l leads none).imp_right (.imp_right (weaker l)) }

/-- What serves a link is the one that does. -/
theorem serves_alone (h : t.Coherent i K asked) {state : LinkState}
    (served : t.serving? key = some (l, state)) (k : SlotKey) (l' : Link) (state' : LinkState)
    (here : t.serving? k = some (l', state')) : k = key ↔ l' = l := by
  constructor
  · rintro rfl
    exact congrArg Prod.fst (Option.some.inj (here.symm.trans served))
  · rintro rfl
    exact h.unique (serves_iff.mpr ⟨state', here⟩) (serves_iff.mpr ⟨state, served⟩)

/-- What serves one link changes, and nothing else.  The record of the link says so, and
the entry for its endpoint. -/
theorem change {asked' : Link → Prop} {f : LinkRecord → LinkRecord} (h : t.Coherent i K asked)
    (fit : t'.Fit K) (known : K l) (new : Option LinkState)
    (links : t'.shared.links = t.shared.links.modify l f)
    (state : (f (t.shared.links.record l)).state = new.getD .idle)
    (serving : ∀ k, t'.serving? k = if k = key then new.map (l, ·) else t.serving? k)
    (alone : ∀ k l' state, t.serving? k = some (l', state) → (k = key ↔ l' = l))
    (entry : ∀ s, new = some s → t'.reactor.outbound.get? l.endpoint = some key)
    (entries : ∀ k l' state, t.serving? k = some (l', state) → l' ≠ l →
      t'.reactor.outbound.get? l'.endpoint = some k)
    (later : ∀ l', l' ≠ l → asked l' → asked' l') : t'.Coherent i K asked' := by
  have leads := h.leads l known
  have same : t'.shared.links.state l = new.getD .idle := by
    rw [Links.state, links, Links.record_modify_self (h.has l known), state]
  have others {l' : Link} (leads' : l'.Leads i) (other : l' ≠ l) :
      t'.shared.links.state l' = t.shared.links.state l' := by
    rw [Links.state, links, Links.record_modify_of_ne fun same =>
      other (leads'.eq leads same.1 same.2)]
    rfl
  -- Who serves a link serves the one that changed, or serves on.
  have serves {k : SlotKey} {l' : Link} {s : LinkState} (here : t'.serving? k = some (l', s)) :
      k = key ∧ l' = l ∧ new = some s ∨ l' ≠ l ∧ t.serving? k = some (l', s) := by
    rw [serving] at here
    split at here
    · rename_i this
      obtain ⟨s', now, pair⟩ := Option.map_eq_some_iff.mp here
      cases pair
      exact .inl ⟨this, rfl, now⟩
    · rename_i apart
      exact .inr ⟨fun same => apart ((alone k l' s here).mpr same), here⟩
  refine ⟨fit, h.leads, ?_, ?_, ?_, ?_⟩
  · intro l' known'
    rw [links]
    exact Links.has_modify (h.has l' known') l f
  · intro k l' s here
    obtain ⟨rfl, rfl, now⟩ | ⟨other, here⟩ := serves here
    · exact entry s now
    · exact entries k l' s here other
  · intro k l' s here
    obtain ⟨-, rfl, now⟩ | ⟨other, here⟩ := serves here
    · rw [same, now, Option.getD_some]
    · rw [others (h.leads l' (h.known here)) other]
      exact h.state k l' s here
  · intro l' leads' unserved
    by_cases mine : l' = l
    · subst mine
      cases now : new with
      | none => exact .inl (by rw [same, now, Option.getD_none])
      | some s =>
        refine absurd (serves_iff.mpr ⟨s, ?_⟩) (unserved key)
        rw [serving, if_pos rfl, now, Option.map_some]
    · rw [others leads' mine]
      refine (h.rest l' leads' ?_).imp_right (.imp_right (later l' mine))
      intro k before
      obtain ⟨s, here⟩ := serves_iff.mp before
      refine unserved k (serves_iff.mpr ⟨s, ?_⟩)
      rw [serving, if_neg fun this => mine ((alone k l' s here).mp this), here]

end Coherent

/-- Links and channels agree still. -/
structure Coheres (i : Nat) (made : Option Link) (K asked : Link → Prop) (t t' : Turn σ) :
    Prop where
  coherent : t'.Coherent i K asked
  changes : t.shared.links.Changes i made t'.shared.links

namespace Coheres

theorem trans (h : t.Coheres i made K asked t') (h' : t'.Coheres i none K asked t'') :
    t.Coheres i made K asked t'' :=
  ⟨h'.coherent, h.changes.trans h'.changes⟩

/-- What leaves channels, entries and links alone, as far as it matters here. -/
theorem of_serving (h : t.Coherent i K asked) (fit : t'.Fit K)
    (serving : ∀ key, t'.serving? key = t.serving? key)
    (outbound : t'.reactor.outbound = t.reactor.outbound)
    (links : t'.shared.links = t.shared.links) : t.Coheres i none K asked t' where
  coherent :=
    { fit
      leads := h.leads
      has := links ▸ h.has
      entry := fun key l state here => outbound ▸ h.entry key l state (serving key ▸ here)
      state := fun key l state here => links ▸ h.state key l state (serving key ▸ here)
      rest := fun l leads none => links ▸ h.rest l leads fun key serves =>
        none key (serves_iff.mpr (serving key ▸ serves_iff.mp serves)) }
  changes := links ▸ .refl _

theorem of_reactor (h : t.Coherent i K asked)
    (channels : t'.reactor.channels = t.reactor.channels)
    (outbound : t'.reactor.outbound = t.reactor.outbound)
    (links : t'.shared.links = t.shared.links) : t.Coheres i none K asked t' := by
  refine of_serving h (h.fit.of_reactor channels outbound) ?_ outbound links
  intro key
  rw [serving?, channel?, channels]
  rfl

theorem refl (h : t.Coherent i K asked) : t.Coheres i none K asked t := of_reactor h rfl rfl rfl

end Coheres

/-! ## Closing -/

theorem serving?_tune {f : Channel → Channel} (closed : ¬ may.opens)
    (tuned : ∀ c, t.channel? key = some c → c.Tuned may (f c)) (k : SlotKey) :
    (t.modifyChannel key f).serving? k = t.serving? k := by
  simp only [serving?, channel?_modifyChannel]
  split
  · rename_i same
    subst same
    cases found : t.channel? k with
    | none => rfl
    | some c => exact (tuned c found).serving? closed
  · rfl

theorem serving?_release (t : Turn σ) (key k : SlotKey) :
    (t.releaseIfDone key).serving? k = t.serving? k := by
  obtain stays | ⟨c, found, closing, -, gone, -⟩ := releaseIfDone_cases t key
  · rw [stays]
  · by_cases same : k = key
    · subst same
      rw [serving?, gone, serving?, found]
      simp [Channel.serving?, closing]
    · rw [serving?, (Untouched.release t same).channel, serving?]

theorem serving?_shut {c : Channel} (found : t.channel? key = some c) (cause : Failure)
    (k : SlotKey) : (t.shut key c cause).serving? k = if k = key then none else t.serving? k := by
  split
  · rename_i same
    rw [same, serving?, channel?_shut found]
    rfl
  · rename_i apart
    rw [serving?, (Untouched.shut t apart c cause).channel, serving?]

/-- A channel that was not closed serves its link. -/
theorem exists_serving {c : Channel} (found : t.channel? key = some c)
    (live : c.state.isClosed = false) (link : c.link = some l) :
    ∃ state, t.serving? key = some (l, state) := by
  simp only [serving?, found, Option.bind_some, Channel.serving?_eq_some]
  cases state : c.state with
  | connecting => exact ⟨_, link, .inl ⟨rfl, rfl⟩⟩
  | «open» => exact ⟨_, link, .inr ⟨rfl, rfl⟩⟩
  | closing | closed =>
    rw [state] at live
    cases live

/-- A channel that is shut serves no longer.  Its entry is gone, and its link is idle. -/
theorem Coherent.shut (h : t.Coherent i K asked) {c : Channel} (found : t.channel? key = some c)
    (live : c.state.isClosed = false) (cause : Failure)
    (exact : (t.shut key c cause).reactor.channels.FreeExact) :
    t.Coheres i none K asked (t.shut key c cause) := by
  have fit := h.fit.shut found cause exact
  cases link : c.link with
  | none =>
    refine .of_serving h fit ?_ ?_ ?_
    · intro k
      rw [serving?_shut found]
      split
      · rename_i same
        subst same
        simp only [serving?, found, Option.bind_some, Channel.serving?, link]
        cases c.state <;> rfl
      · rfl
    all_goals simp only [Turn.shut, link]; rfl
  | some l =>
    obtain ⟨state, served⟩ := exists_serving found live link
    have known := h.known served
    have links : (t.shut key c cause).shared.links = t.shared.links.reset l := by
      simp only [Turn.shut, link]
      rfl
    have outbound : (t.shut key c cause).reactor.outbound
        = t.reactor.outbound.erase l.endpoint := by
      simp only [Turn.shut, link, abandonLink]
      exact if_pos (h.entry key l state served)
    refine ⟨h.change fit known none links rfl (serving?_shut found cause)
      (h.serves_alone served) ?_ ?_ fun l' _ asked => asked,
      links ▸ .modify (h.leads l known).index _ fun _ => rfl⟩
    · intro s impossible
      cases impossible
    · intro k l' state' here apart
      have entry := h.entry k l' state' here
      rw [outbound, Assoc.get?_erase, if_neg, entry]
      intro same
      rw [same] at entry
      exact apart ((h.serves_alone served k l' state' here).mp
        (Option.some.inj (entry.symm.trans (h.entry key l state served))))

/-- An act of a handler that opens nothing. -/
theorem Act.coheres (closed : ¬ may.opens) (act : Act may key t t') (h : t.Coherent i K asked) :
    t.Coheres i none K asked t' := by
  have fit := act.fit h.fit
  have exact := act.freeExact h.fit.exact
  cases act with
  | host | dispatch | mark | count | complete | flag => exact .of_reactor h rfl rfl rfl
  | hand index task =>
    exact .of_reactor h rfl rfl
      (t.shared.links_submit t.reactor.thread index task)
  | submit | submitPlain | cancel | cancelPlain => exact .of_reactor h rfl rfl rfl
  | markOpen _ opens => exact absurd opens closed
  | tune f tuned => exact .of_serving h fit (serving?_tune closed tuned) rfl rfl
  | shut c cause found live => exact h.shut found live cause exact
  | release =>
    refine .of_serving h fit (serving?_release t key) ?_ ?_
    · rw [releaseIfDone_eq]
    · rw [releaseIfDone_eq]

theorem Acts.coheres (closed : ¬ may.opens) (acts : Acts may key t t') (h : t.Coherent i K asked) :
    t.Coheres i none K asked t' := by
  induction acts with
  | refl => exact .refl h
  | tail _ act ih => exact ih.trans (act.coheres closed ih.coherent)

/-! ## Opening -/

theorem serving?_putChannel {c : Channel} (found : t.channel? key = some c) (c' : Channel)
    (k : SlotKey) : (t.putChannel key c').serving? k
      = if k = key then c'.serving? else t.serving? k := by
  simp only [serving?, putChannel, channel?_modifyChannel, found]
  split
  · rfl
  · rfl

/-- A channel that was connecting and is open now, with its link. -/
theorem Coherent.putOpen (h : t.Coherent i K asked) {c : Channel} (found : t.channel? key = some c)
    (connecting : c.state = .connecting) (link : c.link = some l) :
    t.Coheres i none K asked ((t.putChannel key { c with state := .open }).modifyLinks
      fun links => links.markOpen l) := by
  have tuned : c.Tuned Scope.all { c with state := .open } :=
    ⟨rfl, .inr ⟨trivial, connecting, rfl⟩, .inl rfl, .inl ⟨rfl, rfl, rfl⟩, .inl ⟨rfl, rfl⟩⟩
  have acts : Acts .all key t ((t.putChannel key { c with state := .open }).modifyLinks
      fun links => links.markOpen l) :=
    .tail (.of_act (act_put found tuned)) (.markOpen _ l trivial)
  have served : t.serving? key = some (l, .connecting) := by
    simp [serving?, found, Channel.serving?_eq_some, link, connecting]
  have known := h.known served
  refine ⟨h.change (acts.fit h.fit) known (some .open) rfl rfl ?_ (h.serves_alone served) ?_ ?_
    fun l' _ asked => asked, .modify (h.leads l known).index _ fun _ => rfl⟩
  · intro k
    refine (serving?_putChannel found { c with state := .open } k).trans ?_
    simp [Channel.serving?, link]
  · exact fun _ _ => h.entry key l _ served
  · exact fun k l' state here _ => h.entry k l' state here

theorem Coherent.openChannel (h : t.Coherent i K asked) {c : Channel}
    (found : t.channel? key = some c) (connecting : c.state = .connecting) :
    t.Coheres i none K asked (t.openChannel key c) := by
  have started (t : Turn σ) : Acts .own key t ((t.postRecv key).andThen (·.flush key)) :=
    (acts_postRecv t key trivial).andThen (acts_flush _ key trivial)
  cases link : c.link with
  | none =>
    have same : t.openChannel key c
        = ((t.putChannel key { c with state := .open }).postRecv key).andThen (·.flush key) := by
      simp only [Turn.openChannel, link]
    have put : t.Coheres i none K asked (t.putChannel key { c with state := .open }) := by
      have tuned : c.Tuned Scope.all { c with state := .open } :=
        ⟨rfl, .inr ⟨trivial, connecting, rfl⟩, .inl rfl, .inl ⟨rfl, rfl, rfl⟩, .inl ⟨rfl, rfl⟩⟩
      have act : Act .all key t (t.putChannel key { c with state := .open }) := act_put found tuned
      refine .of_serving h (act.fit h.fit) ?_ rfl rfl
      intro k
      rw [serving?_putChannel found]
      split
      · rename_i same
        subst same
        simp [serving?, found, Channel.serving?, link, connecting]
      · rfl
    rw [same]
    exact put.trans ((started _).coheres (fun opens => opens) put.coherent)
  | some l =>
    have same : t.openChannel key c = ((((t.putChannel key { c with state := .open }).modifyLinks
        fun links => links.markOpen l).postRecv key).andThen (·.flush key)) := by
      simp only [Turn.openChannel, link]
    have put := h.putOpen found connecting link
    rw [same]
    exact put.trans ((started _).coheres (fun opens => opens) put.coherent)

/-! ## New channels -/

theorem serving?_addChannel (exact : t.reactor.channels.FreeExact)
    (room : t.reactor.channels.slots.length < Slab.maxSlots) (c : Channel) (k : SlotKey) :
    (t.addChannel c).2.serving? k
      = if k = (t.addChannel c).1 then c.serving? else t.serving? k := by
  rw [serving?, channel?_addChannel exact room]
  split
  · rfl
  · rfl

/-- A key that is new served nothing. -/
theorem serving?_key (exact : t.reactor.channels.FreeExact)
    (room : t.reactor.channels.slots.length < Slab.maxSlots) (c : Channel) :
    t.serving? (t.addChannel c).1 = none := by
  have vacant : t.channel? (t.addChannel c).1 = none := Slab.get?_alloc_key exact room c
  rw [serving?, vacant]
  rfl

theorem Coherent.adopt (h : t.Coherent i K asked)
    (room : t.reactor.channels.slots.length < Slab.maxSlots) (socket : Nat)
    (remote : Option Endpoint) : t.Coheres i none K asked (t.adopt socket remote) := by
  cases remote with
  | none => exact .of_reactor h rfl rfl rfl
  | some remote =>
    let c := Channel.accepted (some socket) remote t.config.maxMessageSize
    have fit := (h.fit.add room (c := c) fun l link => by cases link).fit
    have added : t.Coheres i none K asked (t.addChannel c).2 := by
      refine .of_serving h fit ?_ rfl rfl
      intro k
      rw [serving?_addChannel h.fit.exact room]
      split
      · rename_i same
        rw [same, serving?_key h.fit.exact room]
        rfl
      · rfl
    have acts : Acts .own (t.addChannel c).1 (t.addChannel c).2 (t.adopt socket (some remote)) :=
      acts_adopt t socket remote trivial
    exact added.trans (acts.coheres (fun opens => opens) added.coherent)

/-- Whether no channel can be used for the endpoint of a link. -/
def lacks (t : Turn σ) (l : Link) : Bool :=
  ((t.reactor.outbound.get? l.endpoint).bind t.channel?).all fun c =>
    !(c.state = .connecting || c.state = .open)

theorem lacks_of_usable {c : Channel} (entry : t.reactor.outbound.get? l.endpoint = some key)
    (found : t.channel? key = some c) (usable : isUsable c) : t.lacks l = false := by
  simp only [lacks, entry, found, Option.bind_some, Option.all_some]
  rcases usable with connecting | isOpen
  · simp [connecting]
  · simp [isOpen]

theorem usable_of_lacks (lacks : t.lacks l = false) : ∃ key c,
    t.reactor.outbound.get? l.endpoint = some key ∧ t.channel? key = some c ∧ isUsable c := by
  cases there : (t.reactor.outbound.get? l.endpoint).bind t.channel? with
  | none =>
    rw [Turn.lacks, there] at lacks
    cases lacks
  | some c =>
    obtain ⟨key, entry, found⟩ := Option.bind_eq_some_iff.mp there
    simp only [Turn.lacks, there, Option.all_some, Bool.not_eq_false', Bool.or_eq_true,
      decide_eq_true_eq] at lacks
    exact ⟨key, c, entry, found, lacks⟩

/-- A channel is made where none can be used. -/
theorem outboundChannel_eq (t : Turn σ) (l : Link) :
    (t.outboundChannel l).2
      = if t.lacks l then (t.makeChannel l).2.startConnect (t.makeChannel l).1 else t := by
  cases lacks : t.lacks l with
  | true =>
    rcases outboundChannel_cases t l with ⟨key, c, entry, found, usable, -⟩ | ⟨made, -⟩
    · cases lacks.symm.trans (lacks_of_usable entry found usable)
    · exact made
  | false =>
    obtain ⟨key, c, entry, found, usable⟩ := usable_of_lacks lacks
    simp only [outboundChannel]
    split
    · rfl
    · rename_i none
      refine absurd ?_ (Option.filter_eq_none_iff.mp none key entry)
      simpa [found, isUsable] using usable

theorem not_serves_of_lacks (h : t.Coherent i K asked) (lacks : t.lacks l = true) (key : SlotKey) :
    ¬ t.Serves key l := by
  intro serves
  obtain ⟨state, here⟩ := serves_iff.mp serves
  obtain ⟨c, found, usable, -⟩ := serves
  cases lacks.symm.trans (lacks_of_usable (h.entry key l state here) found usable)

/-- A channel that is made serves its link, which connects then. -/
theorem Coherent.makeChannel (h : t.Coherent i K asked)
    (room : t.reactor.channels.slots.length < Slab.maxSlots)
    (alike : ∀ l l', K l → K l' → l.endpoint = l'.endpoint → l = l') (known : K l)
    (lacks : t.lacks l = true) :
    t.Coheres i (some l) K (fun l' => l' ≠ l ∧ asked l') (t.makeChannel l).2 := by
  have unserved := not_serves_of_lacks h lacks
  have leads := h.leads l known
  have state := h.rest l leads unserved
  refine ⟨h.change (h.fit.makeChannel room known).1.fit known (some .connecting) rfl ?_
    (serving?_addChannel h.fit.exact room (.outbound l t.config.maxMessageSize)) ?_ ?_ ?_
    fun l' other asked => ⟨other, asked⟩, .connectStarted leads (h.has l known)⟩
  · rcases state with idle | ⟨connecting, -⟩
    · exact if_pos idle
    · exact (if_neg (by rw [Links.state] at connecting; rw [connecting]; decide)).trans connecting
  · intro k l' s here
    refine iff_of_false ?_ ?_
    · rintro rfl
      cases (serving?_key h.fit.exact room _).symm.trans here
    · rintro rfl
      exact unserved k (serves_iff.mpr ⟨s, here⟩)
  · exact fun _ _ => (Assoc.get?_insert _ _ _ _).trans (if_pos rfl)
  · intro k l' s here other
    refine (Assoc.get?_insert _ _ _ _).trans ?_
    rw [if_neg fun same => other (alike l' l (h.known here) known same)]
    exact h.entry k l' s here

/-- When the reactor sees to a link it is served, or it was not possible to connect. -/
theorem Coherent.outboundChannel (h : t.Coherent i K asked)
    (room : t.reactor.channels.slots.length < Slab.maxSlots)
    (alike : ∀ l l', K l → K l' → l.endpoint = l'.endpoint → l = l') (known : K l) :
    t.Coheres i (if t.lacks l then some l else none) K (fun l' => l' ≠ l ∧ asked l')
      (t.outboundChannel l).2 := by
  rw [outboundChannel_eq]
  cases lacks : t.lacks l with
  | true =>
    have made := h.makeChannel room alike known lacks
    have acts : Acts .own _ _ _ := acts_startConnect (t.makeChannel l).2 (t.makeChannel l).1 trivial
    exact made.trans (acts.coheres (fun opens => opens) made.coherent)
  | false =>
    refine ⟨{ h with rest := ?_ }, .refl _⟩
    intro l' leads' none
    refine (h.rest l' leads' none).imp_right (.imp_right fun asked => ⟨?_, asked⟩)
    rintro rfl
    obtain ⟨key, c, entry, -⟩ := usable_of_lacks lacks
    obtain ⟨l, serves, endpoint⟩ := h.fit.entry l'.endpoint key entry
    obtain ⟨state, here⟩ := serves_iff.mp serves
    cases alike l l' (h.known here) known endpoint
    exact none key serves

/-! ## Completions and tasks -/

/-- A completion makes no channel for a link. -/
theorem Coherent.onCompletion (h : t.Coherent i K asked)
    (room : t.reactor.channels.slots.length < Slab.maxSlots) (c : IoCompletion Token) :
    t.Coheres i none K asked (t.onCompletion c) := by
  have flagged : t.Coheres i none K asked t.afresh := .of_reactor h rfl rfl rfl
  cases kind : c.token.purpose? with
  | none =>
    simp only [Turn.onCompletion, kind]
    exact flagged
  | some p =>
    by_cases plain : p = .accept ∨ p = .connect
    · rcases plain with rfl | rfl
      · have marked : t.Coheres i none K asked t.afresh.unarmed := .of_reactor h rfl rfl rfl
        rw [onCompletion_of_accept t kind]
        obtain acts | acts := onAccept_cases .own t.afresh c.result c.remote trivial
        · exact flagged.trans ((acts ⟨0, 0⟩).coheres (fun opens => opens) flagged.coherent)
        · have adopted := marked.trans (marked.coherent.adopt room c.result.toNat c.remote)
          exact adopted.trans ((acts ⟨0, 0⟩).coheres (fun opens => opens) adopted.coherent)
      · simp only [Turn.onCompletion, kind]
        have connected : t.Coheres i none K asked
            (t.afresh.onConnect c.token.key c.token.attempt c.result) := by
          refine flagged.trans ?_
          obtain acts | ⟨s, c', acts, found, connecting, same⟩ :=
            (onConnect_cases t.afresh c.token.key c.token.attempt c.result trivial :
              Acts .own _ _ _ ∨ _)
          · exact acts.coheres (fun opens => opens) flagged.coherent
          · have before := acts.coheres (fun opens => opens) flagged.coherent
            rw [same]
            exact before.trans (before.coherent.openChannel found connecting)
        have released (t : Turn σ) : Acts .own c.token.key t _ := acts_release t c.token.key
        exact connected.trans ((released _).coheres (fun opens => opens) connected.coherent)
    · rw [not_or] at plain
      have acts : Acts .unopening c.token.key t (t.onCompletion c) := by
        refine acts_onCompletion t c ?_ ?_ (fun _ => Scope.serving_unopening _ _) trivial trivial
          (fun _ => trivial) trivial trivial
        · rw [kind]
          exact fun accept => plain.1 (Option.some.inj accept)
        · rw [kind]
          exact fun connect => absurd (Option.some.inj connect) plain.2
      exact acts.coheres (fun opens => opens) h

theorem stopping_beginStop (t : Turn σ) : t.beginStop.reactor.stopping = true := by
  cases going : t.reactor.stopping with
  | true =>
    rw [beginStop_of_stopping going]
    exact going
  | false =>
    have closed (keys : List SlotKey) (s : Turn σ) :
        s.Evolves (keys.foldl (fun t key => t.close key .shuttingDown) s) := by
      induction keys generalizing s with
      | nil => exact .refl s
      | cons key rest ih =>
        have acts : Acts .own key s _ := acts_close s key .shuttingDown
        exact acts.evolves.trans (ih _)
    have acts : Acts .own ⟨0, 0⟩ _ _ := acts_beginStop going ⟨0, 0⟩ trivial
    exact ((closed _ _).trans acts.evolves).stopping rfl

/-- The link that a channel is made for when a task is run. -/
def makes (t : Turn σ) : Task → Option Link
  | .connect l | .write l .. => if !t.reactor.stopping && t.lacks l then some l else none
  | _ => none

/-- A reactor that runs a task, and does not wind down by it.  The link of the task is
not asked for any longer. -/
theorem Coherent.onTask {task : Task} {later : Link → Prop}
    (h : t.Coherent i K fun l => .connect l = task ∨ later l)
    (room : t.reactor.channels.slots.length < Slab.maxSlots)
    (alike : ∀ l l', K l → K l' → l.endpoint = l'.endpoint → l = l')
    (known : ∀ l, task.link? = some l → K l) (going : t.reactor.stopping = false)
    (still : (t.onTask task).reactor.stopping = false) :
    t.Coheres i (t.makes task) K later (t.onTask task) := by
  have otherwise (plain : ∀ l, task ≠ .connect l) : t.Coherent i K later := h.mono fun l asked =>
    asked.resolve_left fun same => plain l same.symm
  have linked (l : Link) (about : task.link? = some l)
      (makes : t.makes task = if !t.reactor.stopping && t.lacks l then some l else none) :
      t.Coheres i (t.makes task) K (fun l' => l' ≠ l ∧ (.connect l' = task ∨ later l'))
        (t.outboundChannel l).2 := by
    rw [makes, going]
    exact h.outboundChannel room alike (known l about)
  have asksNothing (l : Link) (bytes : Bytes) (correlationId : Option UInt64)
      (same : task = .write l bytes correlationId) :
      t.Coheres i (t.makes task) K later (t.outboundChannel l).2 := by
    obtain ⟨coherent, changes⟩ := linked l (same ▸ rfl) (same ▸ rfl)
    refine ⟨coherent.mono ?_, changes⟩
    rintro l' ⟨-, connect | asked⟩
    · cases connect.trans same
    · exact asked
  have step := t.taskStep_onTask task
  generalize t.onTask task = t' at step still ⊢
  cases step with
  | rejected stopping => cases going.symm.trans stopping
  | executed r correlationId =>
    have acts : Acts .own ⟨0, 0⟩ t _ := acts_runLocal t ⟨0, 0⟩ r correlationId trivial trivial
    exact acts.coheres (fun opens => opens) (otherwise fun _ same => by cases same)
  | connected l =>
    obtain ⟨coherent, changes⟩ := linked l rfl rfl
    refine ⟨coherent.mono ?_, changes⟩
    rintro l' ⟨other, same | asked⟩
    · exact absurd (Task.connect.inj same) other
    · exact asked
  | written l bytes correlationId key =>
    have made := asksNothing l bytes correlationId rfl
    have acts : Acts .own key (t.outboundChannel l).2 _ := acts_write _ key bytes trivial
    exact made.trans (acts.coheres (fun opens => opens) made.coherent)
  | unwritten l bytes correlationId => exact asksNothing l bytes correlationId rfl
  | forwarded f replyTo =>
    have acts : Acts .unopening replyTo.key t _ :=
      acts_runForwarded t f replyTo (Scope.serving_unopening _ _) trivial
    exact acts.coheres (fun opens => opens) (otherwise fun _ same => by cases same)
  | replied channel bytes =>
    have acts : Acts .own channel.key t _ := acts_write t channel.key bytes trivial
    exact acts.coheres (fun opens => opens) (otherwise fun _ same => by cases same)
  | stopped => cases (stopping_beginStop t).symm.trans still

end Turn

end PartitionEngine
