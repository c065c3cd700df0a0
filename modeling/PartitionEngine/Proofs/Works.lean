import PartitionEngine.Proofs.Acts

/-!
# What reactors do

Besides what its handlers do for one channel, a reactor makes channels, for links and
for connections that come in, and it begins to wind down.  `Works may` is the relation
of all sequences of that.  A completion and a task are each such a sequence
(`works_onCompletion`, `works_onTask`), so what every single work keeps is kept by all
that a reactor does.
-/

namespace PartitionEngine

/-- The partition of the request that a task is to run. -/
def Task.partition? : Task → Option Partition
  | .execute r _ => some r.partition
  | .forward f _ => some f.partition
  | _ => none

namespace Turn

variable {σ : Type} {may : Scope}

/-- One thing a reactor does. -/
inductive Work (may : Scope) : Turn σ → Turn σ → Prop where
  | act {t t' : Turn σ} (key : SlotKey) (act : Act may key t t') : Work may t t'
  | accept (t : Turn σ) (socket : Nat) (remote : Endpoint) :
      Work may t (t.addChannel (.accepted (some socket) remote t.config.maxMessageSize)).2
  | make (t : Turn σ) (l : Link) : Work may t (t.makeChannel l).2
  | windDown (t : Turn σ) : Work may t { t with reactor := { t.reactor with stopping := true } }

/-- What a reactor does. -/
def Works (may : Scope) : Turn σ → Turn σ → Prop := Relation.ReflTransGen (Work may)

namespace Works

variable {t t' t'' : Turn σ} {key : SlotKey}

theorem refl (t : Turn σ) : Works may t t := Relation.ReflTransGen.refl

theorem of_work (h : Work may t t') : Works may t t' := Relation.ReflTransGen.single h

theorem trans (h : Works may t t') (h' : Works may t' t'') : Works may t t'' :=
  Relation.ReflTransGen.trans h h'

theorem of_acts (acts : Acts may key t t') : Works may t t' := by
  induction acts with
  | refl => exact .refl t
  | tail _ act ih => exact ih.tail (.act key act)

theorem andThen {rest : Turn σ → Turn σ} (h : Works may t t') (next : Works may t' (rest t')) :
    Works may t (t'.andThen rest) :=
  andThen_cases t' h (h.trans next)

/-- What concerns no channel can be done for any. -/
theorem of_forall (acts : ∀ key, Acts may key t t') : Works may t t' := .of_acts (acts default)

/-- A reactor keeps the settings. -/
theorem config (works : Works may t t') : t'.config = t.config := by
  induction works with
  | refl => rfl
  | tail _ work ih =>
    cases work with
    | act key act => exact act.config.trans ih
    | accept | make | windDown => exact ih

end Works

/-! ## Completions -/

theorem works_adopt (t : Turn σ) (socket : Nat) (remote : Option Endpoint)
    (reads : may.reads) : Works may t (t.adopt socket remote) := by
  cases remote with
  | none => exact .of_forall fun _ => .of_act (.host t _)
  | some remote =>
    have added : Works may t _ := .of_work (.accept t socket remote)
    exact added.trans (.of_acts (acts_adopt t socket remote reads))

theorem works_onAccept (t : Turn σ) (result : Int) (remote : Option Endpoint)
    (reads : may.reads) (arms : may.arms) :
    Works may t (t.onAccept result remote) := by
  have marked : Works may t t.unarmed := .of_forall fun key => acts_unarmed t key arms
  obtain acts | acts := onAccept_cases may t result remote arms
  · exact .of_forall acts
  · exact (marked.trans (works_adopt _ _ _ reads)).trans (.of_forall acts)

theorem works_onCompletion (t : Turn σ) (c : IoCompletion Token)
    (serving : may.Serving t.shared.reactors.length t.reactor.index)
    (opens : may.opens) (reads : may.reads)
    (arms : (∀ p, c.token.purpose? = some p → p.isChannel = false) → may.arms)
    (settles : may.settles) (connects : may.connects) :
    Works may t (t.onCompletion c) := by
  by_cases accepts : c.token.purpose? = some .accept
  · have arms : may.arms := arms fun p kind => Option.some.inj (accepts.symm.trans kind) ▸ rfl
    have flagged : Works may t t.afresh := .of_forall fun _ => .of_act (.flag t false)
    rw [onCompletion_of_accept t accepts]
    exact flagged.trans (works_onAccept _ _ _ reads arms)
  · exact .of_acts (acts_onCompletion t c accepts (fun _ => opens) (fun _ => serving)
      serving.sends reads arms settles connects)

/-! ## Tasks -/

theorem works_closeAll (keys : List SlotKey) (cause : Failure) (t : Turn σ) :
    Works may t (keys.foldl (fun t key => t.close key cause) t) := by
  induction keys generalizing t with
  | nil => exact .refl t
  | cons key rest ih => exact (Works.of_acts (acts_close t key cause)).trans (ih _)

theorem works_beginStop (t : Turn σ) (arms : may.arms) :
    Works may t t.beginStop := by
  cases going : t.reactor.stopping with
  | true =>
    rw [beginStop_of_stopping going]
    exact .refl t
  | false =>
    have wound : Works may t { t with reactor := { t.reactor with stopping := true } } :=
      .of_work (.windDown t)
    have closed := wound.trans (works_closeAll t.reactor.channels.keys .shuttingDown _)
    exact closed.trans (.of_forall fun key => acts_beginStop going key arms)

theorem works_outboundChannel (t : Turn σ) (l : Link) (connects : may.connects) :
    Works may t (t.outboundChannel l).2 := by
  obtain ⟨key, c, -, -, -, same⟩ | ⟨made, -⟩ := outboundChannel_cases t l
  · rw [same]
    exact .refl t
  · rw [made]
    exact (Works.of_work (.make t l)).trans (.of_acts (acts_startConnect _ _ connects))

theorem works_onTask (t : Turn σ) (task : Task)
    (serving : may.Serving t.shared.reactors.length t.reactor.index)
    (runs : ∀ p, task.partition? = some p → may.runs p)
    (arms : task = .stop → may.arms)
    (settles : may.settles) (connects : may.connects) :
    Works may t (t.onTask task) := by
  have sends := serving.sends
  have step := t.taskStep_onTask task
  generalize t.onTask task = t' at step ⊢
  cases step with
  | rejected => exact .of_forall fun key => acts_reject t key task settles
  | executed r correlationId =>
    exact .of_forall fun key => acts_runLocal t key r correlationId (runs _ rfl) settles
  | connected l | unwritten l => exact works_outboundChannel t l connects
  | written l bytes correlationId key =>
    exact (works_outboundChannel t l connects).trans (.of_acts (acts_write _ key bytes sends))
  | forwarded f replyTo => exact .of_acts (acts_runForwarded t f replyTo serving (runs _ rfl))
  | replied channel bytes => exact .of_acts (acts_write t channel.key bytes sends)
  | stopped => exact works_beginStop t (arms rfl)

/-- A reactor that may do everything may handle any completion and any task. -/
theorem works_all_onCompletion (t : Turn σ) (c : IoCompletion Token) :
    Works .all t (t.onCompletion c) :=
  works_onCompletion t c (Scope.serving_all _ _) trivial trivial (fun _ => trivial) trivial trivial

theorem works_all_onTask (t : Turn σ) (task : Task) : Works .all t (t.onTask task) :=
  works_onTask t task (Scope.serving_all _ _) (fun _ _ => trivial)
    (fun _ => trivial) trivial trivial

end Turn

end PartitionEngine
