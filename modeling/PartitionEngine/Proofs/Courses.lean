import PartitionEngine.Proofs.Connects
import PartitionEngine.Proofs.Histories
import PartitionEngine.Proofs.Runs

/-!
# Courses of a reactor

A course is a run of a reactor with what it did, as `Deed`s, the last first.  What the
attempts of a channel are is read off the deeds: one is made with the channel, and one by
each pause that is over (`Deed.attempts`).

A channel that connects makes the last attempt that the deeds tell of, and what is on its
way for it was asked for at that attempt (`Underway`).  That is so all along a course
(`Course.told`).
-/

namespace PartitionEngine

/-- An operation of a channel is told by its purpose and its attempt. -/
theorem Token.eq_ofChannel {token : Token} {p : Purpose} {key : SlotKey}
    (own : token.isOf p key = true) : token = .ofChannel p key token.attempt := by
  simp only [isOf, Bool.and_eq_true, decide_eq_true_eq] at own
  obtain ⟨kind, rfl⟩ := own
  exact congrArg (fun kind => { token with kind }) kind

/-! ## Deeds -/

namespace Deed

variable {σ : Type} {key : SlotKey} {d : Deed σ} {ds : List (Deed σ)}

/-- What was asked of the driver. -/
def asked (d : Deed σ) : List DriverEvent := d.before.asked d.after

/-- Whether a channel was made. -/
def opens (key : SlotKey) : Deed σ → Bool
  | ran _ t task => t.made? task = some key
  | _ => false

/-- Whether the pause of a channel that connects was over. -/
def resumes (key : SlotKey) : Deed σ → Bool
  | handled _ t done => t.resumes key done
  | _ => false

/-- Whether an attempt was made. -/
def begins (key : SlotKey) (d : Deed σ) : Bool := d.opens key || d.resumes key

/-- Whether the connect of a channel that connects came back with an error. -/
def reports (key : SlotKey) : Deed σ → Bool
  | handled _ t done => done.token.isOf .connect key && done.result ≠ 0 && t.connecting key
  | _ => false

/-- An attempt has failed.  Its connect came back with an error, or none was accepted. -/
def Fails (key : SlotKey) (d : Deed σ) : Prop :=
  d.reports key = true ∨ d.begins key = true ∧ Turn.Unmade key d.before d.after

/-- Whether an operation came back. -/
def ends (token : Token) : Deed σ → Bool
  | handled _ _ done => done.token = token
  | _ => false

/-- The attempts that were made for the channel under a key. -/
def attempts (key : SlotKey) : List (Deed σ) → Nat
  | [] => 0
  | d :: ds => if d.opens key then 1 else if d.resumes key then attempts key ds + 1
    else attempts key ds

/-- The attempts of each channel under a key can be told apart. -/
def Few (key : SlotKey) (ds : List (Deed σ)) : Prop :=
  ∀ ds', ds' <:+ ds → attempts key ds' < 255

theorem Few.tail (h : Few key (d :: ds)) : Few key ds :=
  fun _ sub => h _ (sub.trans (List.suffix_cons d ds))

theorem Few.lt (h : Few key ds) : attempts key ds < 255 := h ds (List.suffix_refl ds)

theorem attempts_of_not_begins (still : d.begins key = false) :
    attempts key (d :: ds) = attempts key ds := by
  simp only [begins, Bool.or_eq_false_iff] at still
  simp [attempts, still.1, still.2]

/-- Something was done, and nothing of a kind after that. -/
inductive Since (p : Deed σ → List (Deed σ) → Prop) (q : Deed σ → Prop) : List (Deed σ) → Prop
  | now {d : Deed σ} {ds : List (Deed σ)} (done : p d ds) : Since p q (d :: ds)
  | later {d : Deed σ} {ds : List (Deed σ)} (since : Since p q ds) (other : ¬ q d) :
      Since p q (d :: ds)

/-- The attempt `n` has failed, and the pause after it was accepted.  Since then no attempt
was made, and the pause has not come back. -/
def Waited (config : Config) (key : SlotKey) (n : Nat) (ds : List (Deed σ)) : Prop :=
  Since (fun d before => attempts key (d :: before) = n ∧ d.Fails key
      ∧ .submitted (Turn.pause config key n) none ∈ d.asked)
    (fun d => d.begins key = true ∨ d.ends (Turn.pause config key n).token = true) ds

/-- The attempt `n` was made, and its connect and its limit were accepted.  Since then no
attempt was made, and the limit has not come back. -/
def Armed (config : Config) (key : SlotKey) (n : Nat) (ds : List (Deed σ)) : Prop :=
  Since (fun d before => attempts key (d :: before) = n ∧ d.begins key = true
      ∧ (∃ op, .submitted ⟨.ofChannel .connect key (UInt8.ofNat n), op⟩ none ∈ d.asked)
      ∧ .submitted (Turn.limit config key n) none ∈ d.asked)
    (fun d => d.begins key = true ∨ d.ends (Turn.limit config key n).token = true) ds

end Deed

/-! ## What the deeds tell of a channel -/

section

open Deed

variable {σ : Type} {config : Config} {key : SlotKey} {d : Deed σ} {ds : List (Deed σ)}
  {batch batch' : List (IoCompletion Token)} {t t' : Turn σ} {c c' : Channel} {l : Link}
  {n : UInt32}

/-- A channel makes the last attempt that the deeds tell of.  A pause on its way is the one
after that attempt, and so is the limit of its number. -/
structure Underway (config : Config) (key : SlotKey) (ds : List (Deed σ))
    (batch : List (IoCompletion Token)) (t : Turn σ) (c : Channel) : Prop where
  tries : t.Tries (Few key ds) batch key c
  number : c.attempt.toNat = attempts key ds
  waited : ∀ token ∈ t.reactor.driver.those batch .retryTimer key,
    attempts key ds ≤ config.connectRetries.toNat ∧ Waited config key (attempts key ds) ds
  armed : Few key ds → (Turn.limit config key (attempts key ds)).token
      ∈ t.reactor.driver.those batch .connectTimeout key →
    Armed config key (attempts key ds) ds

/-- The pause on its way has the number of the last attempt. -/
theorem Underway.eq_pause (h : Underway config key ds batch t c) {token : Token}
    (mem : token ∈ t.reactor.driver.those batch .retryTimer key) :
    token = (Turn.pause config key (attempts key ds)).token := by
  rw [Token.eq_ofChannel (CompletionQueue.isOf_of_mem_those mem), h.tries.tagged token (.inr mem),
    ← h.number]
  rfl

/-- Nothing was done about the channel. -/
theorem Underway.same (h : Underway config key ds batch t c)
    (found : t'.channel? key = t.channel? key)
    (same : CompletionQueue.SameWay key batch t.reactor.driver batch' t'.reactor.driver) :
    Underway config key ds batch' t' c where
  tries := h.tries.same (found.trans h.tries.found) rfl rfl rfl rfl rfl rfl same
  number := h.number
  waited token mem := h.waited token ((same .retryTimer rfl nofun).mem_iff.mp mem)
  armed few mem := h.armed few ((same .connectTimeout rfl nofun).mem_iff.mp mem)

/-- The channel goes on with its attempt. -/
theorem Underway.goesOn (h : Underway config key ds batch t c)
    (on : Turn.GoesOn (Few key (d :: ds)) batch' key c t t') (still : d.begins key = false)
    (sub : ∀ p, ∀ token ∈ t.reactor.driver.those batch' p key,
      token ∈ t.reactor.driver.those batch p key)
    (apart : ∀ token ∈ t.reactor.driver.those batch' .retryTimer key, d.ends token = false)
    (apart' : Few key ds → ∀ token ∈ t.reactor.driver.those batch' .connectTimeout key,
      d.ends token = false) : ∃ c', Underway config key (d :: ds) batch' t' c' := by
  obtain ⟨⟨c', tries, attempt, -⟩, pauses, limits⟩ := on
  have same : attempts key (d :: ds) = attempts key ds := attempts_of_not_begins still
  refine ⟨c', tries, ?_, ?_, ?_⟩
  · rw [attempt, h.number, same]
  · intro token mem
    have before := sub _ token (pauses token mem)
    obtain ⟨left, waited⟩ := h.waited token before
    have other := apart token (pauses token mem)
    rw [h.eq_pause before] at other
    rw [same]
    exact ⟨left, .later waited (by simp [still, other])⟩
  · intro few mem
    rw [same] at mem ⊢
    have other := apart' few.tail _ (limits _ mem)
    exact .later (h.armed few.tail (sub _ _ (limits _ mem))) (by simp [still, other])

/-- The last attempt has failed. -/
theorem underway_of_failed (failed : Turn.Failed (Few key (d :: ds)) batch key n l t t')
    (number : n.toNat = attempts key (d :: ds)) (config' : t.config = config) (fails : d.Fails key)
    (asked : d.asked = t.asked t')
    (limits : Few key (d :: ds) → (Turn.limit config key (attempts key (d :: ds))).token
        ∈ t.reactor.driver.those batch .connectTimeout key →
      Armed config key (attempts key (d :: ds)) (d :: ds)) :
    t'.Calm (Few key (d :: ds)) batch key ∨ ∃ c, Underway config key (d :: ds) batch t' c := by
  cases failed with
  | paused c tries attempt link left paused limits' =>
    rw [config', number, ← asked] at paused
    rw [config', UInt32.le_iff_toNat_le, number] at left
    refine .inr ⟨c, tries, attempt ▸ number, fun _ _ => ⟨left, .now ⟨rfl, fails, paused⟩⟩, ?_⟩
    exact fun few mem => limits few (limits' _ mem)
  | gaveUp reason calm spent up => exact .inl calm

/-- An attempt was made. -/
theorem underway_of_begun (begun : Turn.Begun (Few key (d :: ds)) batch key n l t t')
    (number : n.toNat = attempts key (d :: ds)) (config' : t.config = config)
    (begins : d.begins key = true) (before : d.before = t) (after : d.after = t')
    (older : Few key (d :: ds) → (Turn.limit config key (attempts key (d :: ds))).token
      ∉ t.reactor.driver.those batch .connectTimeout key) :
    t'.Calm (Few key (d :: ds)) batch key ∨ ∃ c, Underway config key (d :: ds) batch t' c := by
  have asked : d.asked = t.asked t' := by rw [Deed.asked, before, after]
  cases begun with
  | pending c tries attempt link made pauses limits =>
    obtain ⟨socket, made⟩ := made
    rw [number, ← asked] at made
    rw [config', number, ← asked] at limits
    refine .inr ⟨c, tries, attempt ▸ number, ?_, ?_⟩
    · rw [pauses]
      exact nofun
    · intro few mem
      obtain old | ⟨-, limited⟩ := limits _ mem
      · exact absurd old (older few)
      · exact .now ⟨rfl, begins, ⟨_, made⟩, limited⟩
  | failed failed unmade =>
    refine underway_of_failed failed number config' (.inr ⟨begins, ?_⟩) asked
      fun few mem => absurd mem (older few)
    rw [before, after]
    exact unmade

/-- No attempt is made for the key, or the last one that the deeds tell of is. -/
def Stands (config : Config) (key : SlotKey) (ds : List (Deed σ))
    (batch : List (IoCompletion Token)) (t : Turn σ) : Prop :=
  t.Calm (Few key ds) batch key ∨ ∃ c, Underway config key ds batch t c

theorem Stands.underway (h : Stands config key ds batch t) (connects : t.connecting key = true) :
    ∃ c, Underway config key ds batch t c := by
  obtain ⟨c, found, connecting⟩ := Option.any_eq_true _ _ |>.mp connects
  obtain calm | under := h
  · exact absurd (of_decide_eq_true connecting) (calm.still c found)
  · exact under

/-- A pause that is over is the one after the last attempt, and no other is on its way. -/
theorem Stands.waited {done : IoCompletion Token} (h : Stands config key ds (done :: batch) t)
    (resumes : t.resumes key done = true) :
    attempts key ds ≤ config.connectRetries.toNat ∧ Waited config key (attempts key ds) ds
      ∧ done.token = (Turn.pause config key (attempts key ds)).token ∧ done.result = 0
      ∧ t.reactor.driver.outstanding (done :: batch) .retryTimer key = 1 := by
  simp only [Turn.resumes, Bool.and_eq_true, decide_eq_true_eq] at resumes
  obtain ⟨⟨own, zero⟩, connects⟩ := resumes
  obtain ⟨c, under⟩ := h.underway connects
  have those := CompletionQueue.those_handled (q := t.reactor.driver) (b := batch) own
    .retryTimer
  rw [if_pos rfl] at those
  have mem : done.token ∈ t.reactor.driver.those (done :: batch) .retryTimer key := by
    rw [those]
    exact List.mem_cons_self
  obtain ⟨left, waited⟩ := under.waited _ mem
  refine ⟨left, waited, under.eq_pause mem, zero, ?_⟩
  have alone := under.tries.alone
  have one := List.length_pos_of_mem mem
  rw [← CompletionQueue.length_those]
  omega

theorem Underway.connecting (h : Underway config key ds batch t c) : t.connecting key = true := by
  simp [Turn.connecting, h.tries.found, h.tries.connecting]

/-- A pause that is over was left to make the attempt after it, so the number of that has
32 bits. -/
theorem Underway.next {done : IoCompletion Token} {i : Nat}
    (h : Underway config key ds (done :: batch) t c)
    (small : config.connectRetries.toNat < 2 ^ 32 - 1)
    (own : done.token.isOf .retryTimer key = true) (zero : done.result = 0) :
    (Deed.handled i t done).begins key = true ∧ (c.attempt + 1).toNat = c.attempt.toNat + 1
      ∧ attempts key (.handled i t done :: ds) = c.attempt.toNat + 1 := by
  have resumes : (Deed.handled i t done).resumes key = true := by
    simp [Deed.resumes, Turn.resumes, own, zero, h.connecting]
  have opens : (Deed.handled i t done).opens key = false := rfl
  refine ⟨by simp [Deed.begins, resumes], ?_, by simp [attempts, opens, resumes, h.number]⟩
  obtain ⟨left, -⟩ := h.waited done.token (by
    rw [CompletionQueue.those_handled own, if_pos rfl]
    exact List.mem_cons_self)
  have number := h.number
  rw [UInt32.toNat_add]
  exact Nat.mod_eq_of_lt (by simp; omega)

/-- What a completion makes of the channel. -/
theorem Underway.outcome {done : IoCompletion Token} (i : Nat)
    (h : Underway config key ds (done :: batch) t c) (exact : t.reactor.channels.FreeExact)
    (room : t.reactor.channels.slots.length < Slab.maxSlots) (going : t.reactor.stopping = false)
    (small : config.connectRetries.toNat < 2 ^ 32 - 1) (spans : t.config.Spans)
    (link : c.link = some l) :
    Turn.Outcome (Few key (.handled i t done :: ds)) done batch key c (c.attempt + 1) l t
      (t.onCompletion done) := by
  have tries : t.Tries (Few key (.handled i t done :: ds)) (done :: batch) key c :=
    h.tries.mono Few.tail
  refine tries.onCompletion exact room going spans link fun own zero => ?_
  obtain ⟨-, next, number⟩ := h.next (i := i) small own zero
  refine ⟨next, fun few => ?_⟩
  have lt := few.lt
  rw [number] at lt
  exact next ▸ lt

/-- What stays on its way does not come back. -/
theorem Underway.apart {done : IoCompletion Token} (h : Underway config key ds (done :: batch) t c)
    {token : Token} : (token ∈ t.reactor.driver.those batch .retryTimer key → done.token ≠ token)
      ∧ (Few key ds → token ∈ t.reactor.driver.those batch .connectTimeout key →
        done.token ≠ token) := by
  constructor
  · rintro mem rfl
    have alone := h.tries.alone
    have length := List.length_pos_of_mem mem
    rw [CompletionQueue.those_handled (CompletionQueue.isOf_of_mem_those mem) .retryTimer,
      if_pos rfl, List.length_cons] at alone
    omega
  · rintro few mem rfl
    have once := (h.tries.timed few).once
    rw [CompletionQueue.those_handled (CompletionQueue.isOf_of_mem_those mem), if_pos rfl] at once
    exact (List.nodup_cons.mp once).1 mem

/-- What a completion makes of the attempts. -/
theorem Stands.handled {done : IoCompletion Token} {i : Nat}
    (h : Stands config key ds (done :: batch) t) (exact : t.reactor.channels.FreeExact)
    (room : t.reactor.channels.slots.length < Slab.maxSlots) (going : t.reactor.stopping = false)
    (config' : t.config = config) (small : config.connectRetries.toNat < 2 ^ 32 - 1)
    (spans : config.Spans) :
    Stands config key (.handled i t done :: ds) batch (t.onCompletion done) := by
  obtain calm | ⟨c, under⟩ := h
  · exact .inl ((calm.mono Few.tail).onCompletion exact room)
  · obtain ⟨l, link, -⟩ := under.tries.link
    cases under.outcome i exact room going small (config' ▸ spans) link with
    | goesOn on other waits =>
      have still : (Deed.handled i t done).begins key = false := by
        cases own : done.token.isOf .retryTimer key with
        | false => simp [Deed.begins, Deed.opens, Deed.resumes, Turn.resumes, own]
        | true => simp [Deed.begins, Deed.opens, Deed.resumes, Turn.resumes, waits own]
      exact .inr (under.goesOn on still (fun p _ => CompletionQueue.mem_those_cons done)
        (fun token mem => decide_eq_false (under.apart.1 mem))
        fun few token mem => decide_eq_false (under.apart.2 few mem))
    | opened calm own result => exact .inl calm
    | failed failed own result =>
      have purpose (p : Purpose) := Token.isOf_of_isOf (q := p) own
      have still : (Deed.handled i t done).begins key = false := by
        simp [Deed.begins, Deed.opens, Deed.resumes, Turn.resumes, purpose]
      have same : attempts key (.handled i t done :: ds) = attempts key ds :=
        attempts_of_not_begins still
      refine underway_of_failed failed (under.number.trans same.symm) config' (.inl ?_) rfl
        fun few mem => ?_
      · simp [Deed.reports, own, result, under.connecting]
      · rw [same] at mem ⊢
        have other := under.apart.2 few.tail mem
        exact .later (under.armed few.tail (CompletionQueue.mem_those_cons done mem))
          (by simp [still, Deed.ends, other])
    | begun begun own zero =>
      obtain ⟨begins, next, number⟩ := under.next (i := i) small own zero
      refine underway_of_begun begun (next.trans number.symm) config' begins rfl rfl
        fun few mem => ?_
      -- A limit that was on its way before is of an attempt before.
      have below : (Turn.limit config key (attempts key (.handled i t done :: ds))).token.attempt.toNat
          ≤ c.attempt.toNat :=
        (under.tries.timed few.tail).below _ (CompletionQueue.mem_those_cons done mem)
      have lt := few.lt
      rw [number] at lt
      have tag : (Turn.limit config key (attempts key (.handled i t done :: ds))).token.attempt.toNat
          = c.attempt.toNat + 1 := by
        rw [number]
        exact UInt8.toNat_ofNat_of_lt' (by simp only [UInt8.size]; omega)
      omega

/-- A task that makes a channel makes its first attempt. -/
theorem Stands.made {task : Task} (i : Nat) (h : Stands config key ds [] t)
    (exact : t.reactor.channels.FreeExact)
    (room : t.reactor.channels.slots.length < Slab.maxSlots) (spans : t.config.Spans)
    (own : t.made? task = some key) :
    ∃ l, t.makes task = some l ∧ attempts key (.ran i t task :: ds) = 1
      ∧ Turn.Begun (Few key (.ran i t task :: ds)) [] key 1 l t (t.onTask task)
      ∧ (Few key ds → t.reactor.driver.those [] .connectTimeout key = []) := by
  have opens : (Deed.ran i t task).opens key = true := by simpa [Deed.opens] using own
  have vacant := Turn.vacant_of_made exact room own
  obtain calm | ⟨c, under⟩ := h
  · obtain ⟨l, makes, rfl⟩ := Option.map_eq_some_iff.mp own
    exact ⟨l, makes, by simp [attempts, opens], (calm.mono Few.tail).onTask exact room spans makes,
      (calm.vacant vacant).2⟩
  · cases vacant.symm.trans under.tries.found

/-- What a task makes of the attempts. -/
theorem Stands.ran {task : Task} {i : Nat} (h : Stands config key ds [] t)
    (exact : t.reactor.channels.FreeExact)
    (room : t.reactor.channels.slots.length < Slab.maxSlots) (going : t.reactor.stopping = false)
    (other : task ≠ .stop) (config' : t.config = config) (spans : config.Spans) :
    Stands config key (.ran i t task :: ds) [] (t.onTask task) := by
  by_cases own : t.made? task = some key
  · obtain ⟨l, -, number, begun, idle⟩ := h.made i exact room (config' ▸ spans) own
    refine underway_of_begun begun number.symm config' (by simp [Deed.begins, Deed.opens, own])
      rfl rfl fun few mem => ?_
    rw [idle few.tail] at mem
    cases mem
  · have passes := Turn.passes_of_not_made going other exact room own
    have still : (Deed.ran i t task).begins key = false := by
      simp [Deed.begins, Deed.opens, Deed.resumes, own]
    obtain calm | ⟨c, under⟩ := h
    · exact .inl ((calm.mono Few.tail).passes passes)
    · have tries : t.Tries (Few key (.ran i t task :: ds)) [] key c := under.tries.mono Few.tail
      have on : Turn.GoesOn (Few key (.ran i t task :: ds)) [] key c t t :=
        .of_same tries rfl rfl fun _ _ _ => .refl _
      exact .inr (under.goesOn (on.passes passes) still (fun _ _ => id) (fun _ _ => rfl)
        fun _ _ _ => rfl)

end

/-! ## What a reactor keeps -/

namespace Turn

variable {σ : Type} {may : Scope} {t t' : Turn σ}

/-- A reactor that goes on after a task was not told to stop. -/
theorem ne_stop_of_going {task : Task} (before : t.reactor.stopping = false)
    (after : (t.onTask task).reactor.stopping = false) : task ≠ .stop := by
  rintro rfl
  simp only [onTask] at after
  rw [if_neg (Bool.eq_false_iff.mp before)] at after
  cases (stopping_beginStop _).symm.trans after

theorem Works.freeExact (works : Works may t t') (exact : t.reactor.channels.FreeExact) :
    t'.reactor.channels.FreeExact := by
  induction works with
  | refl => exact exact
  | tail _ work ih =>
    cases work with
    | act key act => exact act.freeExact ih
    | accept | make => exact ih.alloc _
    | windDown => exact ih

end Turn

/-! ## Courses -/

namespace Moment

variable {σ : Type} {m m' m₀ : Moment σ} {d : Option (Deed σ)} {ds ds' : List (Deed σ)}
  {key : SlotKey}

/-- What may happen at a moment, and what the reactor did if it was that.  The settings
stay. -/
inductive Does : Moment σ → Option (Deed σ) → Moment σ → Prop where
  | deliver (m : Moment σ) (c : IoCompletion Token)
      (pending : (m.turn.reactor.driver.pending? c.token).isSome = true) :
      Does m none (m.withDriver (m.turn.reactor.driver.complete c))
  | arrange (m : Moment σ) (refusals : List (IoKind × Int)) (waitFault : Option (Nat × Int))
      (keepsCanceled : Bool) (autosend : Option Nat) :
      Does m none (m.withDriver
        { m.turn.reactor.driver with refusals, waitFault, keepsCanceled, autosend })
  | interfere (m : Moment σ) (host : Host) (shared : Shared σ)
      (config : shared.config = m.turn.shared.config) :
      Does m none { m with turn := { m.turn with host, shared } }
  | wait (t : Turn σ) : Does ⟨t, []⟩ none ⟨t.endWait.2, []⟩
  | mark (t : Turn σ) (f : ReactorHandle → ReactorHandle)
      (keep : ∀ r, t.handle? = some r → (f r).queue.tasks = r.queue.tasks) :
      Does ⟨t, []⟩ none ⟨t.modifyHandle f, []⟩
  | take (t : Turn σ) (limit : Nat) :
      Does ⟨t, []⟩ none
        ⟨{ t with reactor := { t.reactor with driver := (t.reactor.driver.drain limit).2 } },
          (t.reactor.driver.drain limit).1⟩
  | handle (t : Turn σ) (done : IoCompletion Token) (rest : List (IoCompletion Token)) :
      Does ⟨t, done :: rest⟩ (some (.handled t.reactor.index t done)) ⟨t.onCompletion done, rest⟩
  | run (t : Turn σ) (task : Task) (t' : Turn σ) (popped : t.popTask = (some task, t')) :
      Does ⟨t, []⟩
        (some (.ran t.reactor.index (t'.count fun s => { s with tasks := s.tasks + 1 }) task))
        ⟨(t'.count fun s => { s with tasks := s.tasks + 1 }).onTask task, []⟩

/-- What may happen to a reactor is a step of it. -/
theorem Does.step (does : Does m d m') : Step False m m' := by
  cases does with
  | deliver _ c pending => exact .deliver m c pending nofun
  | arrange _ refusals waitFault keepsCanceled autosend =>
    exact .arrange m refusals waitFault keepsCanceled autosend
  | interfere _ host shared => exact .interfere m host shared
  | wait t => exact .move (.wait t)
  | mark t f keep => exact .move (.mark t f keep)
  | take t limit => exact .move (.take t limit)
  | handle t done rest => exact .move (.handle t done rest)
  | run t task t' popped => exact .move (.run t task t' popped)

/-- A step of a reactor that keeps its settings is something that may happen to it. -/
theorem Step.exists_does (step : Step False m m') (config : m'.turn.config = m.turn.config) :
    ∃ d, Does m d m' := by
  cases step with
  | deliver c pending _ => exact ⟨_, .deliver m c pending⟩
  | arrange refusals waitFault keepsCanceled autosend =>
    exact ⟨_, .arrange m refusals waitFault keepsCanceled autosend⟩
  | interfere host shared => exact ⟨_, .interfere m host shared config⟩
  | move move =>
    cases move with
    | wait t => exact ⟨_, .wait t⟩
    | mark t f keep => exact ⟨_, .mark t f keep⟩
    | take t limit => exact ⟨_, .take t limit⟩
    | handle t done rest => exact ⟨_, .handle t done rest⟩
    | run t task t' popped => exact ⟨_, .run t task t' popped⟩

/-- A run with room, and what the reactor did in it, the last first. -/
inductive Course (m₀ : Moment σ) : Moment σ → List (Deed σ) → Prop where
  | start : Course m₀ m₀ []
  | step {m m' : Moment σ} {d : Option (Deed σ)} {ds : List (Deed σ)} (before : Course m₀ m ds)
      (room : m.turn.reactor.channels.slots.length < Slab.maxSlots) (does : Does m d m') :
      Course m₀ m' (d.toList ++ ds)

/-- What a deed leaves as it was. -/
theorem Does.keeps (does : Does m d m') : m'.turn.config = m.turn.config
    ∧ (m.turn.reactor.channels.FreeExact → m'.turn.reactor.channels.FreeExact) := by
  cases does with
  | deliver | arrange | wait | mark | take => exact ⟨rfl, id⟩
  | interfere _ host shared config => exact ⟨config, id⟩
  | handle t done rest =>
    have works : Turn.Works .all t (t.onCompletion done) :=
      Turn.works_all_onCompletion t done
    exact ⟨works.config, works.freeExact⟩
  | run t task t' popped =>
    have took := Turn.took_popTask popped fun s => { s with tasks := s.tasks + 1 }
    have works : Turn.Works .all (t'.count fun s => { s with tasks := s.tasks + 1 }) _ :=
      Turn.works_all_onTask _ task
    exact ⟨works.config.trans took.config, fun exact => works.freeExact (took.reactor ▸ exact)⟩

/-- Nothing is done about a channel while the reactor waits. -/
theorem Does.sameWay (does : Does m none m') (key : SlotKey) :
    m'.turn.channel? key = m.turn.channel? key
      ∧ CompletionQueue.SameWay key m.batch m.turn.reactor.driver m'.batch
        m'.turn.reactor.driver := by
  cases does with
  | deliver _ c pending =>
    have moved : ((m.turn.reactor.driver.complete c).unhandled m.batch).Perm
        (m.turn.reactor.driver.unhandled m.batch) := CompletionQueue.perm_complete pending
    exact ⟨rfl, fun p _ _ => moved.filter _⟩
  | arrange | interfere | mark => exact ⟨rfl, fun _ _ _ => .refl _⟩
  | wait t =>
    refine ⟨rfl, fun p _ _ => ?_⟩
    simp only [Turn.endWait]
    rw [CompletionQueue.snd_endWait]
    exact .refl _
  | take t limit =>
    refine ⟨rfl, fun p _ _ => .of_eq ?_⟩
    have same := CompletionQueue.unhandled_drain (q := t.reactor.driver) limit
    simp only [CompletionQueue.those, same]

/-- What the deeds of a course tell of a reactor. -/
structure Told (config : Config) (m : Moment σ) (ds : List (Deed σ)) : Prop where
  settings : m.turn.config = config
  exact : m.turn.reactor.channels.FreeExact
  stands : ∀ key, Stands config key ds m.batch m.turn
  bounded : ∀ key, Deed.attempts key ds ≤ config.connectRetries.toNat + 1

/-- What the deeds tell is told of the reactor and its settings. -/
theorem Told.of_reactor {config : Config} {t t' : Turn σ} {batch : List (IoCompletion Token)}
    (told : Told config ⟨t, batch⟩ ds) (reactor : t'.reactor = t.reactor)
    (config' : t'.config = t.config) : Told config ⟨t', batch⟩ ds where
  settings := config'.trans told.settings
  exact := reactor ▸ told.exact
  stands key := by
    have found : t'.channel? key = t.channel? key := by rw [Turn.channel?, reactor, Turn.channel?]
    have same : CompletionQueue.SameWay key batch t.reactor.driver batch t'.reactor.driver :=
      reactor ▸ fun _ _ _ => .refl _
    obtain calm | ⟨c, under⟩ := told.stands key
    · exact .inl (calm.same found same)
    · exact .inr ⟨c, under.same found same⟩
  bounded := told.bounded

/-- What a reactor does is told of after it. -/
theorem Told.step {config : Config} (told : Told config m ds)
    (small : config.connectRetries.toNat < 2 ^ 32 - 1) (spans : config.Spans)
    (room : m.turn.reactor.channels.slots.length < Slab.maxSlots) (does : Does m d m')
    (going : m'.turn.reactor.stopping = false) : Told config m' (d.toList ++ ds) := by
  obtain ⟨config', exact⟩ := does.keeps
  have before := does.step.going going
  cases d with
  | none =>
    refine ⟨config'.trans told.settings, exact told.exact, fun key => ?_, told.bounded⟩
    obtain ⟨found, same⟩ := does.sameWay key
    obtain calm | ⟨c, under⟩ := told.stands key
    · exact .inl (calm.same found same)
    · exact .inr ⟨c, under.same found same⟩
  | some d =>
    have bounded (key : SlotKey) (left : d.resumes key = true →
        Deed.attempts key ds ≤ config.connectRetries.toNat) :
        Deed.attempts key (d :: ds) ≤ config.connectRetries.toNat + 1 := by
      have old := told.bounded key
      simp only [Deed.attempts]
      split
      · omega
      · split
        · rename_i resumes
          have left := left resumes
          omega
        · exact old
    cases does with
    | handle t done rest =>
      have stands (key : SlotKey) := told.stands key
      exact ⟨config'.trans told.settings, exact told.exact,
        fun key => (stands key).handled told.exact room before told.settings small spans,
        fun key => bounded key fun resumes => ((stands key).waited resumes).1⟩
    | run t task t' popped =>
      have took := Turn.took_popTask popped fun s => { s with tasks := s.tasks + 1 }
      have onward := (congrArg Reactor.stopping took.reactor).trans before
      have counted := told.of_reactor took.reactor took.config
      exact ⟨config'.trans told.settings, exact told.exact,
        fun key => (counted.stands key).ran counted.exact (took.reactor ▸ room) onward
          (Turn.ne_stop_of_going onward going) counted.settings spans,
        fun key => bounded key nofun⟩

/-- What the deeds tell is so all along a course. -/
theorem Course.told {t : Turn σ} (fresh : Fresh t)
    (course : Course ⟨t.armWakeup.armAccept, []⟩ m ds)
    (small : t.config.connectRetries.toNat < 2 ^ 32 - 1) (spans : t.config.Spans)
    (going : m.turn.reactor.stopping = false) : Told t.config m ds := by
  induction course with
  | start =>
    have works : Turn.Works .all t t.armWakeup.armAccept :=
      (Turn.Works.of_forall fun key => Turn.acts_armWakeup t key trivial).trans
        (.of_forall fun key => Turn.acts_armAccept _ key trivial)
    refine ⟨works.config, works.freeExact ?_, fun key => .inl ?_, fun key => Nat.zero_le _⟩
    · rw [fresh.channels]
      exact Slab.freeExact_empty
    · have none (p : Purpose) : t.reactor.driver.those [] p key = [] := by
        simp [CompletionQueue.those, CompletionQueue.unhandled, fresh.pending, fresh.ready]
      have vacant : t.channel? key = Option.none := by rw [Turn.channel?, fresh.channels]; rfl
      have calm : t.Calm (Deed.Few key ([] : List (Deed σ))) [] key := by
        refine ⟨⟨none _, none _⟩, fun c found => ?_, fun c found => ?_, fun _ c found => ?_,
          fun _ => ⟨none _, fun _ => none _⟩⟩
        · cases vacant.symm.trans found
        · cases vacant.symm.trans found
        · cases vacant.symm.trans found
      exact (calm.passes (.of_forall fun k => Turn.acts_armWakeup t k trivial)).passes
        (.of_forall fun k => Turn.acts_armAccept _ k trivial)
  | step before room does ih => exact (ih (does.step.going going)).step small spans room does going

end Moment

end PartitionEngine
