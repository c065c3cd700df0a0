import PartitionEngine.Proofs.Acts
import PartitionEngine.Proofs.WriteQueues

/-!
# Panics

A handler that panics does no more, and what it did until then stays.  It may ask for more
room than a buffer has, to receive or to merge chunks.  A pause may be too long to be told, an
attempt may have no number left, and a timer may be one too many to be counted.  Only the
last can come about in an engine whose settings are `Config.Bearable`.

Whoever panics works for a channel that connects or is open (`halted_onRecv` and so on).  A
channel that closes is released by the handler that sees its last operation come back, for
that handler does not panic.
-/

namespace PartitionEngine

/-- The pauses between attempts can be told. -/
def Config.Spans (c : Config) : Prop :=
  c.connectBackoff * c.connectRetries.toNat < Text.spanLimit

instance (c : Config) : Decidable c.Spans := inferInstanceAs (Decidable (_ < _))

/-- Settings with which no buffer is too large, no pause too long, and no attempt without a
number. -/
structure Config.Bearable (c : Config) : Prop where
  reads : c.readBufferSize ≤ maxCapacity
  merges : c.writeCoalesceBytes ≤ maxCapacity
  pauses : c.Spans
  retries : c.connectRetries.toNat < maxAttempts

/-- A pause that is not longer than the longest one can be told. -/
theorem Config.pauseAfter?_of_le {c : Config} {attempt : UInt32} (more : attempt ≤ c.connectRetries)
    (spans : c.Spans) :
    c.pauseAfter? attempt = some (c.connectBackoff * attempt.toNat) := by
  have fewer : c.connectBackoff * attempt.toNat ≤ c.connectBackoff * c.connectRetries.toNat :=
    Nat.mul_le_mul_left _ (UInt32.le_iff_toNat_le.mp more)
  exact if_pos (Nat.lt_of_le_of_lt fewer spans)

namespace Turn

variable {σ : Type} {t : Turn σ} {key : SlotKey} {c : Channel}

/-- If its handler has panicked, a channel connects, or it is open and the settings are too
much. -/
def Halted (key : SlotKey) (t : Turn σ) : Prop :=
  t.panicked = true →
    ∃ c, t.channel? key = some c
      ∧ (c.state = .connecting ∨ c.state = .open ∧ ¬ t.config.Bearable)

namespace Halted

theorem of_going (going : t.panicked = false) : t.Halted key := by
  intro panicked
  cases going.symm.trans panicked

theorem of_connecting (found : t.channel? key = some c) (connecting : c.state = .connecting) :
    t.Halted key :=
  fun _ => ⟨c, found, .inl connecting⟩

theorem of_open (found : t.channel? key = some c) (isOpen : c.state = .open)
    (much : ¬ t.config.Bearable) : t.Halted key :=
  fun _ => ⟨c, found, .inr ⟨isOpen, much⟩⟩

/-- A handler goes on if the first part of it has not panicked. -/
theorem andThen {rest : Turn σ → Turn σ} (h : t.Halted key)
    (next : t.panicked = false → (rest t).Halted key) : (t.andThen rest).Halted key := by
  simp only [Turn.andThen]
  split
  · exact h
  · rename_i going
    exact next (Bool.eq_false_iff.mpr going)

end Halted

theorem panicked_close (t : Turn σ) (key : SlotKey) (cause : Failure) :
    (t.close key cause).panicked = t.panicked := by
  cases found : t.channel? key with
  | none => rw [close_of_none found]
  | some c =>
    cases live : c.state.isClosed with
    | true => rw [close_of_isClosed found live]
    | false =>
      rw [close_of_live found live, releaseIfDone_eq]
      exact congrArg (fun t => t.reactor.panicked) (shut_eq t key c cause)

theorem halted_close (going : t.panicked = false) (cause : Failure) :
    (t.close key cause).Halted key :=
  .of_going ((panicked_close t key cause).trans going)

/-! ## Sending and receiving -/

/-- The room to merge chunks may be too much. -/
theorem halted_flush (going : t.panicked = false) : (t.flush key).Halted key := by
  simp only [flush]
  split
  · exact .of_going going
  · rename_i c found
    split
    · exact .of_going going
    · rename_i isOpen
      rw [not_not] at isOpen
      split
      · rename_i panics
        refine .of_open (t := t.panic) found isOpen fun bearable => ?_
        obtain ⟨next, starts⟩ := c.writes.exists_nextSend bearable.merges
        cases panics.symm.trans starts
      · exact .of_going going
      · split
        · rename_i t' submitted
          cases congrArg Prod.snd submitted
          exact .of_going going
        · rename_i e t' submitted
          cases congrArg Prod.snd submitted
          exact halted_close (by exact going) _

theorem halted_write (going : t.panicked = false) (bytes : Bytes) :
    (t.write key bytes).Halted key := by
  simp only [write]
  split
  · exact .of_going going
  · split
    · exact .of_going going
    · exact halted_flush going

theorem halted_onSend (going : t.panicked = false) (result : Int) :
    (t.onSend key result).Halted key := by
  simp only [onSend]
  split
  · exact .of_going going
  · split
    · exact halted_close (by exact going) _
    · exact halted_flush going

theorem panicked_execute (t : Turn σ) (f : Frame) : (t.execute f).2.panicked = t.panicked := by
  simp only [execute]
  split <;> rfl

theorem halted_onRequest (going : t.panicked = false) (f : Frame) :
    (t.onRequest key f).Halted key := by
  have run := (panicked_execute t f).trans going
  simp only [onRequest]
  split
  · split
    · rename_i bytes t' executed
      rw [executed] at run
      exact halted_write run bytes
    · rename_i t' executed
      rw [executed] at run
      exact .of_going run
  · split
    · rename_i t' submitted
      cases congrArg Prod.snd submitted
      exact .of_going going
    · rename_i e t' submitted
      cases congrArg Prod.snd submitted
      split
      · exact .of_going going
      · exact halted_write (by exact going) _

theorem halted_onFrame (going : t.panicked = false) (f : Frame) :
    (t.onFrame key f).Halted key := by
  simp only [onFrame]
  split
  · simp only [onResponse]
    split
    · exact .of_going going
    · split <;> exact .of_going going
  · exact halted_onRequest going f

/-- The room to receive may be too much. -/
theorem halted_postRecv (going : t.panicked = false) : (t.postRecv key).Halted key := by
  simp only [postRecv]
  split
  · exact .of_going going
  · rename_i c found
    split
    · exact .of_going going
    · rename_i due
      simp only [not_or, not_not] at due
      split
      · rename_i beyond
        exact .of_open (t := t.panic) found due.1 fun bearable =>
          absurd bearable.reads (Nat.not_le.mpr beyond)
      · split
        · rename_i t' submitted
          cases congrArg Prod.snd submitted
          exact .of_going going
        · rename_i e t' submitted
          cases congrArg Prod.snd submitted
          exact halted_close (by exact going) _

/-- Whoever has the room to receive does not panic. -/
theorem panicked_postRecv (room : t.config.readBufferSize ≤ maxCapacity) :
    (t.postRecv key).panicked = t.panicked := by
  simp only [postRecv]
  split
  · rfl
  · split
    · rfl
    · rw [if_neg (Nat.not_lt.mpr room)]
      split
      · rename_i t' submitted
        cases congrArg Prod.snd submitted
        rfl
      · rename_i e t' submitted
        cases congrArg Prod.snd submitted
        exact panicked_close _ key e

theorem panicked_adopt (room : t.config.readBufferSize ≤ maxCapacity) (socket : Nat)
    (remote : Option Endpoint) : (t.adopt socket remote).panicked = t.panicked := by
  cases remote with
  | none => rfl
  | some remote => exact panicked_postRecv (by exact room)

theorem Drains.halted {t t' : Turn σ} {fs : List Frame} (drains : Drains key t fs t')
    (going : t.panicked = false) : t'.Halted key := by
  induction drains with
  | refl t => exact .of_going going
  | starved found isOpen asked => exact .of_going going
  | last found isOpen asked => exact halted_onFrame (by exact going) _
  | handled found isOpen asked goes later ih => exact ih goes
  | lost found isOpen asked => exact halted_close (by exact going) _
  | skipped found isOpen asked kept later ih => exact ih (by exact going)

theorem halted_onRecv (going : t.panicked = false) (result : Int) (received : Bytes) :
    (t.onRecv key result received).Halted key := by
  simp only [onRecv]
  split
  · exact .of_going going
  · split
    · exact .of_going going
    · split
      · exact halted_close (by exact going) _
      · split
        · exact halted_close (by exact going) _
        · exact ((drains_drainFrames _ key _).halted (by exact going)).andThen halted_postRecv

/-! ## Connecting -/

theorem panicked_submitTimer_error {token : Token} {after : Nat} {e : Failure} {t' : Turn σ}
    (refused : t.submitTimer key token after = (.error e, t')) : t'.panicked = t.panicked := by
  simp only [submitTimer] at refused
  split at refused
  · cases refused
  · rename_i e' s submitted
    cases refused
    cases congrArg Prod.snd submitted
    rfl

/-- A timer may be one too many to be counted. -/
theorem halted_countTimer (found : t.channel? key = some c) (connecting : c.state = .connecting)
    (going : t.panicked = false) : (t.countTimer key).Halted key := by
  simp only [countTimer]
  rw [found]
  simp only
  split
  · exact .of_connecting (t := t.panic) found connecting
  · exact .of_going going

theorem halted_submitTimer (found : t.channel? key = some c) (connecting : c.state = .connecting)
    (going : t.panicked = false) (token : Token) (after : Nat) :
    (t.submitTimer key token after).2.Halted key := by
  simp only [submitTimer]
  split
  · rename_i t' submitted
    cases congrArg Prod.snd submitted
    exact halted_countTimer (by exact found) connecting (by exact going)
  · rename_i e t' submitted
    cases congrArg Prod.snd submitted
    exact .of_going going

/-- The pause may be too long to be told. -/
theorem halted_connectFailed (found : t.channel? key = some c) (connecting : c.state = .connecting)
    (going : t.panicked = false) (reason : String) : (t.connectFailed key reason).Halted key := by
  simp only [connectFailed]
  rw [found]
  simp only
  split
  · split
    · exact .of_connecting (t := t.panic) found connecting
    · rename_i pause _
      have timed := halted_submitTimer found connecting going
        (.ofChannel .retryTimer key c.attempt.toUInt8) pause
      split
      · rename_i t' submitted
        rw [submitted] at timed
        exact timed
      · rename_i e t' refused
        exact halted_close ((panicked_submitTimer_error refused).trans going) _
  · exact halted_close going _

theorem halted_submitConnect (found : t.channel? key = some c) (connecting : c.state = .connecting)
    (going : t.panicked = false) (socket : Nat) : (t.submitConnect key c socket).Halted key := by
  simp only [submitConnect]
  split
  · rename_i e t' submitted
    cases congrArg Prod.snd submitted
    exact halted_connectFailed (by exact found) connecting (by exact going) _
  · rename_i t' submitted
    cases congrArg Prod.snd submitted
    exact halted_submitTimer (channel?_modifyChannel_self (by exact found) _) connecting
      (by exact going) _ _

/-- There may be no number left for an attempt. -/
theorem halted_startConnect (found : t.channel? key = some c) (connecting : c.state = .connecting)
    (going : t.panicked = false) : (t.startConnect key).Halted key := by
  simp only [startConnect]
  rw [found]
  simp only
  split
  · exact .of_connecting (t := t.panic) found connecting
  · have put := channel?_putChannel_self found
      { c with attempt := c.attempt + 1, timedOut := false }
    split
    · exact halted_connectFailed put connecting (by exact going) _
    · rename_i socket host _
      exact halted_submitConnect (t := { t.putChannel key _ with host }) put connecting
        (by exact going) socket

theorem halted_openChannel (going : t.panicked = false) : (t.openChannel key c).Halted key := by
  simp only [openChannel]
  split <;> exact (halted_postRecv (by exact going)).andThen halted_flush

theorem panicked_cancelTimer (t : Turn σ) (key : SlotKey) (c : Channel) (attempt : UInt8) :
    (t.cancelTimer key c attempt).panicked = t.panicked := by
  simp only [cancelTimer]
  split <;> rfl

theorem halted_onConnect (going : t.panicked = false) (attempt : UInt8) (result : Int) :
    (t.onConnect key attempt result).Halted key := by
  simp only [onConnect]
  split
  · exact .of_going going
  · rename_i c found
    have put := channel?_putChannel_self found { c with connectInFlight := false }
    generalize reached : t.putChannel key { c with connectInFlight := false } = s at put ⊢
    have going : s.panicked = false := reached ▸ going
    split
    · exact .of_going going
    · rename_i connecting
      rw [not_not] at connecting
      rw [← channel?_cancelTimer s key { c with connectInFlight := false } attempt] at put
      rw [← panicked_cancelTimer s key { c with connectInFlight := false } attempt] at going
      split
      · exact halted_openChannel going
      · have put := channel?_putChannel_self (t := Turn.closeSocket _ c.descriptor) put
          { c with descriptor := none, connectInFlight := false }
        exact halted_connectFailed put connecting (by exact going) _

theorem halted_onConnectTimeout (going : t.panicked = false) (attempt : UInt8) (result : Int) :
    (t.onConnectTimeout key attempt result).Halted key := by
  simp only [onConnectTimeout]
  split
  · exact .of_going going
  · split <;> exact .of_going going

theorem halted_onRetryTimer (going : t.panicked = false) (result : Int) :
    (t.onRetryTimer key result).Halted key := by
  simp only [onRetryTimer]
  split
  · exact .of_going going
  · rename_i c found
    split
    · exact .of_going going
    · rename_i due
      simp only [not_or, not_not] at due
      exact halted_startConnect (channel?_putChannel_self found _) due.2 (by exact going)

end Turn

end PartitionEngine
