import PartitionEngine.Config
import PartitionEngine.Proofs.Streams

/-!
# Lengths in headers

The length field of a header has 32 bits, and a longer payload leaves it with what is left
after division by 2³² (`Frame.tells_iff`).  The longest part of a message is as long as the
payload or the threshold, whichever is less (`Frame.length_parts`).  A configuration bounds
the threshold by the limits for frames and messages, and these by nothing.  So every message
that it allows is framed right exactly if the threshold is below 2³²
(`Config.frames_tell_iff`).
-/

namespace PartitionEngine

namespace Frame

variable {f g : Frame} {threshold : Nat}

/-- The header of a frame is followed by as many bytes as it says. -/
def Tells (g : Frame) : Prop :=
  ∃ h, Header.decode? g.encode = some (h, g.payload) ∧ h.payloadLength.toNat = g.payload.length

theorem tells_iff : g.Tells ↔ g.payload.length < 2 ^ 32 := by
  have header := Header.decode?_encode (g.header g.flags g.payload.length) g.payload
  constructor
  · rintro ⟨h, -, length⟩
    exact length ▸ h.payloadLength.toNat_lt
  · intro width
    exact ⟨_, header, UInt32.toNat_ofNat_of_lt' width⟩

/-- The first part of a message that is too long for one frame is as long as parts get. -/
theorem exists_full_part (long : max threshold 1 < f.payload.length) :
    ∃ g ∈ f.parts threshold, g.payload.length = max threshold 1 := by
  have positive : 0 < max threshold 1 := Nat.lt_of_lt_of_le Nat.one_pos (Nat.le_max_right _ _)
  have nonempty : f.payload ≠ [] := List.length_pos_iff.mp (Nat.lt_trans positive long)
  rw [parts, if_neg (Nat.not_le.mpr long), pieces_of_ne_nil positive nonempty, List.mapIdx_cons]
  exact ⟨_, List.mem_cons_self, List.length_take_of_le (Nat.le_of_lt long)⟩

/-- The longest part has the length of the payload, or of the threshold. -/
theorem length_parts (f : Frame) (threshold : Nat) :
    (∀ g ∈ f.parts threshold, g.payload.length ≤ min f.payload.length (max threshold 1))
    ∧ ∃ g ∈ f.parts threshold, g.payload.length = min f.payload.length (max threshold 1) := by
  rcases Nat.lt_or_ge (max threshold 1) f.payload.length with long | short
  · rw [Nat.min_eq_right (Nat.le_of_lt long)]
    refine ⟨fun g mem => ?_, exists_full_part long⟩
    obtain ⟨firsts, last, parts, -, each, -⟩ := parts_of_long long
    rw [parts] at mem
    rcases List.mem_append.mp mem with first | final
    · obtain ⟨p, among, rfl⟩ := List.mem_map.mp first
      exact (each p (List.mem_append_left _ among)).2
    · cases List.mem_singleton.mp final
      exact (each last (List.mem_append_right _ (List.mem_singleton_self _))).2
  · rw [Nat.min_eq_left short, parts_of_short short]
    refine ⟨fun g mem => ?_, f, List.mem_singleton_self f, rfl⟩
    obtain rfl := List.mem_singleton.mp mem
    exact Nat.le_refl _

/-- All parts of a message tell their length if the payload or the threshold can be told. -/
theorem parts_tell_iff (f : Frame) (threshold : Nat) :
    (∀ g ∈ f.parts threshold, g.Tells)
      ↔ f.payload.length < 2 ^ 32 ∨ threshold < 2 ^ 32 := by
  obtain ⟨most, g, mem, longest⟩ := f.length_parts threshold
  have within : min f.payload.length (max threshold 1) < 2 ^ 32
      ↔ f.payload.length < 2 ^ 32 ∨ threshold < 2 ^ 32 := by omega
  rw [← within]
  constructor
  · intro all
    exact longest ▸ tells_iff.mp (all g mem)
  · intro width g mem
    exact tells_iff.mpr (Nat.lt_of_le_of_lt (most g mem) width)

end Frame

namespace Config

variable {c : Config}

/-- A check that was passed. -/
theorem passed_of_ok {p : Prop} [Decidable p] {e : Failure} {rest : Except Failure Unit}
    (checked : (if p then .error e else rest) = .ok ()) : ¬ p ∧ rest = .ok () := by
  split at checked
  · cases checked
  · exact ⟨‹_›, checked⟩

/-- What is known of the limits of a configuration that is accepted. -/
theorem threshold_of_validate (valid : c.validate = .ok ()) :
    0 < c.fragmentThreshold ∧ c.fragmentThreshold ≤ c.maxFramePayload
      ∧ c.maxFramePayload ≤ c.maxMessageSize := by
  unfold validate at valid
  iterate 6 replace valid := (passed_of_ok valid).2
  obtain ⟨threshold, valid⟩ := passed_of_ok valid
  obtain ⟨frames, -⟩ := passed_of_ok valid
  omega

/-- A request of 2³² bytes is within the limits if the threshold is, and goes out in one
frame. -/
theorem exists_misframed (valid : c.validate = .ok ()) (wide : ¬ c.fragmentThreshold < 2 ^ 32) :
    ∃ f : Frame, f.payload.length ≤ c.maxMessageSize
      ∧ ∃ g ∈ f.parts c.fragmentThreshold, ¬ g.Tells := by
  obtain ⟨f, length⟩ : ∃ f : Frame, f.payload.length = 2 ^ 32 :=
    ⟨.request 1 501 7 (List.replicate (2 ^ 32) 0), List.length_replicate⟩
  obtain ⟨-, frames, messages⟩ := threshold_of_validate valid
  have whole : f.parts c.fragmentThreshold = [f] := Frame.parts_of_short (by omega)
  refine ⟨f, by omega, f, whole ▸ List.mem_singleton_self f, ?_⟩
  rw [Frame.tells_iff, length]
  exact Nat.lt_irrefl _

/-- A configuration that is accepted frames every message that it allows right exactly if
its threshold is below 2³².  Whatever it is, the header of each frame of a message tells how
many bytes follow, and a reader with the same limit takes exactly these frames off, exactly
if the payload or the threshold is below 2³². -/
theorem frames_tell_iff (c : Config) (valid : c.validate = .ok ()) :
    ((∀ f : Frame, f.payload.length ≤ c.maxMessageSize →
        ∀ g ∈ f.parts c.fragmentThreshold, g.Tells)
      ↔ c.fragmentThreshold < 2 ^ 32)
    ∧ ∀ f : Frame,
      ((∀ g ∈ f.parts c.fragmentThreshold, g.Tells)
        ↔ f.payload.length < 2 ^ 32 ∨ c.fragmentThreshold < 2 ^ 32)
      ∧ ∀ pieces : List Bytes, pieces.flatten = f.encodeMessage c.fragmentThreshold →
        (decodePieces c.maxFramePayload [] pieces
            = { frames := f.parts c.fragmentThreshold, rest := [] }
          ↔ f.payload.length < 2 ^ 32 ∨ c.fragmentThreshold < 2 ^ 32) := by
  obtain ⟨positive, frames, messages⟩ := threshold_of_validate valid
  refine ⟨⟨fun all => ?_, fun width f _ => ?_⟩, fun f => ⟨f.parts_tell_iff _, fun pieces cut => ?_⟩⟩
  · by_contra wide
    obtain ⟨f, within, g, mem, silent⟩ := exists_misframed valid wide
    exact silent (all f within g mem)
  · exact (f.parts_tell_iff _).mpr (.inr width)
  · rw [decodePieces_eq_iff, ← f.parts_tell_iff c.fragmentThreshold]
    have most := (f.length_parts c.fragmentThreshold).1
    constructor
    · rintro ⟨fit, -⟩ g mem
      exact Frame.tells_iff.mpr (fit g mem).2
    · intro tell
      refine ⟨fun g mem => ⟨?_, Frame.tells_iff.mp (tell g mem)⟩, cut⟩
      have := most g mem
      omega

/-- A configuration is accepted, and a request within its limits goes out in a frame whose
header tells another length. -/
theorem wide_threshold_misframes : ∃ (c : Config) (f : Frame), c.validate = .ok ()
    ∧ f.payload.length ≤ c.maxMessageSize ∧ ∃ g ∈ f.parts c.fragmentThreshold, ¬ g.Tells := by
  let c : Config := { reactorCount := 1, fragmentThreshold := 2 ^ 32, maxFramePayload := 2 ^ 32,
                      maxMessageSize := 2 ^ 32 }
  have valid : c.validate = .ok () := by decide
  obtain ⟨f, misframed⟩ := exists_misframed valid (by decide)
  exact ⟨c, f, valid, misframed⟩

/-- With the limits that a configuration has by default every request is framed right, and
read whole if it comes byte by byte. -/
theorem frames_tell_iff_of_default : ∃ c : Config, c.validate = .ok ()
    ∧ ∀ (opcode : UInt8) (id : UInt64) (p : Partition) (payload : Bytes),
      payload.length ≤ c.maxMessageSize →
      let f : Frame := .request opcode id p payload
      (∀ g ∈ f.parts c.fragmentThreshold, g.Tells)
      ∧ decodePieces c.maxFramePayload [] ((f.encodeMessage c.fragmentThreshold).map ([·]))
        = { frames := f.parts c.fragmentThreshold, rest := [] } := by
  have narrow : ({ reactorCount := 1 } : Config).fragmentThreshold < 2 ^ 32 := by decide
  obtain ⟨all, each⟩ := frames_tell_iff { reactorCount := 1 } rfl
  refine ⟨{ reactorCount := 1 }, rfl, fun opcode id p payload within => ⟨?_, ?_⟩⟩
  · exact all.mpr narrow (.request opcode id p payload) within
  · exact ((each _).2 _ (List.flatMap_singleton' _)).mpr (.inr narrow)

end Config

end PartitionEngine
