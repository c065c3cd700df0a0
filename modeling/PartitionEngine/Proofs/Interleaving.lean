import Mathlib.Algebra.BigOperators.Fin
import Mathlib.Algebra.Order.BigOperators.Group.Finset
import Mathlib.Algebra.Order.Floor.Div
import PartitionEngine.Failure
import PartitionEngine.Proofs.Ledger
import PartitionEngine.Proofs.Messages
import PartitionEngine.Proofs.Streams

/-!
# Messages whose parts are mixed

Several messages are split, and their frames come in any order that keeps the order
within each message.  What an assembler holds then is, for each message, the payloads
of the parts that came (`Assembler.Holds`).  Each message is somewhere between its
first frame and its last (`Frame.Ahead`), so what is held of it is the front of its
payload, and there is room for all of them together.  The last frame of a message
gives the message and frees what was held of it (`Assembler.Holds.receipts`).
-/

namespace PartitionEngine

/-! ## Splitting a message -/

namespace Frame

variable {f : Frame}

/-- How a message is split into parts of a size.  The last one is marked. -/
structure SplitInto (f : Frame) (size : Nat) (parts : List Frame) : Prop where
  count : parts.length = f.payload.length ⌈/⌉ size
  payload : parts.flatMap Frame.payload = f.payload
  each : ∀ p ∈ parts, p.payload.length ≤ size ∧ p.isFragment = true
  final : ∀ k (inside : k < parts.length), parts[k].isFinal = decide (k + 1 = parts.length)

/-- A message goes out as it is if it is short enough, and in parts otherwise. -/
theorem Plain.parts_spec (plain : f.Plain) (threshold : Nat) :
    (f.payload.length ≤ max threshold 1 →
      f.parts threshold = [f] ∧ f.isFragment = false ∧ f.isFinal = false)
    ∧ (max threshold 1 < f.payload.length →
      f.SplitInto (max threshold 1) (f.parts threshold)) := by
  refine ⟨fun short => ⟨parts_of_short short, plain.whole.2⟩, fun long => ?_⟩
  obtain ⟨firsts, last, parts, whole, each, count⟩ := parts_of_long long
  have fragment (isLast : Bool) (p : Bytes) : (f.part isLast p).isFragment = true :=
    (plain.part isLast p).2.1
  have final (isLast : Bool) (p : Bytes) : (f.part isLast p).isFinal = isLast :=
    (plain.part isLast p).2.2.1
  rw [parts]
  refine ⟨?_, ?_, ?_, fun k inside => ?_⟩
  · rw [Nat.ceilDiv_eq_add_pred_div, ← count]
    simp
  · have payloads : (firsts.map (f.part false) ++ [f.part true last]).map Frame.payload
        = firsts ++ [last] := by
      simp [Frame.part, Function.comp_def]
    rw [List.flatMap_def, payloads, List.flatten_append, List.flatten_singleton, whole]
  · intro p mem
    rcases List.mem_append.mp mem with first | here
    · obtain ⟨bytes, among, rfl⟩ := List.mem_map.mp first
      exact ⟨(each bytes (List.mem_append_left _ among)).2, fragment _ _⟩
    · rw [List.mem_singleton.mp here]
      exact ⟨(each last (by simp)).2, fragment _ _⟩
  · simp only [List.length_append, List.length_map, List.length_singleton] at inside ⊢
    by_cases at_last : k = firsts.length
    · subst at_last
      simp [final]
    · have among : k < firsts.length := by omega
      simp [List.getElem_append_left, among, final, at_last]

theorem parts_ne_nil (f : Frame) (threshold : Nat) : f.parts threshold ≠ [] := by
  by_cases short : f.payload.length ≤ max threshold 1
  · simp [parts_of_short short]
  · obtain ⟨firsts, last, parts, -⟩ := parts_of_long (Nat.lt_of_not_le short)
    simp [parts]

theorem fits_parts {threshold maxPayload : Nat} (room : max threshold 1 ≤ maxPayload)
    (width : threshold < 2 ^ 32) : ∀ p ∈ f.parts threshold, p.Fits maxPayload := by
  intro p mem
  by_cases short : f.payload.length ≤ max threshold 1
  · rw [parts_of_short short, List.mem_singleton] at mem
    subst mem
    exact ⟨by omega, by omega⟩
  · obtain ⟨firsts, last, parts, -, each, -⟩ := parts_of_long (Nat.lt_of_not_le short)
    have payload : p.payload ∈ firsts ++ [last] := by
      rw [parts] at mem
      simpa [part] using List.mem_map_of_mem (f := Frame.payload) mem
    have size := (each _ payload).2
    exact ⟨by omega, by omega⟩

/-! ## What is still to come of one message -/

/-- What is still to come of a message once some parts came, the last one first. -/
inductive Ahead (f : Frame) : (held : List Bytes) → List Frame → Prop
  /-- The message came. -/
  | done : f.Ahead [] []
  /-- It comes in one frame. -/
  | whole : f.Ahead [] [f]
  | last {held : List Bytes} {payload : Bytes}
      (complete : (payload :: held).reverse.flatten = f.payload) :
      f.Ahead held [f.part true payload]
  | part {held : List Bytes} {payload : Bytes} {rest : List Frame}
      (later : f.Ahead (payload :: held) rest) : f.Ahead held (f.part false payload :: rest)

theorem ahead_parts (f : Frame) (threshold : Nat) : f.Ahead [] (f.parts threshold) := by
  by_cases short : f.payload.length ≤ max threshold 1
  · rw [parts_of_short short]
    exact .whole
  · obtain ⟨firsts, last, parts, whole, -, -⟩ := parts_of_long (Nat.lt_of_not_le short)
    have from_held (held : List Bytes) (complete : held.reverse.flatten ++ (firsts.flatten ++ last)
        = f.payload) : f.Ahead held (firsts.map (f.part false) ++ [f.part true last]) := by
      clear parts whole
      induction firsts generalizing held with
      | nil => exact .last (by simpa using complete)
      | cons p rest ih => exact .part (ih _ (by simpa using complete))
    rw [parts]
    exact from_held [] whole

theorem Ahead.held_eq_nil {held : List Bytes} (h : f.Ahead held []) : held = [] := by
  cases h
  rfl

theorem length_partial_eq (f : Frame) (held : List Bytes) :
    (f.partial held).length = held.reverse.flatten.length :=
  (f.partial held).length_payload.symm

/-- What is held of a message is not longer than the message. -/
theorem Ahead.length_le {held : List Bytes} {rest : List Frame} (h : f.Ahead held rest) :
    (f.partial held).length ≤ f.payload.length := by
  induction h with
  | done => exact Nat.zero_le _
  | whole => exact Nat.zero_le _
  | @last held payload complete =>
    have total := Assembler.length_partial f payload held
    rw [length_partial_eq f (payload :: held), complete] at total
    omega
  | @part held payload rest later ih =>
    have total := Assembler.length_partial f payload held
    omega

end Frame

/-! ## What is held of several messages -/

section

variable {n : Nat} {message : Fin n → Frame}

/-- An assembler that holds these parts of each message and nothing else. -/
structure Assembler.Holds (a : Assembler) (maxMessage : Nat) (message : Fin n → Frame)
    (held : Fin n → List Bytes) : Prop where
  limit : a.maxMessage = maxMessage
  keyed : a.streams.Keyed
  stream : ∀ i, a.streams.get? (keyOf (message i))
    = if held i = [] then none else some ((message i).partial (held i))
  only : ∀ e ∈ a.streams.entries, ∃ i, e.1 = keyOf (message i)
  buffered : a.buffered = ∑ i, ((message i).partial (held i)).length

namespace Assembler

variable {a : Assembler} {maxMessage : Nat} {held : Fin n → List Bytes}

theorem holds_empty (maxMessage : Nat) (message : Fin n → Frame) :
    Holds { maxMessage } maxMessage message fun _ => [] where
  limit := rfl
  keyed := Assoc.keyed_empty
  stream _ := rfl
  only _ mem := by cases mem
  buffered := by simp [Frame.partial, PartialMessage.length]

/-- The bytes held once those held of one message are others. -/
theorem sum_update (message : Fin n → Frame) (held : Fin n → List Bytes) (i : Fin n)
    (parts : List Bytes) :
    (∑ j, ((message j).partial (Function.update held i parts j)).length)
        + ((message i).partial (held i)).length
      = (∑ j, ((message j).partial (held j)).length) + ((message i).partial parts).length := by
  have others : ∑ j ∈ Finset.univ.erase i,
        ((message j).partial (Function.update held i parts j)).length
      = ∑ j ∈ Finset.univ.erase i, ((message j).partial (held j)).length :=
    Finset.sum_congr rfl fun j mem => by
      rw [Function.update_of_ne (Finset.ne_of_mem_erase mem)]
  rw [← Finset.add_sum_erase _ _ (Finset.mem_univ i), Function.update_self, others,
    ← Finset.add_sum_erase (Finset.univ) (fun j => ((message j).partial (held j)).length)
      (Finset.mem_univ i)]
  omega

/-- A part is added to what is held of its message. -/
theorem Holds.grow (h : a.Holds maxMessage message held)
    (distinct : Function.Injective fun i => keyOf (message i)) (i : Fin n) (payload : Bytes) :
    (a.grow (message i) (held i) payload).Holds maxMessage message
      (Function.update held i (payload :: held i)) where
  limit := h.limit
  keyed := h.keyed.insert _ _
  stream j := by
    rw [Assembler.grow, Assoc.get?_insert]
    by_cases same : j = i
    · subst same
      simp
    · have other : keyOf (message j) ≠ keyOf (message i) := fun e => same (distinct e)
      rw [if_neg other, Function.update_of_ne same]
      exact h.stream j
  only e mem := by
    rcases List.mem_cons.mp mem with rfl | mem
    · exact ⟨i, rfl⟩
    · rw [Assoc.entries_erase] at mem
      exact h.only e (List.mem_filter.mp mem).1
  buffered := by
    have total := length_partial (message i) payload (held i)
    have sum := sum_update message held i (payload :: held i)
    have before := h.buffered
    show a.buffered + payload.length = _
    omega

/-- What is held of a message is given up. -/
theorem Holds.discard (h : a.Holds maxMessage message held)
    (distinct : Function.Injective fun i => keyOf (message i)) (i : Fin n) :
    (a.discard (keyOf (message i))).Holds maxMessage message (Function.update held i []) := by
  have sum := sum_update message held i []
  have nothing : ((message i).partial []).length = 0 := rfl
  have stream (j : Fin n) : (a.discard (keyOf (message i))).streams.get? (keyOf (message j))
      = if Function.update held i [] j = [] then none
        else some ((message j).partial (Function.update held i [] j)) := by
    rw [get?_streams_discard]
    by_cases same : j = i
    · subst same
      simp
    · have other : keyOf (message j) ≠ keyOf (message i) := fun e => same (distinct e)
      rw [if_neg other, Function.update_of_ne same]
      exact h.stream j
  revert stream
  rw [Assembler.discard, h.stream i]
  split
  · rename_i found
    split at found
    · cases found
    · cases found
      refine fun stream => ⟨h.limit, h.keyed.erase _, stream, fun e mem => ?_, ?_⟩
      · rw [Assoc.entries_erase] at mem
        exact h.only e (List.mem_filter.mp mem).1
      · have before := h.buffered
        show a.buffered - _ = _
        omega
  · rename_i found
    split at found
    · rename_i empty
      refine fun stream => ⟨h.limit, h.keyed, stream, h.only, ?_⟩
      rw [empty] at sum
      have before := h.buffered
      omega
    · cases found

/-- Fewer streams are open than there are messages, as long as one of them has none. -/
theorem Holds.pending_lt (h : a.Holds maxMessage message held) {i : Fin n} (none : held i = []) :
    a.pending < n := by
  have closed : a.streams.get? (keyOf (message i)) = .none := by
    rw [h.stream i, if_pos none]
  have names : a.streams.keys.toFinset
      ⊆ (Finset.univ.erase i).image fun j => keyOf (message j) := by
    intro key mem
    obtain ⟨e, inside, rfl⟩ := List.mem_map.mp (List.mem_toFinset.mp mem)
    obtain ⟨j, name⟩ := h.only e inside
    refine Finset.mem_image.mpr ⟨j, Finset.mem_erase.mpr ⟨?_, Finset.mem_univ j⟩, name.symm⟩
    rintro rfl
    exact Assoc.not_mem_of_get? closed e.2 (name ▸ inside)
  calc a.pending
      = a.streams.keys.toFinset.card := by
        exact h.keyed.size_eq_card
    _ ≤ ((Finset.univ.erase i).image fun j => keyOf (message j)).card := Finset.card_le_card names
    _ ≤ (Finset.univ.erase i).card := Finset.card_image_le
    _ < n := by
        rw [Finset.card_erase_of_mem (Finset.mem_univ i), Finset.card_univ, Fintype.card_fin]
        have := i.pos
        omega

/-- A part for which there is room goes to its message. -/
theorem Holds.accept_part (h : a.Holds maxMessage message held) (few : n ≤ maxOpenStreams)
    {i : Fin n} (plain : (message i).Plain) (payload : Bytes) (isLast : Bool)
    (room : a.buffered + payload.length ≤ maxMessage) :
    a.accept ((message i).part isLast payload)
      = if isLast then
          (.ok (some { message i with payload := (payload :: held i).reverse.flatten }),
            (a.grow (message i) (held i) payload).discard (keyOf (message i)))
        else (.ok none, a.grow (message i) (held i) payload) := by
  obtain ⟨valid, fragment, -, -, flags⟩ := plain.part isLast payload
  have taken := acceptPart_of_room plain (held i) isLast (h.limit ▸ room)
  rw [accept_of_isFragment fragment valid, keyOf_part plain, h.stream i]
  by_cases none : held i = []
  · have vacant : ¬ maxOpenStreams ≤ a.pending :=
      Nat.not_le.mpr (Nat.lt_of_lt_of_le (h.pending_lt none) few)
    have opened : PartialMessage.ofFirst ((message i).part isLast payload)
        = (message i).partial (held i) := by
      rw [PartialMessage.ofFirst, flags, none]
      rfl
    rw [if_pos none]
    simp only [if_neg vacant, opened]
    exact taken
  · rw [if_neg none]
    exact taken

/-! ## Taking the frames -/

/-- The frames of one message, in the order in which they come. -/
def lane (i : Fin n) (merged : List (Fin n × Frame)) : List Frame :=
  (merged.filter fun e => e.1 = i).map Prod.snd

theorem lane_cons_self (i : Fin n) (f : Frame) (merged : List (Fin n × Frame)) :
    lane i ((i, f) :: merged) = f :: lane i merged := by
  simp [lane]

theorem lane_cons_of_ne {i j : Fin n} (h : j ≠ i) (f : Frame) (merged : List (Fin n × Frame)) :
    lane j ((i, f) :: merged) = lane j merged := by
  simp [lane, h.symm]

theorem lane_eq_nil_iff {i : Fin n} {merged : List (Fin n × Frame)} :
    lane i merged = [] ↔ i ∉ merged.map Prod.fst := by
  rw [lane, List.map_eq_nil_iff, List.filter_eq_nil_iff, List.mem_map]
  simp only [decide_eq_true_eq]
  exact ⟨fun none ⟨e, mem, same⟩ => none e mem same, fun none e mem same => none ⟨e, mem, same⟩⟩

/-- What comes of the frames: a message at its last frame, and nothing before. -/
def outputs (message : Fin n → Frame) :
    List (Fin n × Frame) → List (Except FrameError (Option Frame))
  | [] => []
  | (i, _) :: rest =>
    .ok (if i ∈ rest.map Prod.fst then none else some (message i)) :: outputs message rest

/-- Each message comes out once. -/
theorem count_outputs (injective : Function.Injective message) (merged : List (Fin n × Frame))
    (i : Fin n) :
    (outputs message merged).count (.ok (some (message i)))
      = if i ∈ merged.map Prod.fst then 1 else 0 := by
  induction merged with
  | nil => rfl
  | cons e rest ih =>
    obtain ⟨j, f⟩ := e
    rw [outputs, List.count_cons, ih, List.map_cons]
    by_cases same : i = j
    · subst same
      by_cases again : i ∈ rest.map Prod.fst
      · simp [again]
      · simp [again]
    · have kept : i ∈ j :: rest.map Prod.fst ↔ i ∈ rest.map Prod.fst := by simp [same]
      have other : message j ≠ message i := fun e => same (injective e).symm
      rw [if_congr kept rfl rfl]
      by_cases again : j ∈ rest.map Prod.fst
      · simp [again]
      · simp [again, other]

/-- One more frame of a message.  It is taken, the message comes out if this was its last
frame, and what is held is again what came of messages that are not complete. -/
theorem Holds.accept (h : a.Holds maxMessage message held)
    (distinct : Function.Injective fun i => keyOf (message i)) (few : n ≤ maxOpenStreams)
    (plain : ∀ i, (message i).Plain)
    {i : Fin n} {f : Frame} {rest : List Frame}
    (ahead : (message i).Ahead (held i) (f :: rest))
    (room : a.buffered + (message i).payload.length
      ≤ maxMessage + ((message i).partial (held i)).length) :
    ∃ left, (a.accept f).1 = .ok (if rest = [] then some (message i) else none)
      ∧ (a.accept f).2.Holds maxMessage message (Function.update held i left)
      ∧ (message i).Ahead left rest := by
  generalize parts : held i = before at ahead
  cases ahead with
  | whole =>
    have taken := (plain i).accept a
    refine ⟨[], by rw [taken]; rfl, ?_, .done⟩
    rw [taken, ← parts, Function.update_eq_self]
    exact h
  | @last _ payload complete =>
    have total := length_partial (message i) payload before
    rw [Frame.length_partial_eq _ (payload :: before), complete] at total
    have taken := h.accept_part few (plain i) payload true (by rw [parts] at room; omega)
    rw [if_pos rfl, parts, complete] at taken
    refine ⟨[], by rw [taken]; rfl, ?_, .done⟩
    have dropped := (h.grow distinct i payload).discard distinct i
    rw [Function.update_idem, parts] at dropped
    rw [taken]
    exact dropped
  | @part _ payload _ later =>
    have total := length_partial (message i) payload before
    have within := later.length_le
    have taken := h.accept_part few (plain i) payload false (by rw [parts] at room; omega)
    rw [if_neg Bool.false_ne_true, parts] at taken
    have more : rest ≠ [] := by
      rintro rfl
      cases later.held_eq_nil
    refine ⟨payload :: before, by rw [taken, if_neg more], ?_, later⟩
    have grown := h.grow distinct i payload
    rw [parts] at grown
    rw [taken]
    exact grown

/-- All the frames that are still to come. -/
theorem Holds.receipts (h : a.Holds maxMessage message held)
    (distinct : Function.Injective fun i => keyOf (message i)) (few : n ≤ maxOpenStreams)
    (plain : ∀ i, (message i).Plain) (room : ∑ i, (message i).payload.length ≤ maxMessage)
    {merged : List (Fin n × Frame)} (ahead : ∀ i, (message i).Ahead (held i) (lane i merged)) :
    (a.receipts (merged.map Prod.snd)).map Receipt.result = outputs message merged
      ∧ (a.after (merged.map Prod.snd)).Holds maxMessage message fun _ => [] := by
  induction merged generalizing a held with
  | nil =>
    have none : held = fun _ => [] := funext fun i => (ahead i).held_eq_nil
    exact ⟨rfl, none ▸ h⟩
  | cons e rest ih =>
    obtain ⟨i, f⟩ := e
    have here := ahead i
    rw [lane_cons_self] at here
    have within : a.buffered + (message i).payload.length
        ≤ maxMessage + ((message i).partial (held i)).length := by
      have others : ∑ j ∈ Finset.univ.erase i, ((message j).partial (held j)).length
          ≤ ∑ j ∈ Finset.univ.erase i, (message j).payload.length :=
        Finset.sum_le_sum fun j _ => (ahead j).length_le
      have held_sum := Finset.add_sum_erase Finset.univ
        (fun j => ((message j).partial (held j)).length) (Finset.mem_univ i)
      have room_sum := Finset.add_sum_erase Finset.univ
        (fun j => (message j).payload.length) (Finset.mem_univ i)
      have buffered := h.buffered
      omega
    obtain ⟨left, result, holds, later⟩ := h.accept distinct few plain here within
    obtain ⟨results, final⟩ := ih holds fun j => by
      by_cases same : j = i
      · subst same
        rwa [Function.update_self]
      · rw [Function.update_of_ne same, ← lane_cons_of_ne same f rest]
        exact ahead j
    refine ⟨?_, final⟩
    have last : lane i rest = [] ↔ i ∉ rest.map Prod.fst := lane_eq_nil_iff
    rw [List.map_cons, Assembler.receipts, List.map_cons, results, outputs, result]
    congr 2
    by_cases more : i ∈ rest.map Prod.fst
    · rw [if_pos more, if_neg fun e => last.mp e more]
    · rw [if_neg more, if_pos (last.mpr more)]

theorem Holds.empty (h : a.Holds maxMessage message fun _ => []) :
    a.pending = 0 ∧ a.buffered = 0 := by
  constructor
  · refine List.length_eq_zero_iff.mpr (List.eq_nil_iff_forall_not_mem.mpr fun e mem => ?_)
    obtain ⟨i, name⟩ := h.only e mem
    exact Assoc.not_mem_of_get? (h.stream i) e.2 (name ▸ mem)
  · rw [h.buffered]
    exact Finset.sum_eq_zero fun i _ => rfl

/-- Messages with different names that have room together may be split as one likes
and sent at the same time.  Each one goes out as it is, or in as many parts as it
takes, of which the last one is marked.  However the frames are mixed, none is refused,
each message comes out once and as it was, at its last frame, and nothing is held
afterwards. -/
theorem receipts_interleaved {n : Nat} (few : n ≤ 64) (message : Fin n → Frame)
    (threshold : Fin n → Nat) (maxMessage : Nat)
    (distinct : Function.Injective fun i => keyOf (message i))
    (plain : ∀ i, (message i).flags &&& ~~~(Flag.response ||| Flag.error) = 0)
    (room : ∑ i, (message i).payload.length ≤ maxMessage) (width : ∀ i, threshold i < 2 ^ 32)
    (merged : List (Fin n × Frame))
    (order : ∀ i, lane i merged = (message i).parts (threshold i)) :
    (∀ i,
      (∀ maxPayload, max (threshold i) 1 ≤ maxPayload →
        decodeAll maxPayload ((message i).encodeMessage (threshold i))
          = { frames := (message i).parts (threshold i), rest := [] })
      ∧ ((message i).payload.length ≤ max (threshold i) 1 →
        (message i).parts (threshold i) = [message i]
        ∧ (message i).isFragment = false ∧ (message i).isFinal = false)
      ∧ (max (threshold i) 1 < (message i).payload.length →
        (message i).SplitInto (max (threshold i) 1) ((message i).parts (threshold i))))
    ∧ (receipts { maxMessage } (merged.map Prod.snd)).map Receipt.result = outputs message merged
    ∧ (∀ i, (outputs message merged).count (.ok (some (message i))) = 1)
    ∧ (after { maxMessage } (merged.map Prod.snd)).pending = 0
    ∧ (after { maxMessage } (merged.map Prod.snd)).buffered = 0 := by
  have ahead (i : Fin n) : (message i).Ahead [] (lane i merged) := by
    rw [order i]
    exact (message i).ahead_parts (threshold i)
  obtain ⟨results, final⟩ :=
    (holds_empty maxMessage message).receipts distinct few plain room ahead
  have injective : Function.Injective message := fun i j same => distinct (congrArg keyOf same)
  refine ⟨fun i => ⟨fun maxPayload large => ?_, Frame.Plain.parts_spec (plain i) (threshold i)⟩,
    results, fun i => ?_, final.empty⟩
  · exact decodeAll_encode (Frame.fits_parts large (width i))
  · have sent : i ∈ merged.map Prod.fst := by
      by_contra absent
      have none := lane_eq_nil_iff.mpr absent
      rw [order i] at none
      exact (message i).parts_ne_nil (threshold i) none
    rw [count_outputs injective, if_pos sent]

/-- A request and a response with the same id. -/
def crossing (i : Fin 2) : Frame :=
  { opcode := 5, correlationId := 7, partition := 3,
    flags := if i = 0 then 0 else Flag.response,
    payload := if i = 0 then [1, 2, 3] else [4, 5] }

/-- Their parts, of two bytes and of one byte, in turn. -/
def crossed : List (Fin 2 × Frame) :=
  [(0, (crossing 0).part false [1, 2]), (1, (crossing 1).part false [4]),
    (1, (crossing 1).part true [5]), (0, (crossing 0).part true [3])]

/-- The response comes out at the third frame and the request at the fourth. -/
theorem receipts_crossed :
    (receipts { maxMessage := 5 } (crossed.map Prod.snd)).map Receipt.result
      = [.ok none, .ok none, .ok (some (crossing 1)), .ok (some (crossing 0))]
    ∧ (after { maxMessage := 5 } (crossed.map Prod.snd)).pending = 0 := by
  have mixed := receipts_interleaved (n := 2) (by decide) crossing (fun i => 2 - i) 5 (by decide)
    (by decide) (by decide) (by decide) crossed (by decide)
  exact ⟨mixed.2.1, mixed.2.2.2.1⟩

end Assembler

end

end PartitionEngine
