import PartitionEngine.Text.Utf8
import Mathlib.Data.List.Basic

/-!
# UTF-8 is read back

A text that was written as UTF-8 has no ill-formed part, so the lenient reading
gives it back (`decodeLenient_utf8`).  The reading goes byte by byte; the content is
in `parts_encodeChar`, where the four lengths of an encoding meet the ranges that
`lead` allows for the second byte.
-/

namespace PartitionEngine.Text

theorem toList_loop (bytes : ByteArray) (i : Nat) (seen : List UInt8) :
    ByteArray.toList.loop bytes i seen = seen.reverse ++ bytes.data.toList.drop i := by
  induction hn : bytes.size - i generalizing i seen with
  | zero =>
    rw [ByteArray.toList.loop, if_neg (by omega), List.drop_eq_nil_of_le, List.append_nil]
    rw [Array.length_toList]
    show bytes.size ≤ i
    omega
  | succ n ih =>
    have inside : i < bytes.data.toList.length := by
      rw [Array.length_toList]
      show i < bytes.size
      omega
    rw [ByteArray.toList.loop, if_pos (by omega), ih (i + 1) _ (by omega), List.reverse_cons,
      List.append_assoc, List.singleton_append, List.drop_eq_getElem_cons inside]
    have here : bytes.get! i = bytes.data.toList[i] := getElem!_pos bytes.data i inside
    rw [here]

theorem toList_eq (bytes : ByteArray) : bytes.toList = bytes.data.toList := by
  rw [ByteArray.toList, toList_loop]
  simp

theorem utf8_eq (s : String) : utf8 s = s.toList.flatMap String.utf8EncodeChar := by
  rw [utf8, toList_eq]
  show s.toByteArray.data.toList = _
  rw [← String.utf8Encode_toList, List.utf8Encode, List.data_toByteArray]

theorem parts_lead (b : UInt8) (rest : Bytes) :
    parts none (b :: rest) = match lead b with
      | .single c => some c :: parts none rest
      | .longer p => parts (some p) rest
      | .none => none :: parts none rest := rfl

theorem toNat_tail {n : Nat} (small : n < 64) : (UInt8.ofNat (n + 128)).toNat = n + 128 := by
  rw [UInt8.toNat_ofNat']
  omega

/-- The last byte of a character. -/
theorem parts_last {p : Pending} {n : Nat} (last : p.missing = 1) (small : n < 64)
    (low : p.low ≤ n + 128) (high : n + 128 ≤ p.high) (rest : Bytes) :
    parts (some p) (.ofNat (n + 128) :: rest)
      = some (Char.ofNat (p.value * 64 + n)) :: parts none rest := by
  have bits : (n + 128) % 64 = n := by omega
  have byte := toNat_tail small
  generalize UInt8.ofNat (n + 128) = b at byte ⊢
  simp [parts, byte, low, high, last, bits]

/-- A byte of a character with more bytes to come. -/
theorem parts_next {p : Pending} {n : Nat} (more : 1 < p.missing) (small : n < 64)
    (low : p.low ≤ n + 128) (high : n + 128 ≤ p.high) (rest : Bytes) :
    parts (some p) (.ofNat (n + 128) :: rest)
      = parts (some { value := p.value * 64 + n, missing := p.missing - 1 }) rest := by
  have bits : (n + 128) % 64 = n := by omega
  have byte := toNat_tail small
  generalize UInt8.ofNat (n + 128) = b at byte ⊢
  simp [parts, byte, low, high, Nat.not_le.mpr more, bits]

/-- The lead byte of a character of three bytes allows the second byte that the
character has. -/
theorem lead_three {v : Nat} (least : 0x800 ≤ v) (most : v ≤ 0xFFFF)
    (scalar : v < 0xD800 ∨ 0xDFFF < v) :
    ∃ low high, lead (.ofNat (v / 4096 % 16 + 224)) = .longer ⟨v / 4096, 2, low, high⟩ ∧
      low ≤ v / 64 % 64 + 128 ∧ v / 64 % 64 + 128 ≤ high := by
  have byte : (UInt8.ofNat (v / 4096 % 16 + 224)).toNat = v / 4096 + 224 := by
    rw [UInt8.toNat_ofNat']
    omega
  unfold lead
  simp only [byte]
  rw [if_neg (by omega), if_neg (by omega), if_neg (by omega)]
  by_cases first : v / 4096 + 224 = 0xE0
  · rw [if_pos first]
    have value : v / 4096 = 0 := by omega
    exact ⟨0xA0, 0xBF, by rw [value], by omega, by omega⟩
  · rw [if_neg first]
    by_cases surrogates : v / 4096 + 224 = 0xED
    · rw [if_pos surrogates]
      have value : v / 4096 = 0xD := by omega
      exact ⟨0x80, 0x9F, by rw [value], by omega, by omega⟩
    · rw [if_neg surrogates, if_pos (by omega), Nat.add_sub_cancel]
      exact ⟨0x80, 0xBF, rfl, by omega, by omega⟩

theorem lead_four {v : Nat} (least : 0xFFFF < v) (most : v < 0x110000) :
    ∃ low high, lead (.ofNat (v / 262144 % 8 + 240)) = .longer ⟨v / 262144, 3, low, high⟩ ∧
      low ≤ v / 4096 % 64 + 128 ∧ v / 4096 % 64 + 128 ≤ high := by
  have byte : (UInt8.ofNat (v / 262144 % 8 + 240)).toNat = v / 262144 + 240 := by
    rw [UInt8.toNat_ofNat']
    omega
  unfold lead
  simp only [byte]
  rw [if_neg (by omega), if_neg (by omega), if_neg (by omega), if_neg (by omega), if_neg (by omega),
    if_neg (by omega)]
  by_cases first : v / 262144 + 240 = 0xF0
  · rw [if_pos first]
    have value : v / 262144 = 0 := by omega
    exact ⟨0x90, 0xBF, by rw [value], by omega, by omega⟩
  · rw [if_neg first]
    by_cases last : v / 262144 + 240 = 0xF4
    · rw [if_pos last]
      have value : v / 262144 = 4 := by omega
      exact ⟨0x80, 0x8F, by rw [value], by omega, by omega⟩
    · rw [if_neg last, if_pos (by omega), Nat.add_sub_cancel]
      exact ⟨0x80, 0xBF, rfl, by omega, by omega⟩

/-- A character is read back, and what comes after it is read on its own. -/
theorem parts_encodeChar (c : Char) (rest : Bytes) :
    parts none (String.utf8EncodeChar c ++ rest) = some c :: parts none rest := by
  have scalar : c.val.toNat < 0xD800 ∨ 0xDFFF < c.val.toNat ∧ c.val.toNat < 0x110000 := c.valid
  have back : Char.ofNat c.val.toNat = c := Char.ofNat_toNat c
  unfold String.utf8EncodeChar
  generalize c.val.toNat = v at scalar back
  have six (n : Nat) : n % 64 < 64 := Nat.mod_lt n (by decide)
  simp only
  split
  · rename_i one
    have byte : (UInt8.ofNat v).toNat = v := by
      rw [UInt8.toNat_ofNat']
      omega
    have start : lead (.ofNat v) = .single c := by
      rw [lead, byte, if_pos (by omega), back]
    rw [List.singleton_append, parts_lead, start]
  · split
    · rename_i two
      have byte : (UInt8.ofNat (v / 64 % 32 + 192)).toNat = v / 64 + 192 := by
        rw [UInt8.toNat_ofNat']
        omega
      have start : lead (.ofNat (v / 64 % 32 + 192))
          = .longer { value := v / 64, missing := 1 } := by
        unfold lead
        simp only [byte]
        rw [if_neg (by omega), if_neg (by omega), if_pos (by omega), Nat.add_sub_cancel]
      have value : v / 64 * 64 + v % 64 = v := by omega
      rw [List.cons_append, List.singleton_append, parts_lead, start]
      simp only
      rw [parts_last rfl (six v) (by simp) (by simp only; omega)]
      simp only [value, back]
    · split
      · rename_i three
        obtain ⟨low, high, start, least, most⟩ := lead_three (v := v) (by omega) three (by omega)
        have value : (v / 4096 * 64 + v / 64 % 64) * 64 + v % 64 = v := by omega
        rw [List.cons_append, List.cons_append, List.singleton_append, parts_lead, start]
        simp only
        rw [parts_next (by simp) (six _) least most,
          parts_last rfl (six v) (by simp) (by simp only; omega)]
        simp only [value, back]
      · obtain ⟨low, high, start, least, most⟩ := lead_four (v := v) (by omega) (by omega)
        have value : ((v / 262144 * 64 + v / 4096 % 64) * 64 + v / 64 % 64) * 64 + v % 64 = v := by
          omega
        rw [List.cons_append, List.cons_append, List.cons_append, List.singleton_append,
          parts_lead, start]
        simp only
        rw [parts_next (by simp) (six _) least most,
          parts_next (by simp) (six _) (by simp) (by simp only; omega),
          parts_last rfl (six v) (by simp) (by simp only; omega)]
        simp only [value, back]

theorem parts_utf8 (s : String) : parts none (utf8 s) = s.toList.map some := by
  rw [utf8_eq]
  induction s.toList with
  | nil => rfl
  | cons c rest ih => rw [List.flatMap_cons, parts_encodeChar, ih, List.map_cons]

theorem decodeLenient_utf8 (s : String) : decodeLenient (utf8 s) = s := by
  rw [decodeLenient, parts_utf8, List.map_map]
  simp [Function.comp_def]

end PartitionEngine.Text
