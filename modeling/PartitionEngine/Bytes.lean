/-!
# Bytes

Byte strings, and unsigned numerals written with the most significant byte
first.  `bigEndian width n` writes `n` modulo the number of values that `width` bytes
have, and `ofBigEndian` reads it back (`ofBigEndian_bigEndian`).
-/

namespace PartitionEngine

/-- A byte string. -/
abbrev Bytes := List UInt8

/-- The most bytes that fit into a buffer.  Whoever asks for room for more panics. -/
def maxCapacity : Nat := 9223372036854775807

/-- The number of values that `width` bytes have. -/
def valuesOf : (width : Nat) → Nat
  | 0 => 1
  | width + 1 => valuesOf width * 256

/-- The last `width` base-256 digits of `n`, most significant first. -/
def bigEndian : (width : Nat) → (n : Nat) → Bytes
  | 0, _ => []
  | width + 1, n => UInt8.ofNat (n / valuesOf width) :: bigEndian width n

/-- The last `width` base-256 digits of `n`, least significant first. -/
def littleEndian : (width : Nat) → (n : Nat) → Bytes
  | 0, _ => []
  | width + 1, n => UInt8.ofNat n :: littleEndian width (n / 256)

/-- The number whose base-256 digits are the bytes, most significant first. -/
def ofBigEndian (bytes : Bytes) : Nat := bytes.foldl (fun n b => n * 256 + b.toNat) 0

def utf8 (text : String) : Bytes := text.toUTF8.toList

@[simp] theorem length_bigEndian (width n : Nat) : (bigEndian width n).length = width := by
  induction width with
  | zero => rfl
  | succ width ih => simp [bigEndian, ih]

/-- Reading starts from any number already read. -/
theorem foldl_bigEndian (width n acc : Nat) :
    (bigEndian width n).foldl (fun n b => n * 256 + b.toNat) acc
      = acc * valuesOf width + n % valuesOf width := by
  induction width generalizing acc with
  | zero => simp [bigEndian, valuesOf, Nat.mod_one]
  | succ width ih =>
    have digit : (UInt8.ofNat (n / valuesOf width)).toNat = n / valuesOf width % 256 := by
      simp [UInt8.toNat_ofNat']
    have split : n % valuesOf (width + 1)
        = n % valuesOf width + valuesOf width * (n / valuesOf width % 256) := by
      rw [valuesOf, Nat.mod_mul]
    rw [bigEndian, List.foldl_cons, ih, digit, split, Nat.add_mul, valuesOf,
      Nat.mul_assoc, Nat.mul_comm 256 (valuesOf width),
      Nat.mul_comm (n / valuesOf width % 256)]
    omega

/-- What is written in `width` bytes is read back modulo the number of their values. -/
theorem ofBigEndian_bigEndian (width n : Nat) :
    ofBigEndian (bigEndian width n) = n % valuesOf width := by
  simpa [ofBigEndian] using foldl_bigEndian width n 0

end PartitionEngine
