import PartitionEngine.Bytes

/-!
# Hexadecimal text

Bytes as pairs of hexadecimal digits, in lower case.  Reading also takes upper
case, and stops at the last whole pair.
-/

namespace PartitionEngine.Text

def hexPair (b : UInt8) : List Char := [Nat.digitChar (b.toNat / 16), Nat.digitChar (b.toNat % 16)]

def toHex (bytes : Bytes) : String := String.ofList (bytes.flatMap hexPair)

def hexValue (c : Char) : Nat :=
  if c.isDigit then c.toNat - '0'.toNat else c.toLower.toNat - 'a'.toNat + 10

/-- The bytes of pairs of digits, after those already read, which come last first. -/
def readHex : List Char → Bytes → Bytes
  | a :: b :: rest, done => readHex rest (UInt8.ofNat (hexValue a * 16 + hexValue b) :: done)
  | _, done => done.reverse

def ofHex (text : String) : Bytes := readHex text.toList []

end PartitionEngine.Text
