import PartitionEngine.Bytes

/-!
# Internet addresses

An address is a 32-bit or a 128-bit number.  Version 4 is written as four
decimal octets.  Version 6 is written as eight hexadecimal groups, the first of
the longest runs of two or more zero groups as `::`, and an address that maps
version 4 as `::ffff:` and that address.

`Ip.parse?` reads both.  An octet has at most three digits and no leading zero;
a group has at most four digits; the last two groups may be written as a
version 4 address.
-/

namespace PartitionEngine

/-- An internet address. -/
inductive Ip where
  | v4 (bits : UInt32)
  | v6 (bits : BitVec 128)
  deriving DecidableEq

namespace Ip

instance : Inhabited Ip := ⟨.v4 0⟩

def ofOctets (a b c d : UInt8) : Ip := .v4 (UInt32.ofNat (ofBigEndian [a, b, c, d]))

/-- The address a host reaches itself at. -/
def loopback : Ip := ofOctets 127 0 0 1

/-- The bytes of an address, most significant first. -/
def octets : Ip → Bytes
  | .v4 bits => bigEndian 4 bits.toNat
  | .v6 bits => bigEndian 16 bits.toNat

def textV4 (bits : UInt32) : String :=
  ".".intercalate ((bigEndian 4 bits.toNat).map fun b => toString b.toNat)

def groups (bits : BitVec 128) : List Nat :=
  (List.range 8).map fun i => (bits.toNat >>> (16 * (7 - i))) % 65536

def ofGroups (gs : List Nat) : BitVec 128 :=
  BitVec.ofNat 128 (gs.foldl (fun n g => n * 65536 + g) 0)

/-- The start and the length of the first longest run of zero groups. -/
def zeroRun (gs : List Nat) : Nat × Nat :=
  let lengthAt := fun i => ((gs.drop i).takeWhile (· = 0)).length
  (List.range gs.length).foldl
    (fun best i => if best.2 < lengthAt i then (i, lengthAt i) else best) (0, 0)

/-- A row of groups in hexadecimal, with colons between them. -/
def groupsText (gs : List Nat) : String :=
  ":".intercalate (gs.map fun g => String.ofList (Nat.toDigits 16 g))

def textV6 (bits : BitVec 128) : String :=
  let gs := groups bits
  if gs.take 6 = [0, 0, 0, 0, 0, 0xFFFF] then
    "::ffff:" ++ textV4 (UInt32.ofNat bits.toNat)
  else
    match zeroRun gs with
    | (start, length) =>
      if length < 2 then groupsText gs
      else groupsText (gs.take start) ++ "::" ++ groupsText (gs.drop (start + length))

def text : Ip → String
  | .v4 bits => textV4 bits
  | .v6 bits => textV6 bits

end Ip

end PartitionEngine
