import PartitionEngine.Text.Blank

/-!
# Numerals

Decimal numerals as settings spell them: ASCII digits, with an optional `+`
and, where negative numbers are allowed, an optional `-`.  Leading zeros are
allowed.  A numeral that does not fit its width is refused.

A size is a numeral, white space allowed around it, and at most one suffix
`K`, `M` or `G` in either case that multiplies by a power of 1024.
-/

namespace PartitionEngine.Text

def digit? (c : Char) : Option Nat :=
  if '0' ≤ c ∧ c ≤ '9' then some (c.toNat - '0'.toNat) else none

/-- The number a non-empty row of digits stands for. -/
def digits? : List Char → Option Nat
  | [] => none
  | cs => cs.foldl (fun n? c => n?.bind fun n => (digit? c).map (n * 10 + ·)) (some 0)

/-- A natural number below `limit`, with an optional plus sign. -/
def parseBelow? (limit : Nat) (cs : List Char) : Option Nat :=
  (digits? (match cs with | '+' :: rest => rest | _ => cs)).filter (· < limit)

def parseUInt16? (cs : List Char) : Option UInt16 := (parseBelow? UInt16.size cs).map UInt16.ofNat

def parseUInt32? (cs : List Char) : Option UInt32 := (parseBelow? UInt32.size cs).map UInt32.ofNat

def parseWord? (cs : List Char) : Option Nat := parseBelow? UInt64.size cs

def parseInt32? : List Char → Option Int32
  | '-' :: rest => ((digits? rest).filter (· ≤ UInt32.size / 2)).map fun n => Int32.ofInt (-n)
  | cs => (parseBelow? (UInt32.size / 2) cs).map fun n => Int32.ofInt n

/-- The power of 1024 a size suffix stands for. -/
def sizeSuffix? (c : Char) : Option Nat :=
  match c.toUpper with
  | 'K' => some 1
  | 'M' => some 2
  | 'G' => some 3
  | _ => none

/-- A number of bytes of 64 bits, such as `4096`, `64K` or `1 g`. -/
def parseSize? (cs : List Char) : Option Nat :=
  let body := trim cs
  match body.getLast? with
  | none => none
  | some last =>
    let (digits, power) := match sizeSuffix? last with
      | some power => (body.dropLast, power)
      | none => (body, 0)
    ((parseWord? (trim digits)).map (· <<< (10 * power))).filter (· < UInt64.size)

end PartitionEngine.Text
