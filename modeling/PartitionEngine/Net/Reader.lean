import PartitionEngine.Net.Endpoint

/-!
# Reading addresses

A reader takes a text and gives a value and the rest of the text.  `Ip.parse?`
and `Endpoint.parse?` read a whole text.
-/

namespace PartitionEngine

namespace Ip

/-- The digits at the start of a text, in a base. -/
def leadingDigits (base : Nat) (cs : List Char) : List Nat × List Char :=
  let value? := fun c : Char =>
    let n := if c.isDigit then c.toNat - '0'.toNat
      else if 'a' ≤ c ∧ c ≤ 'f' then c.toNat - 'a'.toNat + 10
      else if 'A' ≤ c ∧ c ≤ 'F' then c.toNat - 'A'.toNat + 10
      else base
    if n < base then some n else none
  let digits := cs.takeWhile fun c => (value? c).isSome
  (digits.filterMap value?, cs.drop digits.length)

/-- A number of at most `width` digits below `limit`. -/
def readNumber (base width limit : Nat) (leadingZero : Bool) (cs : List Char) :
    Option (Nat × List Char) :=
  match leadingDigits base cs with
  | ([], _) => none
  | (digits, rest) =>
    let n := digits.foldl (fun n d => n * base + d) 0
    if digits.length > width ∨ limit ≤ n then none
    else if !leadingZero && digits.head? = some 0 && digits.length > 1 then none
    else some (n, rest)

def readChar (c : Char) : List Char → Option (List Char)
  | d :: rest => if d = c then some rest else none
  | [] => none

def readV4 (cs : List Char) : Option (UInt32 × List Char) := do
  let octet := readNumber 10 3 256 false
  let (a, cs) ← octet cs
  let (b, cs) ← octet (← readChar '.' cs)
  let (c, cs) ← octet (← readChar '.' cs)
  let (d, cs) ← octet (← readChar '.' cs)
  return (UInt32.ofNat (((a * 256 + b) * 256 + c) * 256 + d), cs)

/-- At most `room` groups with colons between them, and whether the last two
were written as a version 4 address. -/
def readGroups : (room : Nat) → (first : Bool) → List Char → List Nat × Bool × List Char
  | 0, _, cs => ([], false, cs)
  | room + 1, first, cs =>
    match if first then some cs else readChar ':' cs with
    | none => ([], false, cs)
    | some body =>
      match if room = 0 then none else readV4 body with
      | some (bits, rest) => ([bits.toNat / 65536, bits.toNat % 65536], true, rest)
      | none =>
        match readNumber 16 4 65536 true body with
        | none => ([], false, cs)
        | some (g, rest) =>
          let (gs, mapped, rest) := readGroups room false rest
          (g :: gs, mapped, rest)

def readV6 (cs : List Char) : Option (BitVec 128 × List Char) :=
  match readGroups 8 true cs with
  | (head, mapped, rest) =>
    if head.length = 8 then some (ofGroups head, rest)
    else if mapped then none
    else do
      let rest ← readChar ':' (← readChar ':' rest)
      let (tail, _, rest) := readGroups (7 - head.length) true rest
      let gap := List.replicate (8 - head.length - tail.length) 0
      return (ofGroups (head ++ gap ++ tail), rest)

def parse? (text : String) : Option Ip :=
  match readV4 text.toList with
  | some (bits, []) => some (.v4 bits)
  | _ =>
    match readV6 text.toList with
    | some (bits, []) => some (.v6 bits)
    | _ => none

end Ip

namespace Endpoint

def readPort? (cs : List Char) : Option UInt16 := do
  match ← Ip.readNumber 10 cs.length 65536 true (← Ip.readChar ':' cs) with
  | (port, []) => some (UInt16.ofNat port)
  | _ => none

def parse? (text : String) : Option Endpoint :=
  match text.toList with
  | '[' :: cs => do
    let (ip, cs) ← Ip.readV6 cs
    let (scope, cs) ← match cs with
      | '%' :: zone => Ip.readNumber 10 zone.length UInt32.size true zone
      | _ => some (0, cs)
    let port ← readPort? (← Ip.readChar ']' cs)
    return .v6 ip port 0 (UInt32.ofNat scope)
  | cs => do
    let (ip, cs) ← Ip.readV4 cs
    return .v4 ip (← readPort? cs)

end Endpoint

end PartitionEngine
