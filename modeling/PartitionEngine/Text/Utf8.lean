import PartitionEngine.Bytes

/-!
# Reading UTF-8

A byte string is read as a row of parts: characters, and ill-formed parts.  An
ill-formed part is a longest prefix of some character's encoding that cannot be
continued, or a single byte that starts no character.  The lenient reading
shows every ill-formed part as U+FFFD.  The strict one allows none.
-/

namespace PartitionEngine.Text

/-- A character whose encoding has been read in part. -/
structure Pending where
  value : Nat
  /-- How many bytes are still to come. -/
  missing : Nat
  low : Nat := 0x80
  high : Nat := 0xBF

/-- What a lead byte starts: a character of one byte, a longer one, or nothing. -/
inductive Lead where
  | single (c : Char)
  | longer (p : Pending)
  | none

/-- The character a byte starts.  The range of the second byte excludes
overlong forms, surrogates and values past U+10FFFF. -/
def lead (b : UInt8) : Lead :=
  let n := b.toNat
  if n < 0x80 then .single (Char.ofNat n)
  else if n < 0xC2 then .none
  else if n < 0xE0 then .longer { value := n - 0xC0, missing := 1 }
  else if n = 0xE0 then .longer { value := 0, missing := 2, low := 0xA0 }
  else if n = 0xED then .longer { value := 0xD, missing := 2, high := 0x9F }
  else if n < 0xF0 then .longer { value := n - 0xE0, missing := 2 }
  else if n = 0xF0 then .longer { value := 0, missing := 3, low := 0x90 }
  else if n = 0xF4 then .longer { value := 4, missing := 3, high := 0x8F }
  else if n < 0xF4 then .longer { value := n - 0xF0, missing := 3 }
  else .none

/-- The parts of a byte string, given what was read before it: a character, or
`none` for an ill-formed part. -/
def parts : Option Pending → Bytes → List (Option Char)
  | none, [] => []
  | some _, [] => [none]
  | before, b :: rest =>
    match before with
    | some p =>
      if p.low ≤ b.toNat ∧ b.toNat ≤ p.high then
        let value := p.value * 64 + b.toNat % 64
        if p.missing ≤ 1 then some (Char.ofNat value) :: parts none rest
        else parts (some { value, missing := p.missing - 1 }) rest
      else
        none :: match lead b with
          | .single c => some c :: parts none rest
          | .longer q => parts (some q) rest
          | .none => none :: parts none rest
    | none =>
      match lead b with
      | .single c => some c :: parts none rest
      | .longer q => parts (some q) rest
      | .none => none :: parts none rest

/-- The text of a byte string, with U+FFFD for every ill-formed part. -/
def decodeLenient (bytes : Bytes) : String :=
  String.ofList ((parts none bytes).map (·.getD (Char.ofNat 0xFFFD)))

def decode? (bytes : Bytes) : Option String :=
  ((parts none bytes).mapM id).map String.ofList

end PartitionEngine.Text
