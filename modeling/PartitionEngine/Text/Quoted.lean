/-!
# Quoted text

A text between double quotes.  A quote and a backslash inside are written with
a backslash before them, and the usual control characters by their short names.
Bytes that are no printable characters are written by their value.
-/

namespace PartitionEngine.Text

/-- A character as it stands between double quotes. -/
def escape : Char → List Char
  | '"' => ['\\', '"']
  | '\\' => ['\\', '\\']
  | '\n' => ['\\', 'n']
  | '\r' => ['\\', 'r']
  | '\t' => ['\\', 't']
  | '\x00' => ['\\', '0']
  | c => [c]

/-- A text between double quotes. -/
def quote (s : String) : String := String.ofList ('"' :: s.toList.flatMap escape ++ ['"'])

def escapeByte (b : UInt8) : List Char :=
  if 32 ≤ b ∧ b < 127 ∨ b = 0 ∨ b = 9 ∨ b = 10 ∨ b = 13 then escape (Char.ofNat b.toNat)
  else ['\\', 'x', Nat.digitChar (b.toNat / 16), Nat.digitChar (b.toNat % 16)]

def quoteBytes (bs : List UInt8) : String :=
  String.ofList ('b' :: '"' :: bs.flatMap escapeByte ++ ['"'])

end PartitionEngine.Text
