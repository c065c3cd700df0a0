/-!
# Spans of time

A span is a whole number of milliseconds.  From one second on it is written in
seconds, with as many decimals as it needs: `5s`, `1.5s`, `60.001s`.  Below,
it is written in milliseconds.
-/

namespace PartitionEngine.Text

/-- The milliseconds that are too many for a span, whose seconds have 64 bits. -/
def spanLimit : Nat := 18446744073709551616 * 1000

/-- The digits of a number below 1000 as three decimals, without zeros at the end. -/
def thousandths (n : Nat) : List Char :=
  ([n / 100, n / 10 % 10, n % 10].map Nat.digitChar).reverse.dropWhile (· = '0') |>.reverse

def span (ms : Nat) : String :=
  if ms = 0 then "0ns"
  else if ms < 1000 then toString ms ++ "ms"
  else match thousandths (ms % 1000) with
    | [] => toString (ms / 1000) ++ "s"
    | decimals => toString (ms / 1000) ++ "." ++ String.ofList decimals ++ "s"

end PartitionEngine.Text
