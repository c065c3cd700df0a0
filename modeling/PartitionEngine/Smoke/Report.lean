import PartitionEngine.Failure

/-!
# Reports of a smoke test

A smoke test has parts, and each part has checks.  Its report shows a line for
each check as it is made, then how many checks of each part passed.
-/

namespace PartitionEngine

/-- One check. -/
structure Check where
  part : Char
  name : String
  complaint : Option String

/-- The report of a smoke test. -/
structure Report where
  part : Char := 'A'
  /-- The checks made, the first one first. -/
  checks : List Check := []
  /-- The lines written, the first one first. -/
  lines : List String := []

namespace Report

/-- A text with blanks after it up to a width. -/
def padded (width : Nat) (text : String) : String :=
  text ++ String.ofList (List.replicate (width - text.length) ' ')

def write (r : Report) (line : String) : Report := { r with lines := r.lines ++ [line] }

def remark (r : Report) (text : String) : Report := r.write ("       " ++ text)

def startPart (r : Report) (part : Char) (title : String) : Report :=
  ({ r with part }.write "").write ("== Part " ++ toString part ++ ": " ++ title ++ " ==")

def ofPart (r : Report) (part : Char) : List Check := r.checks.filter fun c => c.part = part

def record (r : Report) (name : String) (complaint : Option String) : Report :=
  let number := padded 3 (toString ((r.ofPart r.part).length + 1))
  let verdict := match complaint with
    | none => "ok"
    | some reason => "FAIL: " ++ reason
  let r := { r with checks := r.checks ++ [Check.mk r.part name complaint] }
  r.write ("  " ++ toString r.part ++ number ++ " " ++ padded 48 name ++ " " ++ verdict)

def ensure (r : Report) (name : String) (holds : Bool) (reason : String) : Report :=
  r.record name (if holds then none else some reason)

def failed (r : Report) : Nat := (r.checks.filter fun c => c.complaint.isSome).length

def partSummary (r : Report) (part : Char) : String :=
  let checks := r.ofPart part
  let passed := (checks.filter fun c => c.complaint.isNone).length
  "  Part " ++ toString part ++ ": " ++ toString passed ++ "/" ++ toString checks.length

def parts (r : Report) : List Char := (r.checks.map Check.part).eraseDups

def summarize (r : Report) : Report :=
  ["", "== Summary =="] ++ r.parts.map r.partSummary ++ ["  Failed: " ++ toString r.failed]
    |>.foldl write r

end Report

end PartitionEngine
