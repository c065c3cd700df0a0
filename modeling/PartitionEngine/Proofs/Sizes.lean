import PartitionEngine.Text.Numeral
import Mathlib.Data.List.Basic
import Mathlib.Data.List.TakeWhile
import Mathlib.Data.Nat.Digits.Defs
import Mathlib.Data.String.Basic

/-!
# The grammar of sizes

A size is an optional plus sign, digits, and at most one letter for a power of 1024.  White
space may stand around it, and between the digits and a letter (`IsSize`).  Reading a size
accepts these texts and no others, and gives the number they stand for (`sizes_exact`).  The
content is that `trim` finds the one tight text between white space (`trim_eq`), so the last
character of what it leaves decides on the letter.

`sizeWord?` is the reading over bytes and words.  It cuts the letter off by a number of bytes,
and computes in words of 64 bits.  It gives up if it would cut inside a character, or if a
length or a unit does not fit its word.  It never gives up, and it comes to the same.
-/

namespace PartitionEngine.Text

variable {cs body digits lead trail gap sign unit : List Char} {c : Char} {n v power : Nat}

/-! ## White space -/

def Blank (cs : List Char) : Prop := ∀ c ∈ cs, isBlank c = true

/-- A text that neither starts nor ends with white space. -/
structure Tight (cs : List Char) : Prop where
  head : ∀ c, cs.head? = some c → isBlank c = false
  last : ∀ c, cs.getLast? = some c → isBlank c = false

theorem dropWhile_blank (blank : Blank lead) (head : ∀ c, body.head? = some c → isBlank c = false) :
    (lead ++ body).dropWhile isBlank = body := by
  rw [List.dropWhile_append_of_pos blank]
  cases body with
  | nil => rfl
  | cons c body => exact List.dropWhile_cons_of_neg (by simp [head c rfl])

theorem trimEnd_eq (blank : Blank trail) (last : ∀ c, body.getLast? = some c → isBlank c = false) :
    trimEnd (body ++ trail) = body := by
  have blank : Blank trail.reverse := fun c mem => blank c (List.mem_reverse.mp mem)
  rw [trimEnd, List.reverse_append, dropWhile_blank blank, List.reverse_reverse]
  simpa using last

/-- Trimming gives the tight text between white space. -/
theorem trim_eq (before : Blank lead) (after : Blank trail) (tight : Tight body) :
    trim (lead ++ body ++ trail) = body := by
  rw [trim, List.append_assoc]
  cases body with
  | nil =>
    have blank : Blank (lead ++ trail) := List.forall_mem_append.mpr ⟨before, after⟩
    have none : (lead ++ trail ++ []).dropWhile isBlank = [] := dropWhile_blank blank nofun
    rw [List.append_nil] at none
    rw [List.nil_append, none]
    rfl
  | cons c body =>
    rw [dropWhile_blank before (by simpa using tight.head)]
    exact trimEnd_eq after tight.last

theorem exists_trimEnd (cs : List Char) : ∃ trail, Blank trail ∧ cs = trimEnd cs ++ trail := by
  refine ⟨(cs.reverse.takeWhile isBlank).reverse, ?_, ?_⟩
  · intro c mem
    exact List.mem_takeWhile_imp (List.mem_reverse.mp mem)
  · rw [trimEnd, ← List.reverse_append, List.takeWhile_append_dropWhile, List.reverse_reverse]

theorem tight_trim (cs : List Char) : Tight (trim cs) where
  head c first := by
    have solid := List.head?_dropWhile_not isBlank cs
    obtain ⟨trail, -, parts⟩ := exists_trimEnd (cs.dropWhile isBlank)
    rw [parts, ← trim, List.head?_append, first] at solid
    exact solid
  last c ends := by
    have solid := List.head?_dropWhile_not isBlank (cs.dropWhile isBlank).reverse
    rw [trim, trimEnd, List.getLast?_reverse] at ends
    rw [ends] at solid
    exact solid

theorem exists_trim (cs : List Char) :
    ∃ lead trail, Blank lead ∧ Blank trail ∧ cs = lead ++ trim cs ++ trail := by
  obtain ⟨trail, after, parts⟩ := exists_trimEnd (cs.dropWhile isBlank)
  refine ⟨cs.takeWhile isBlank, trail, fun c mem => List.mem_takeWhile_imp mem, after, ?_⟩
  rw [List.append_assoc, trim, ← parts, List.takeWhile_append_dropWhile]

/-! ## Numerals -/

/-- The number that a row of decimal digits stands for. -/
def decimal (digits : List Char) : Nat :=
  Nat.ofDigits 10 (digits.reverse.map fun c => c.toNat - '0'.toNat)

theorem decimal_cons (c : Char) (digits : List Char) :
    decimal (c :: digits) = (c.toNat - '0'.toNat) * 10 ^ digits.length + decimal digits := by
  rw [decimal, List.reverse_cons, List.map_append, Nat.ofDigits_append, List.length_map,
    List.length_reverse, List.map_singleton, Nat.ofDigits_singleton, Nat.mul_comm, Nat.add_comm,
    ← decimal]

theorem range_of_digit (digit : c.isDigit = true) : 48 ≤ c.toNat ∧ c.toNat ≤ 57 := by
  rw [Char.isDigit, Bool.and_eq_true, decide_eq_true_eq, decide_eq_true_eq] at digit
  exact digit

theorem digit?_eq (c : Char) :
    digit? c = if c.isDigit then some (c.toNat - '0'.toNat) else none := by
  have same : ('0' ≤ c ∧ c ≤ '9') ↔ c.isDigit = true := by
    simp only [Char.isDigit, Bool.and_eq_true, decide_eq_true_eq]
    exact Iff.rfl
  rw [digit?, if_congr same rfl rfl]

/-- A step of the reading of digits. -/
def nextDigit (n? : Option Nat) (c : Char) : Option Nat :=
  n?.bind fun n => (digit? c).map (n * 10 + ·)

theorem foldl_nextDigit_none (cs : List Char) : cs.foldl nextDigit none = none := by
  induction cs with
  | nil => rfl
  | cons c cs ih => exact ih

theorem nextDigit_some (n : Nat) (c : Char) : nextDigit (some n) c
    = if c.isDigit then some (n * 10 + (c.toNat - '0'.toNat)) else none := by
  rw [nextDigit, Option.bind_some, digit?_eq]
  split <;> rfl

theorem foldl_nextDigit (n : Nat) (cs : List Char) : cs.foldl nextDigit (some n)
    = if cs.all Char.isDigit then some (n * 10 ^ cs.length + decimal cs) else none := by
  induction cs generalizing n with
  | nil => simp [decimal]
  | cons c cs ih =>
    rw [List.foldl_cons, nextDigit_some, List.all_cons]
    by_cases digit : c.isDigit = true
    · simp only [digit, if_true, ih, Bool.true_and, decimal_cons, List.length_cons]
      refine if_congr Iff.rfl (congrArg some ?_) rfl
      rw [pow_succ', Nat.add_mul, Nat.mul_assoc, Nat.add_assoc]
    · simp [digit, foldl_nextDigit_none]

theorem digits?_eq_some_iff : digits? cs = some n
    ↔ cs ≠ [] ∧ (∀ c ∈ cs, c.isDigit = true) ∧ n = decimal cs := by
  cases cs with
  | nil => simp [digits?]
  | cons c cs =>
    have read : digits? (c :: cs) = (c :: cs).foldl nextDigit (some 0) := rfl
    rw [read, foldl_nextDigit, Nat.zero_mul, Nat.zero_add, ← List.all_eq_true]
    split
    · next all =>
      rw [Option.some.injEq, and_iff_right (List.cons_ne_nil c cs), and_iff_right all]
      exact eq_comm
    · next other => simp only [reduceCtorEq, other, false_and, and_false]

/-- The sign of a numeral, if it has one. -/
def Sign (sign : List Char) : Prop := sign = [] ∨ sign = ['+']

/-- A numeral is a sign, if any, and a row of digits whose number is a word. -/
theorem parseWord?_eq_some_iff : parseWord? cs = some n
    ↔ ∃ sign digits, cs = sign ++ digits ∧ Sign sign ∧ digits ≠ []
      ∧ (∀ c ∈ digits, c.isDigit = true) ∧ n = decimal digits ∧ n < 2 ^ 64 := by
  have reads (digits : List Char) : (digits? digits).filter (fun n => decide (n < UInt64.size))
      = some n ↔ digits ≠ [] ∧ (∀ c ∈ digits, c.isDigit = true) ∧ n = decimal digits
        ∧ n < 2 ^ 64 := by
    rw [Option.filter_eq_some_iff, decide_eq_true_eq, digits?_eq_some_iff]
    simp only [and_assoc]
    exact Iff.rfl
  constructor
  · intro read
    unfold parseWord? parseBelow? at read
    split at read
    · exact ⟨['+'], _, rfl, .inr rfl, (reads _).mp read⟩
    · exact ⟨[], cs, rfl, .inl rfl, (reads _).mp read⟩
  · rintro ⟨sign, digits, rfl, rfl | rfl, numeral⟩
    · have read := (reads digits).mpr numeral
      rw [List.nil_append]
      unfold parseWord? parseBelow?
      split
      · next rest =>
        have plus : '+'.isDigit = true := numeral.2.1 '+' List.mem_cons_self
        cases plus
      · exact read
    · exact (reads digits).mpr numeral

/-! ## The grammar -/

/-- The letters for the powers of 1024. -/
def letters : List (Char × Nat) :=
  [('k', 1), ('K', 1), ('m', 2), ('M', 2), ('g', 3), ('G', 3)]

/-- What may stand behind the digits of a size, with the power of 1024 it stands for. -/
inductive IsUnit : List Char → Nat → Prop where
  | none : IsUnit [] 0
  | letter {gap : List Char} {c : Char} {power : Nat} :
      Blank gap → (c, power) ∈ letters → IsUnit (gap ++ [c]) power

/-- A text is a size, and stands for a number of bytes. -/
inductive IsSize : List Char → Nat → Prop where
  | intro {lead sign digits unit trail : List Char} {power : Nat} :
      Blank lead → Sign sign → digits ≠ [] → (∀ c ∈ digits, c.isDigit = true) →
      decimal digits < 2 ^ 64 → IsUnit unit power → decimal digits * 1024 ^ power < 2 ^ 64 →
      Blank trail →
      IsSize (lead ++ (sign ++ digits ++ unit) ++ trail) (decimal digits * 1024 ^ power)

/-- A capital is what it and its small letter become. -/
theorem toUpper_eq {capital small : Char} (capitals : 65 ≤ capital.toNat ∧ capital.toNat ≤ 90)
    (pair : small.toNat = capital.toNat + 32) : c.toUpper = capital ↔ c = small ∨ c = capital := by
  have lower : ('a'.val ≤ c.val ∧ c.val ≤ 'z'.val) ↔ 97 ≤ c.toNat ∧ c.toNat ≤ 122 := Iff.rfl
  delta Char.toUpper
  simp only [← Char.toNat_inj, lower]
  split
  · have down : ('A'.val - 'a'.val).toNat = 2 ^ 32 - 32 := by decide
    have value : (c.val + ('A'.val - 'a'.val)).toNat = c.toNat - 32 := by
      rw [UInt32.toNat_add, down, Char.toNat_val]
      omega
    show (c.val + ('A'.val - 'a'.val)).toNat = _ ↔ _
    omega
  · omega

/-- The suffixes are the letters. -/
theorem sizeSuffix?_eq_some_iff : sizeSuffix? c = some power ↔ (c, power) ∈ letters := by
  have kilo : c.toUpper = 'K' ↔ c = 'k' ∨ c = 'K' := toUpper_eq (by decide) (by decide)
  have mega : c.toUpper = 'M' ↔ c = 'm' ∨ c = 'M' := toUpper_eq (by decide) (by decide)
  have giga : c.toUpper = 'G' ↔ c = 'g' ∨ c = 'G' := toUpper_eq (by decide) (by decide)
  simp only [letters, List.mem_cons, Prod.mk.injEq, List.not_mem_nil, or_false]
  constructor
  · intro suffix
    rw [sizeSuffix?] at suffix
    split at suffix <;> cases suffix
    · next upper => rcases kilo.mp upper with rfl | rfl <;> simp
    · next upper => rcases mega.mp upper with rfl | rfl <;> simp
    · next upper => rcases giga.mp upper with rfl | rfl <;> simp
  · rintro (⟨rfl, rfl⟩ | ⟨rfl, rfl⟩ | ⟨rfl, rfl⟩ | ⟨rfl, rfl⟩ | ⟨rfl, rfl⟩ | ⟨rfl, rfl⟩) <;> rfl

/-- A letter is one byte, and neither white space nor a digit. -/
theorem letter_spec (letter : (c, power) ∈ letters) :
    c.utf8Size = 1 ∧ isBlank c = false ∧ c.isDigit = false ∧ power ≤ 3 := by
  simp only [letters, List.mem_cons, Prod.mk.injEq, List.not_mem_nil, or_false] at letter
  rcases letter with ⟨rfl, rfl⟩ | ⟨rfl, rfl⟩ | ⟨rfl, rfl⟩ | ⟨rfl, rfl⟩ | ⟨rfl, rfl⟩ | ⟨rfl, rfl⟩ <;>
    decide

/-! ## Reading sizes -/

theorem not_blank_of_digit (digit : c.isDigit = true) : isBlank c = false := by
  have range := range_of_digit digit
  simp [isBlank, blankRanges]
  omega

/-- What the digits and the power of a size come to. -/
def scale? (digits : List Char) (power : Nat) : Option Nat :=
  ((parseWord? (trim digits)).map (· <<< (10 * power))).filter (· < UInt64.size)

theorem scale?_eq_some_iff : scale? digits power = some v ↔ ∃ n, parseWord? (trim digits) = some n
    ∧ v = n * 1024 ^ power ∧ n * 1024 ^ power < 2 ^ 64 := by
  have shift (n : Nat) : n <<< (10 * power) = n * 1024 ^ power := by
    rw [Nat.shiftLeft_eq, Nat.pow_mul]
  simp only [scale?, Option.filter_eq_some_iff, Option.map_eq_some_iff, decide_eq_true_eq, shift]
  constructor
  · rintro ⟨⟨n, read, rfl⟩, below⟩
    exact ⟨n, read, rfl, below⟩
  · rintro ⟨n, read, rfl, below⟩
    exact ⟨⟨n, read, rfl⟩, below⟩

/-- Without white space around it, a size is what its last character makes of it. -/
theorem parseSize?_eq (cs : List Char) : parseSize? cs = match (trim cs).getLast? with
    | none => none
    | some last => match sizeSuffix? last with
      | some power => scale? (trim cs).dropLast power
      | none => scale? (trim cs) 0 := by
  rw [parseSize?]
  cases (trim cs).getLast? with
  | none => rfl
  | some last =>
    dsimp only
    cases sizeSuffix? last <;> rfl

/-- A numeral is tight. -/
theorem tight_numeral (signed : Sign sign) (some : digits ≠ [])
    (all : ∀ c ∈ digits, c.isDigit = true) : Tight (sign ++ digits) where
  head c first := by
    rcases signed with rfl | rfl
    · exact not_blank_of_digit (all c (List.mem_of_head? first))
    · cases first
      rfl
  last c ends := by
    obtain ⟨front, last, rfl⟩ := (List.eq_nil_or_concat' digits).resolve_left some
    rw [← List.append_assoc, List.getLast?_concat, Option.some.injEq] at ends
    exact not_blank_of_digit (all c (by simp [ends]))

/-- A text that starts like a tight one and ends in a letter is tight. -/
theorem tight_letter {front : List Char} (tight : Tight front) (some : front ≠ [])
    (letter : (c, power) ∈ letters) (gap : List Char) : Tight (front ++ (gap ++ [c])) where
  head first is := by
    obtain ⟨start, rest, rfl⟩ := List.exists_cons_of_ne_nil some
    exact tight.head first is
  last last is := by
    rw [← List.append_assoc, List.getLast?_concat, Option.some.injEq] at is
    exact is ▸ (letter_spec letter).2.1

theorem trim_of_tight (tight : Tight body) : trim body = body := by
  have bare : trim ([] ++ body ++ []) = body := trim_eq nofun nofun tight
  rwa [List.append_nil] at bare

/-- The front of a tight text is tight but for white space at its end. -/
theorem exists_trim_front {front rest : List Char} (tight : Tight (front ++ rest)) :
    ∃ gap, Blank gap ∧ front = trim front ++ gap := by
  obtain ⟨lead, gap, before, after, parts⟩ := exists_trim front
  cases lead with
  | nil => exact ⟨gap, after, parts⟩
  | cons c lead =>
    have solid : isBlank c = false := tight.head c (by rw [parts]; rfl)
    cases solid.symm.trans (before c List.mem_cons_self)

/-- A size with a letter is a numeral and the unit. -/
theorem isSize_of_letter {front : List Char} (ends : trim cs = front ++ [c])
    (letter : (c, power) ∈ letters) (read : scale? front power = some v) : IsSize cs v := by
  obtain ⟨n, numeral, rfl, below⟩ := scale?_eq_some_iff.mp read
  obtain ⟨sign, digits, parts, signed, some, all, rfl, word⟩ := parseWord?_eq_some_iff.mp numeral
  obtain ⟨gap, blank, split⟩ := exists_trim_front (ends ▸ tight_trim cs)
  obtain ⟨lead, trail, before, after, whole⟩ := exists_trim cs
  rw [whole, ends, split, parts, List.append_assoc _ gap]
  exact .intro before signed some all word (.letter blank letter) below after

theorem isSize_of_numeral (read : scale? (trim cs) 0 = some v) : IsSize cs v := by
  obtain ⟨n, numeral, rfl, below⟩ := scale?_eq_some_iff.mp read
  rw [trim_of_tight (tight_trim cs)] at numeral
  obtain ⟨sign, digits, parts, signed, some, all, rfl, word⟩ := parseWord?_eq_some_iff.mp numeral
  obtain ⟨lead, trail, before, after, whole⟩ := exists_trim cs
  rw [whole, parts, ← List.append_nil (sign ++ digits)]
  exact .intro before signed some all word .none below after

theorem parseSize?_of_isSize (size : IsSize cs v) : parseSize? cs = some v := by
  obtain ⟨before, signed, some, all, word, unit, below, after⟩ := size
  rename_i lead sign digits unit trail power
  have numeral := tight_numeral signed some all
  have filled : sign ++ digits ≠ [] := List.append_ne_nil_of_right_ne_nil _ some
  have read : parseWord? (sign ++ digits) = .some (decimal digits) :=
    parseWord?_eq_some_iff.mpr ⟨sign, digits, rfl, signed, some, all, rfl, word⟩
  rw [parseSize?_eq]
  cases unit with
  | none =>
    obtain ⟨front, last, rfl⟩ := (List.eq_nil_or_concat' digits).resolve_left some
    have no_letter : sizeSuffix? last = .none := by
      rw [Option.eq_none_iff_forall_ne_some]
      intro power suffix
      have letter := letter_spec (sizeSuffix?_eq_some_iff.mp suffix)
      cases letter.2.2.1.symm.trans (all last (by simp))
    rw [List.append_nil, trim_eq before after numeral, ← List.append_assoc, List.getLast?_concat]
    dsimp only
    rw [no_letter, List.append_assoc]
    exact scale?_eq_some_iff.mpr ⟨_, by rw [trim_of_tight numeral, read], rfl, below⟩
  | @letter gap c power blank letter =>
    have tight := tight_letter numeral filled letter gap
    have inner : trim (sign ++ digits ++ gap) = sign ++ digits := by
      show trim ([] ++ (sign ++ digits) ++ gap) = sign ++ digits
      exact trim_eq nofun blank numeral
    rw [trim_eq before after tight, ← List.append_assoc, List.getLast?_concat]
    dsimp only
    rw [sizeSuffix?_eq_some_iff.mpr letter, List.dropLast_concat]
    exact scale?_eq_some_iff.mpr ⟨_, by rw [inner, read], rfl, below⟩

/-- Reading accepts the sizes of the grammar, and no other text. -/
theorem parseSize?_eq_some_iff : parseSize? cs = some v ↔ IsSize cs v := by
  refine ⟨fun read => ?_, parseSize?_of_isSize⟩
  rw [parseSize?_eq] at read
  split at read
  · cases read
  · next last ends =>
    obtain ⟨front, parts⟩ := List.getLast?_eq_some_iff.mp ends
    split at read
    · next power suffix =>
      rw [parts, List.dropLast_concat] at read
      exact isSize_of_letter parts (sizeSuffix?_eq_some_iff.mp suffix) read
    · exact isSize_of_numeral read

/-! ## Reading in bytes and words -/

/-- The first bytes of a text, if it can be cut behind them. -/
def cut? : List Char → (bytes : Nat) → Option (List Char)
  | _, 0 => some []
  | [], _ + 1 => none
  | c :: cs, bytes =>
    if c.utf8Size ≤ bytes then (cut? cs (bytes - c.utf8Size)).map (c :: ·) else none

/-- A text without its last byte, if it has one and can be cut before it. -/
def cutLast? (cs : List Char) : Option (List Char) :=
  if 1 ≤ String.utf8Len cs then cut? cs (String.utf8Len cs - 1) else none

def product? (a b : UInt64) : Option UInt64 :=
  if a.toNat * b.toNat < UInt64.size then some (a * b) else none

def sum? (a b : UInt64) : Option UInt64 :=
  if a.toNat + b.toNat < UInt64.size then some (a + b) else none

/-- A word with a single bit, if there is that bit. -/
def bit? (shift : Nat) : Option UInt64 :=
  if shift < 64 then some (1 <<< UInt64.ofNat shift) else none

/-- The word that digits stand for behind those that were read. -/
def digitsWord? : (read : UInt64) → List Char → Option UInt64
  | read, [] => some read
  | read, c :: cs => do
    let tens ← product? read 10
    let digit ← digit? c
    digitsWord? (← sum? tens (UInt64.ofNat digit)) cs

def numeralWord? (cs : List Char) : Option UInt64 :=
  let digits := match cs with
    | '+' :: rest => rest
    | _ => cs
  if digits.isEmpty then none else digitsWord? 0 digits

/-- The bit that a suffix moves the lowest bit to. -/
def shift? (c : Char) : Option Nat :=
  match c.toUpper with
  | 'K' => some 10
  | 'M' => some 20
  | 'G' => some 30
  | _ => none

def scaleWord? (digits : List Char) (shift : Nat) : Option (Option UInt64) :=
  match numeralWord? (trim digits) with
  | none => some none
  | some n => (bit? shift).map (product? n)

/-- The reading of a size over bytes and words.  `none` if it gives up. -/
def sizeWord? (cs : List Char) : Option (Option UInt64) :=
  match (trim cs).getLast? with
  | none => some none
  | some last =>
    match shift? last with
    | some shift => (cutLast? (trim cs)).bind (scaleWord? · shift)
    | none => scaleWord? (trim cs) 0

theorem cut?_append (front rest : List Char) :
    cut? (front ++ rest) (String.utf8Len front) = some front := by
  induction front with
  | nil => exact cut?.eq_1 _
  | cons c front ih =>
    have positive := c.utf8Size_pos
    rw [String.utf8Len_cons, List.cons_append, cut?, if_pos (Nat.le_add_left ..),
      Nat.add_sub_cancel, ih]
    · rfl
    · omega

/-- The last byte is a letter by itself. -/
theorem cutLast?_letter (letter : (c, power) ∈ letters) (front : List Char) :
    cutLast? (front ++ [c]) = some front := by
  have length : String.utf8Len (front ++ [c]) = String.utf8Len front + 1 := by
    rw [String.utf8Len_append, String.utf8Len_cons, (letter_spec letter).1]
    rfl
  rw [cutLast?, length, if_pos (Nat.le_add_left ..), Nat.add_sub_cancel, cut?_append]

theorem product?_eq_some_iff {a b p : UInt64} :
    product? a b = some p ↔ p.toNat = a.toNat * b.toNat := by
  rw [product?]
  split
  · next word =>
    rw [Option.some.injEq, ← UInt64.toNat_inj, UInt64.toNat_mul, Nat.mod_eq_of_lt word, eq_comm]
  · next wide =>
    refine ⟨nofun, fun same => absurd ?_ wide⟩
    exact same ▸ p.toNat_lt

theorem sum?_eq_some_iff {a b p : UInt64} : sum? a b = some p ↔ p.toNat = a.toNat + b.toNat := by
  rw [sum?]
  split
  · next word =>
    rw [Option.some.injEq, ← UInt64.toNat_inj, UInt64.toNat_add, Nat.mod_eq_of_lt word, eq_comm]
  · next wide =>
    refine ⟨nofun, fun same => absurd ?_ wide⟩
    exact same ▸ p.toNat_lt

theorem exists_word {w : UInt64} (below : n ≤ w.toNat) : ∃ word : UInt64, word.toNat = n :=
  ⟨.ofNat n, UInt64.toNat_ofNat_of_lt' (Nat.lt_of_le_of_lt below w.toNat_lt)⟩

/-- Digits are read as a word exactly if their number is one.  No step before leaves the word,
for the numbers on the way only grow. -/
theorem digitsWord?_eq_some_iff {read w : UInt64} : digitsWord? read cs = some w
    ↔ (∀ c ∈ cs, c.isDigit = true) ∧ w.toNat = read.toNat * 10 ^ cs.length + decimal cs := by
  induction cs generalizing read with
  | nil =>
    have none : decimal [] = 0 := rfl
    rw [digitsWord?, Option.some.injEq, List.length_nil, Nat.pow_zero, Nat.mul_one, none,
      Nat.add_zero, ← UInt64.toNat_inj, and_iff_right nofun, eq_comm]
  | cons c cs ih =>
    have ten : (10 : UInt64).toNat = 10 := rfl
    have value (digit : c.isDigit = true) : (UInt64.ofNat (c.toNat - '0'.toNat)).toNat
        = c.toNat - '0'.toNat := by
      have range := range_of_digit digit
      exact UInt64.toNat_ofNat_of_lt' (show _ < 2 ^ 64 by omega)
    simp only [digitsWord?, Option.bind_eq_bind, Option.bind_eq_some_iff, product?_eq_some_iff,
      sum?_eq_some_iff, digit?_eq, Option.ite_none_right_eq_some, Option.some.injEq, ih,
      List.forall_mem_cons, decimal_cons, List.length_cons, ten, pow_succ']
    generalize c.toNat - '0'.toNat = d at value
    have step (n : Nat) : (n * 10 + d) * 10 ^ cs.length + decimal cs
        = n * (10 * 10 ^ cs.length) + (d * 10 ^ cs.length + decimal cs) := by
      rw [Nat.add_mul, Nat.mul_assoc, Nat.add_assoc]
    constructor
    · rintro ⟨tens, tens_eq, _, ⟨digit, rfl⟩, next, next_eq, all, total⟩
      rw [value digit, tens_eq] at next_eq
      exact ⟨⟨digit, all⟩, by rw [total, next_eq, step]⟩
    · rintro ⟨⟨digit, all⟩, total⟩
      rw [← step] at total
      have grows : read.toNat * 10 + d ≤ w.toNat := by
        rw [total]
        exact Nat.le_trans (Nat.le_mul_of_pos_right _ (Nat.pow_pos (by decide)))
          (Nat.le_add_right ..)
      obtain ⟨tens, tens_eq⟩ := exists_word (show read.toNat * 10 ≤ w.toNat by omega)
      obtain ⟨next, next_eq⟩ := exists_word grows
      exact ⟨tens, tens_eq, d, ⟨digit, rfl⟩, next, by rw [next_eq, tens_eq, value digit], all,
        by rw [total, next_eq]⟩

theorem numeralWord?_eq_some_iff {w : UInt64} :
    numeralWord? cs = some w ↔ parseWord? cs = some w.toNat := by
  have zero : (0 : UInt64).toNat = 0 := rfl
  have reads (digits : List Char) : (if digits.isEmpty then none else digitsWord? 0 digits) = some w
      ↔ (digits? digits).filter (fun n => decide (n < UInt64.size)) = some w.toNat := by
    rw [Option.filter_eq_some_iff, decide_eq_true_eq, digits?_eq_some_iff,
      and_iff_left (show w.toNat < UInt64.size from w.toNat_lt), Option.ite_none_left_eq_some,
      digitsWord?_eq_some_iff, List.isEmpty_iff, zero, Nat.zero_mul, Nat.zero_add]
  exact reads (match cs with
    | '+' :: rest => rest
    | _ => cs)

theorem toNat_numeralWord? (cs : List Char) :
    (numeralWord? cs).map UInt64.toNat = parseWord? cs := by
  refine Option.ext fun n => ?_
  simp only [Option.map_eq_some_iff, numeralWord?_eq_some_iff]
  constructor
  · rintro ⟨w, read, rfl⟩
    exact read
  · intro read
    obtain ⟨-, -, -, -, -, -, -, word⟩ := parseWord?_eq_some_iff.mp read
    have value : (UInt64.ofNat n).toNat = n := UInt64.toNat_ofNat_of_lt' word
    exact ⟨.ofNat n, by rw [value, read], value⟩

theorem shift?_eq (c : Char) : shift? c = (sizeSuffix? c).map (10 * ·) := by
  rw [shift?, sizeSuffix?]
  split <;> simp [*]

theorem toNat_bit? (small : power ≤ 3) :
    ∃ unit, bit? (10 * power) = some unit ∧ unit.toNat = 1024 ^ power := by
  obtain rfl | rfl | rfl | rfl : power = 0 ∨ power = 1 ∨ power = 2 ∨ power = 3 := by omega
  all_goals exact ⟨_, rfl, rfl⟩

/-- The product of a number and a unit is found in words, or found not to be one. -/
theorem scaleWord?_eq (small : power ≤ 3) (digits : List Char) : ∃ w?,
    scaleWord? digits (10 * power) = some w? ∧ w?.map UInt64.toNat = scale? digits power := by
  obtain ⟨unit, bit, value⟩ := toNat_bit? small
  have numeral := toNat_numeralWord? (trim digits)
  rw [scaleWord?, bit]
  cases read : numeralWord? (trim digits) with
  | none =>
    rw [read] at numeral
    refine ⟨none, rfl, ?_⟩
    rw [scale?, ← numeral]
    rfl
  | some n =>
    rw [read] at numeral
    refine ⟨product? n unit, rfl, Option.ext fun v => ?_⟩
    rw [scale?_eq_some_iff, ← numeral, Option.map_eq_some_iff]
    simp only [product?_eq_some_iff, value, Option.map_some, Option.some.injEq]
    constructor
    · rintro ⟨p, product, rfl⟩
      exact ⟨_, rfl, product, product ▸ p.toNat_lt⟩
    · rintro ⟨_, rfl, rfl, below⟩
      exact ⟨.ofNat _, UInt64.toNat_ofNat_of_lt' below, UInt64.toNat_ofNat_of_lt' below⟩

theorem sizeWord?_eq (cs : List Char) :
    ∃ w?, sizeWord? cs = some w? ∧ w?.map UInt64.toNat = parseSize? cs := by
  rw [sizeWord?, parseSize?_eq]
  cases ends : (trim cs).getLast? with
  | none => exact ⟨none, rfl, rfl⟩
  | some last =>
    obtain ⟨front, parts⟩ := List.getLast?_eq_some_iff.mp ends
    dsimp only
    rw [shift?_eq]
    cases suffix : sizeSuffix? last with
    | none => exact scaleWord?_eq (Nat.zero_le 3) (trim cs)
    | some power =>
      have letter := sizeSuffix?_eq_some_iff.mp suffix
      rw [parts, List.dropLast_concat, Option.map_some]
      dsimp only
      rw [cutLast?_letter letter, Option.bind_some]
      exact scaleWord?_eq (letter_spec letter).2.2.2 front

/-- A text is read as a size exactly if it is one in the grammar, and as the number that it
stands for there.  The reading over bytes and words never cuts inside a character, never leaves
a word without noticing, and comes to the same. -/
theorem sizes_exact (s : String) : (∀ v, parseSize? s.toList = some v ↔ IsSize s.toList v)
    ∧ ∃ w?, sizeWord? s.toList = some w? ∧ w?.map UInt64.toNat = parseSize? s.toList :=
  ⟨fun _ => parseSize?_eq_some_iff, sizeWord?_eq s.toList⟩

end PartitionEngine.Text
