import MintSale.Text.Blank
import MintSale.Text.Numeral
import MintSale.Timestamp.Basic

/-!
# Moments in writing

Moments are written by RFC 3339 in universal time, with the fewest of no, three, six or nine
fraction digits that lose nothing. Reading is more generous: blanks may stand around the numbers, a
space or a small letter may separate date and time, numbers may lack leading zeros, the offset may
be spelled `UTC` or lack its colon, and digits past the ninth of a fraction are dropped.
-/

namespace MintSale.Timestamp

/-! ## Writing -/

/-- Four digits for a common year; other years carry their sign. -/
def yearText (year : Int) : List Char :=
  if 0 ≤ year ∧ year ≤ 9999 then Numeral.padded 4 year.toNat
  else (if year < 0 then '-' else '+') :: Numeral.padded 4 year.natAbs

/-- The fraction of a second in as few groups of three digits as it takes. -/
def fractionText (nano : Nat) : List Char :=
  if nano = 0 then []
  else if nano % 1000000 = 0 then '.' :: Numeral.padded 3 (nano / 1000000)
  else if nano % 1000 = 0 then '.' :: Numeral.padded 6 (nano / 1000)
  else '.' :: Numeral.padded 9 nano

/-- The date. -/
def dateText (t : Timestamp) : List Char :=
  yearText t.date.year ++ '-' :: Numeral.padded 2 t.date.month ++ '-' :: Numeral.padded 2 t.date.day

/-- The time of day, to the second; a leap second is the sixtieth second of its minute. -/
def clockText (t : Timestamp) : List Char :=
  Numeral.padded 2 (t.second / 3600) ++ ':' :: Numeral.padded 2 (t.second / 60 % 60) ++
    ':' :: Numeral.padded 2 (t.second % 60 + t.nano / 1000000000)

/-- The written form. -/
def chars (t : Timestamp) : List Char :=
  t.dateText ++ 'T' :: t.clockText ++ fractionText (t.nano % 1000000000) ++ ['Z']

/-- The written form. -/
def toText (t : Timestamp) : String :=
  String.ofList t.chars

/-! ## Reading -/

/-- What a part of the text was read as, and the rest of it. -/
abbrev Scan (α : Type) := List Char → Option (α × List Char)

/-- One to `limit` decimal digits. -/
def digits (limit : Nat) : Scan Nat := fun cs =>
  let ds := ((cs.take limit).takeWhile fun c => (Numeral.decimalDigit? c).isSome).filterMap
    Numeral.decimalDigit?
  if ds.isEmpty then none else some (Numeral.ofDigits 10 ds, cs.drop ds.length)

/-- Blanks and then a number. -/
def number (limit : Nat) : Scan Nat := fun cs =>
  digits limit (Blank.trimStart cs)

/-- Blanks and then a number between two bounds. -/
def numberIn (low high : Nat) : Scan Nat := fun cs => do
  let (n, rest) ← number 2 cs
  if low ≤ n ∧ n ≤ high then some (n, rest) else none

/-- A year: up to four digits, or a sign and any number of digits. -/
def year : Scan Int := fun cs =>
  match Blank.trimStart cs with
  | '-' :: rest => (digits rest.length rest).map fun (n, rest) => (-(n : Int), rest)
  | '+' :: rest => (digits rest.length rest).map fun (n, rest) => ((n : Int), rest)
  | cs => (digits 4 cs).map fun (n, rest) => ((n : Int), rest)

/-- Blanks and then a mark. -/
def mark (c : Char) (cs : List Char) : Option (List Char) :=
  match Blank.trimStart cs with
  | [] => none
  | d :: rest => if d = c then some rest else none

/-- A point and the digits of a fraction, in nanoseconds; without a point nothing. -/
def fraction : Scan Nat := fun cs =>
  match cs with
  | '.' :: rest => do
    let (n, after) ← digits 9 rest
    let taken := rest.length - after.length
    some (n * Nat.pow 10 (9 - taken), after.dropWhile fun c => (Numeral.decimalDigit? c).isSome)
  | _ => some (0, cs)

/-- Two decimal digits. -/
def twoDigits : Scan Nat := fun cs =>
  match cs with
  | a :: b :: rest => do
    let high ← Numeral.decimalDigit? a
    let low ← Numeral.decimalDigit? b
    some (10 * high + low, rest)
  | _ => none

/-- Hours and minutes of an offset, in seconds, without the sign. -/
def offsetSize : Scan Nat := fun cs => do
  let (hours, rest) ← twoDigits cs
  let (minutes, rest) ← twoDigits (rest.dropWhile fun c => c == ':' || Blank.isBlank c)
  if minutes < 60 then some (hours * 3600 + minutes * 60, rest) else none

/-- The lower-case form of an ASCII letter. -/
def lower (c : Char) : Char := c.toLower

/-- The offset from universal time, in seconds. -/
def offset : Scan Int := fun cs =>
  if (cs.take 3).map lower = ['u', 't', 'c'] then some (0, cs.drop 3)
  else match cs with
    | 'Z' :: rest => some (0, rest)
    | 'z' :: rest => some (0, rest)
    | '+' :: rest => (offsetSize rest).map fun (n, rest) => ((n : Int), rest)
    | '-' :: rest => (offsetSize rest).map fun (n, rest) => (-(n : Int), rest)
    | '\u2212' :: rest => (offsetSize rest).map fun (n, rest) => (-(n : Int), rest)
    | _ => none

/-- The letter or space between date and time. -/
def separator (cs : List Char) : Option (List Char) :=
  match cs with
  | 't' :: rest => some rest
  | 'T' :: rest => some rest
  | ' ' :: rest => some rest
  | _ => none

/-- A date, a time of day and an offset. -/
def scan : Scan Timestamp := fun cs => do
  let (year, cs) ← year cs
  let cs ← mark '-' cs
  let (month, cs) ← numberIn 1 12 cs
  let cs ← mark '-' cs
  let (day, cs) ← numberIn 1 31 cs
  let cs ← separator cs
  let (hour, cs) ← numberIn 0 23 cs
  let cs ← mark ':' cs
  let (minute, cs) ← numberIn 0 59 cs
  let cs ← mark ':' cs
  let (second, cs) ← numberIn 0 60 cs
  let (nano, cs) ← fraction cs
  let (offset, cs) ← offset (Blank.trimStart cs)
  if offset.natAbs < 86400 then
    let start := hour * 3600 + minute * 60
    let t ←
      if second = 60 then ofLocal? ⟨year, month, day⟩ (start + 59) (nano + 1000000000) offset
      else ofLocal? ⟨year, month, day⟩ (start + second) nano offset
    some (t, cs)
  else none

/-- Reads a moment; nothing but blanks may follow it. -/
def ofText? (text : String) : Option Timestamp := do
  let (t, rest) ← scan text.toList
  if (Blank.trimStart rest).isEmpty then some t else none

end MintSale.Timestamp
