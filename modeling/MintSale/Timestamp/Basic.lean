/-!
# Moments in universal time

A moment is a day of the proleptic Gregorian calendar, a second of that day, and a fraction of it in
nanoseconds. A fraction of a whole second or more stands for a leap second after the second named.
-/

namespace MintSale

/-! ## The calendar -/

namespace Calendar

/-- Every fourth year, but of the full centuries only every fourth. -/
def isLeapYear (year : Int) : Bool :=
  year % 4 == 0 && (year % 100 != 0 || year % 400 == 0)

/-- The number of days of a month counted from one. -/
def daysInMonth (year : Int) (month : Nat) : Nat :=
  match month with
  | 2 => if isLeapYear year then 29 else 28
  | 4 | 6 | 9 | 11 => 30
  | _ => 31

end Calendar

/-- A calendar day. -/
structure Day where
  year : Int
  month : Nat
  day : Nat
  deriving DecidableEq

namespace Day

/-- The years that the calendar covers. -/
def inRange (year : Int) : Bool :=
  -262143 ≤ year && year ≤ 262142

/-- Whether the calendar has this day. -/
def isValid (d : Day) : Bool :=
  inRange d.year && 1 ≤ d.month && d.month ≤ 12 && 1 ≤ d.day &&
    d.day ≤ Calendar.daysInMonth d.year d.month

/-- The day after. -/
def next (d : Day) : Day :=
  if d.day < Calendar.daysInMonth d.year d.month then { d with day := d.day + 1 }
  else if d.month < 12 then ⟨d.year, d.month + 1, 1⟩
  else ⟨d.year + 1, 1, 1⟩

/-- The day before. -/
def previous (d : Day) : Day :=
  if 1 < d.day then { d with day := d.day - 1 }
  else if 1 < d.month then ⟨d.year, d.month - 1, Calendar.daysInMonth d.year (d.month - 1)⟩
  else ⟨d.year - 1, 12, 31⟩

/-- The order of days. -/
def lt (a b : Day) : Bool :=
  a.year < b.year || (a.year == b.year && (a.month < b.month ||
    (a.month == b.month && a.day < b.day)))

/-- A day that has come by some day has come by every later one, and is the later one only if it
is both. -/
theorem lt_of_later {now later start : Day} (hnow : now.lt start = false)
    (hlater : later.lt now = false) :
    later.lt start = false ∧ (later = start → now = start) := by
  cases now
  cases later
  cases start
  simp only [lt, Bool.or_eq_false_iff, Bool.and_eq_false_iff, decide_eq_false_iff_not,
    beq_eq_false_iff_ne, ne_eq, mk.injEq] at hnow hlater ⊢
  omega

end Day

/-! ## Moments -/

/-- A moment in universal time. -/
structure Timestamp where
  date : Day
  second : Nat
  nano : Nat
  valid : date.isValid = true ∧ second < 86400 ∧ nano < 2000000000
  deriving DecidableEq

namespace Timestamp

/-- The moment with these parts, if the calendar and the clock have it. -/
def make? (date : Day) (second nano : Nat) : Option Timestamp :=
  if h : date.isValid = true ∧ second < 86400 ∧ nano < 2000000000 then
    some ⟨date, second, nano, h⟩
  else none

/-- Whether a moment comes before another. -/
def isBefore (a b : Timestamp) : Bool :=
  a.date.lt b.date || (a.date == b.date && (a.second < b.second ||
    (a.second == b.second && a.nano < b.nano)))

/-- What has come by some moment has come by every later one. -/
theorem isBefore_of_later {now later start : Timestamp} (hnow : now.isBefore start = false)
    (hlater : later.isBefore now = false) : later.isBefore start = false := by
  simp only [isBefore, Bool.or_eq_false_iff, Bool.and_eq_false_iff, decide_eq_false_iff_not,
    beq_eq_false_iff_ne, ne_eq] at hnow hlater ⊢
  obtain ⟨hday, hsame⟩ := Day.lt_of_later hnow.1 hlater.1
  refine ⟨hday, ?_⟩
  by_cases hstart : later.date = start.date
  · have hnowStart := hsame hstart
    have htime := hnow.2.resolve_left (· hnowStart)
    have htime' := hlater.2.resolve_left (· (hstart.trans hnowStart.symm))
    omega
  · exact .inl hstart

/-- The moment with these parts on a clock that runs `offset` seconds, less than a day, ahead of
universal time. -/
def ofLocal? (date : Day) (second nano : Nat) (offset : Int) : Option Timestamp :=
  if date.isValid then
    let shifted : Int := second - offset
    if shifted < 0 then make? date.previous (shifted + 86400).toNat nano
    else if shifted < 86400 then make? date shifted.toNat nano
    else make? date.next (shifted - 86400).toNat nano
  else none

end Timestamp

end MintSale
