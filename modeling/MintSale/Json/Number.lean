import MintSale.Json.Basic
import MintSale.Text.Numeral

/-!
# JSON numbers

A numeral is kept in a significand of 64 bits and a power of ten. Digits that the significand has no
room for only count as places, so that a numeral near the largest double-precision number is judged
by what is left of it.
-/

namespace MintSale.Json

/-! ## Rounding -/

/-- The number nearest to `n` with at most 53 significant bits. A number halfway between two goes to
the one whose last bit is zero. -/
def roundToDouble (n : Nat) : Nat :=
  let unit := 1 <<< (n.log2 + 1 - 53)
  let below := n / unit
  let rest := n % unit
  if unit < 2 * rest ∨ (unit = 2 * rest ∧ below % 2 = 1) then (below + 1) * unit else below * unit

/-- Where rounding gives more than the largest finite double-precision number. -/
def doubleBound : Nat := (1 <<< 1024) - (1 <<< 970)

/-- Whether `m * 10 ^ e` is finite in double precision, where both factors are rounded before they
are multiplied. Powers beyond the 308th are never finite. -/
def isFinite (m : Nat) (e : Int) : Bool :=
  if m = 0 ∨ e ≤ 0 then true
  else if 308 < e then false
  else roundToDouble m * roundToDouble (Nat.pow 10 e.toNat) < doubleBound

/-! ## Significands -/

/-- Appends digits to a significand as long as it fits 64 bits. Also gives the digits from the first
one that has no room. -/
def fill (m : Nat) : List Nat → Nat × List Nat
  | [] => (m, [])
  | d :: ds => if 10 * m + d < UInt64.size then fill (10 * m + d) ds else (m, d :: ds)

/-- The parts of a numeral behind its sign. -/
structure Decimal where
  whole : List Nat
  fraction : Option (List Nat)
  exponent : Option Int

/-- The value of a numeral. It is an integer if it is written as one and fits 64 bits; zero with a
minus sign is none. Whole digits without room count as places to the left of the point, and digits
of the fraction that found room as places to the right. -/
def Decimal.value (negative : Bool) (n : Decimal) : Json :=
  let (m, excess) := fill 0 n.whole
  match excess, n.fraction, n.exponent with
  | [], none, none =>
    if !negative then .int m
    else if 0 < m ∧ m ≤ 1 <<< 63 then .int (-(m : Int))
    else .real true
  | _, fraction, exponent =>
    let digits := fraction.getD []
    let (m, unread) := fill m digits
    let places : Int := (excess.length : Int) + unread.length - digits.length
    .real (isFinite m (places + exponent.getD 0))

/-! ## Reading -/

/-- The decimal digits in front of a text, and the rest. -/
def digitRun (cs : List Char) : List Nat × List Char :=
  let ds := cs.takeWhile fun c => (Numeral.decimalDigit? c).isSome
  (ds.filterMap Numeral.decimalDigit?, cs.drop ds.length)

/-- A fraction, if there is one, and the rest. A point needs a digit behind it. -/
def fraction? : List Char → Option (Option (List Nat) × List Char)
  | '.' :: rest =>
    match digitRun rest with
    | ([], _) => none
    | (ds, rest) => some (some ds, rest)
  | cs => some (none, cs)

/-- The digits of an exponent behind its sign, and the rest. -/
def magnitude? (sign : Int) (cs : List Char) : Option (Option Int × List Char) :=
  match digitRun cs with
  | ([], _) => none
  | (ds, rest) => some (some (sign * Numeral.ofDigits 10 ds), rest)

/-- An exponent, if there is one, and the rest. -/
def exponent? (cs : List Char) : Option (Option Int × List Char) :=
  let behind (rest : List Char) : Option (Option Int × List Char) :=
    match rest with
    | '+' :: rest => magnitude? 1 rest
    | '-' :: rest => magnitude? (-1) rest
    | _ => magnitude? 1 rest
  match cs with
  | 'e' :: rest => behind rest
  | 'E' :: rest => behind rest
  | _ => some (none, cs)

/-- A numeral behind its sign, and the rest. No digit may follow a leading zero. -/
def number? (negative : Bool) (cs : List Char) : Option (Json × List Char) :=
  match digitRun cs with
  | ([], _) => none
  | (0 :: _ :: _, _) => none
  | (whole, rest) => do
    let (fraction, rest) ← fraction? rest
    let (exponent, rest) ← exponent? rest
    some (Decimal.value negative ⟨whole, fraction, exponent⟩, rest)

end MintSale.Json
