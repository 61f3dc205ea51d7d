import MintSale.Text.Numeral

/-!
# Hexadecimal text

Bytes are written as two lower-case digits each and read in either case. Quantities are written
without leading zeros.
-/

namespace MintSale.Hex

/-- The value of a hexadecimal digit of either case. -/
def digit? (c : Char) : Option Nat :=
  if '0' ≤ c ∧ c ≤ '9' then some (c.toNat - '0'.toNat)
  else if 'a' ≤ c ∧ c ≤ 'f' then some (c.toNat - 'a'.toNat + 10)
  else if 'A' ≤ c ∧ c ≤ 'F' then some (c.toNat - 'A'.toNat + 10)
  else none

/-- The lower-case hexadecimal digit of a number below sixteen. -/
def digitChar (d : Nat) : Char :=
  if d < 10 then Char.ofNat ('0'.toNat + d) else Char.ofNat ('a'.toNat + (d - 10))

/-! ## Bytes -/

/-- Two digits a byte, the high half first. -/
def encode : List UInt8 → List Char
  | [] => []
  | b :: rest => digitChar (b.toNat / 16) :: digitChar (b.toNat % 16) :: encode rest

/-- Reads pairs of digits; an odd digit at the end and any other character are refused. -/
def decode? : List Char → Option (List UInt8)
  | [] => some []
  | [_] => none
  | high :: low :: rest =>
    match digit? high, digit? low, decode? rest with
    | some h, some l, some bytes => some (UInt8.ofNat (16 * h + l) :: bytes)
    | _, _, _ => none

/-- The bytes of a text with `0x` in front. -/
def marked (bytes : List UInt8) : List Char :=
  '0' :: 'x' :: encode bytes

/-- Drops one `0x`. -/
def dropMark : List Char → List Char
  | '0' :: 'x' :: rest => rest
  | cs => cs

/-- Drops one `0x` or `0X`. -/
def dropAnyMark : List Char → List Char
  | '0' :: 'x' :: rest => rest
  | '0' :: 'X' :: rest => rest
  | cs => cs

/-! ## Quantities -/

/-- A number as `0x` and its digits without leading zeros. -/
def quantity (n : Nat) : List Char :=
  '0' :: 'x' :: (Numeral.digits 16 n).map digitChar

/-- Reads a quantity below a bound, with or without its `0x`. -/
def quantity? (bound : Nat) (cs : List Char) : Option Nat :=
  Numeral.unsigned? digit? 16 bound (dropMark cs)

end MintSale.Hex
