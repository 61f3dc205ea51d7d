import MintSale.Text.Numeral

/-!
# Amounts

Prices, balances and token ids: numbers below 2^128, written in decimal.
-/

namespace MintSale

/-- A number below 2^128: an amount of the smallest currency unit, or a token id. -/
structure Amount where
  toNat : Nat
  toNat_lt : toNat < 1 <<< 128
  deriving DecidableEq

namespace Amount

/-- The number as an amount, if it is small enough. -/
def ofNat? (n : Nat) : Option Amount :=
  if h : n < 1 <<< 128 then some ⟨n, h⟩ else none

instance : Inhabited Amount := ⟨⟨0, by decide⟩⟩

/-- The amount nothing. -/
def zero : Amount := ⟨0, by decide⟩

/-- Every number below 2^64 is an amount. -/
def ofUInt64 (n : UInt64) : Amount :=
  ⟨n.toNat, Nat.lt_trans n.toNat_lt (by decide)⟩

instance : LT Amount := ⟨fun a b => a.toNat < b.toNat⟩

instance (a b : Amount) : Decidable (a < b) :=
  inferInstanceAs (Decidable (a.toNat < b.toNat))

/-- The decimal numeral. -/
def toText (a : Amount) : String :=
  String.ofList (Numeral.decimal a.toNat)

/-- Reads a decimal numeral: ASCII digits, with an optional plus sign in front. -/
def ofText? (text : String) : Option Amount :=
  (Numeral.decimal? (1 <<< 128) text.toList).bind ofNat?

end Amount

end MintSale
