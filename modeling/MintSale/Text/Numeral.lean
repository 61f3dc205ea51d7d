/-!
# Positional numerals

A number as its digits in a base, most significant first, and the reader of unsigned numerals that
the settings, the chain node and the stored amounts share.
-/

namespace MintSale.Numeral

/-! ## Digits -/

/-- The digits of `n`, without leading zeros; zero is the single digit `0`. -/
def digits (base n : Nat) : List Nat :=
  if base < 2 ∨ n < base then [n] else digits base (n / base) ++ [n % base]
termination_by n
decreasing_by
  rename_i h
  exact Nat.div_lt_self (by omega) (by omega)

/-- The number that a list of digits spells. -/
def ofDigits (base : Nat) (ds : List Nat) : Nat :=
  ds.foldl (fun n d => base * n + d) 0

theorem digits_of_lt {base n : Nat} (h : n < base) : digits base n = [n] := by
  rw [digits, if_pos (Or.inr h)]

theorem digits_of_le {base n : Nat} (hb : 2 ≤ base) (h : base ≤ n) :
    digits base n = digits base (n / base) ++ [n % base] := by
  rw [digits, if_neg (by omega)]

theorem ofDigits_append_singleton (base : Nat) (ds : List Nat) (d : Nat) :
    ofDigits base (ds ++ [d]) = base * ofDigits base ds + d := by
  simp [ofDigits]

/-- Digits spell the number they were taken from. -/
theorem ofDigits_digits (base n : Nat) : ofDigits base (digits base n) = n := by
  fun_induction digits base n with
  | case1 n h => simp [ofDigits]
  | case2 n h ih =>
    rw [ofDigits_append_singleton, ih]
    exact Nat.div_add_mod n base

/-! ## Unsigned numerals -/

/-- The value of an ASCII decimal digit. -/
def decimalDigit? (c : Char) : Option Nat :=
  if '0' ≤ c ∧ c ≤ '9' then some (c.toNat - '0'.toNat) else none

/-- Drops one leading plus sign. -/
def dropPlus : List Char → List Char
  | '+' :: rest => rest
  | cs => cs

/-- Reads digits of a base, with an optional plus sign in front, as a number below a bound. A sign
alone, an empty text and any other character are refused. -/
def unsigned? (digit? : Char → Option Nat) (base bound : Nat) (cs : List Char) : Option Nat :=
  match (dropPlus cs).mapM digit? with
  | none => none
  | some [] => none
  | some (d :: ds) =>
    let n := ofDigits base (d :: ds)
    if n < bound then some n else none

/-- An unsigned decimal numeral below a bound. -/
def decimal? (bound : Nat) (cs : List Char) : Option Nat :=
  unsigned? decimalDigit? 10 bound cs

/-- The decimal digit of a number below ten. -/
def decimalChar (d : Nat) : Char :=
  Char.ofNat ('0'.toNat + d)

/-- The decimal numeral of a number. -/
def decimal (n : Nat) : List Char :=
  (digits 10 n).map decimalChar

/-- The decimal numeral padded with zeros to a width. -/
def padded (width n : Nat) : List Char :=
  let ds := decimal n
  List.replicate (width - ds.length) '0' ++ ds

end MintSale.Numeral
