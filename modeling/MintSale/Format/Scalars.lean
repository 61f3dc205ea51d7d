import MintSale.Amount
import MintSale.Json.Codec
import MintSale.Octets
import MintSale.Timestamp.Text

/-!
# Written forms of single values

Addresses, hashes and moments are strings. Amounts are strings too, since JSON numbers are often
read with less precision; a number is accepted where an amount is wanted.
-/

namespace MintSale

/-- Byte strings as strings. -/
def Octets.codec {n : Nat} : Codec (Octets n) :=
  Codec.string.through Octets.toText Octets.ofText?

/-- Moments as strings. -/
def Timestamp.codec : Codec Timestamp :=
  Codec.string.through Timestamp.toText Timestamp.ofText?

/-- Amounts as strings, read from strings and integers below 2^64. -/
def Amount.codec : Codec Amount where
  write a := .text a.toText
  read room j := do
    j.hold room
    let a : Option Amount :=
      match j with
      | .string (some s) => Amount.ofText? s
      | .int n => if 0 ≤ n ∧ n < UInt64.size then Amount.ofNat? n.toNat else none
      | _ => none
    match a with
    | some a => .ok a
    | none => .error .mismatch

end MintSale
