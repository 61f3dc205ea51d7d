import MintSale.Fault
import MintSale.LiveSale

/-!
# Return data

What contracts answer: words of 32 bytes, each a number. A number that does not fit where it is
wanted is refused; nothing is cut off.
-/

namespace MintSale.ReturnData

/-- The whole words of the data; a shorter rest is no word. -/
def wholeWords : (count : Nat) → List UInt8 → List Word
  | 0, _ => []
  | count + 1, bytes =>
    match Octets.ofList? (bytes.take 32) with
    | some word => word :: wholeWords count (bytes.drop 32)
    | none => []

/-- The words of data that must have at least `least` of them. -/
def words (least : Nat) (data : List UInt8) : Except AbiFault (List Word) :=
  if data.length < 32 * least then .error (.tooShort least data.length)
  else .ok (wholeWords (data.length / 32) data)

/-- A number below 2^128. -/
def amount (word : Word) : Except AbiFault Amount :=
  match Amount.ofNat? word.toNat with
  | some a => .ok a
  | none => .error .over128Bits

/-- A number below 2^64. -/
def count (word : Word) : Except AbiFault UInt64 := do
  let n := (← amount word).toNat
  if n < UInt64.size then .ok (UInt64.ofNat n) else .error (.over64Bits n)

/-- One for yes, zero for no. -/
def flag (word : Word) : Except AbiFault Bool := do
  match (← amount word).toNat with
  | 0 => .ok false
  | 1 => .ok true
  | n => .error (.notFlag n)

/-- A number below 2^8. -/
def decimals (word : Word) : Except AbiFault UInt8 := do
  let n := (← count word).toNat
  if n < UInt8.size then .ok (UInt8.ofNat n) else .error (.badDecimals n)

/-! ## Whole answers -/

/-- Data that starts with one word. -/
def single {α : Type} (value : Word → Except AbiFault α) (data : List UInt8) :
    Except AbiFault α := do
  match ← words 1 data with
  | word :: _ => value word
  | [] => .error (.tooShort 1 data.length)

/-- Whether a price is configured, and the price. -/
def priceInfo (data : List UInt8) : Except AbiFault PriceInfo := do
  match ← words 2 data with
  | configured :: price :: _ => do .ok ⟨← flag configured, ← amount price⟩
  | _ => .error (.tooShort 2 data.length)

/-- How many were sold and can be, whether the project is active and paused, and when it was
completed; zero means not yet. The time is looked at first. -/
def projectState (data : List UInt8) : Except AbiFault ProjectState := do
  match ← words 5 data with
  | invocations :: maxInvocations :: active :: paused :: completed :: _ => do
    let completed ← count completed
    .ok {
      invocations := ← count invocations
      maxInvocations := ← count maxInvocations
      active := ← flag active
      paused := ← flag paused
      completedAt := if completed = 0 then none else some completed }
  | _ => .error (.tooShort 5 data.length)

/-- Whether mints are limited, and if so how many remain. -/
def mintsRemaining (data : List UInt8) : Except AbiFault (Option UInt64) := do
  match ← words 2 data with
  | limited :: remaining :: _ => do
    if ← flag limited then
      let n ← count remaining
      .ok (some n)
    else .ok none
  | _ => .error (.tooShort 2 data.length)

end MintSale.ReturnData
