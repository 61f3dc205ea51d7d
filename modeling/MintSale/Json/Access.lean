import MintSale.Json.Codec

/-!
# Picking values apart

Readers for values without a fixed shape, where a missing field is the same as `null`.
-/

namespace MintSale.Json

variable {α : Type}

/-- What a reader makes of a value. -/
abbrev Reader (α : Type) := Json → Except Fault α

/-- The value under a key; a missing one is `null`. -/
def field (key : String) (j : Json) : Json :=
  (j.member? key).getD .null

/-- A string. -/
def readText : Reader String
  | .string (some s) => .ok s
  | _ => .error .mismatch

/-- True or false. -/
def readBool : Reader Bool
  | .bool b => .ok b
  | _ => .error .mismatch

/-- A number that is not negative. -/
def readNat : Reader Nat
  | .int n => if n < 0 then .error .mismatch else .ok n.toNat
  | _ => .error .mismatch

/-- A number of 64 bits. -/
def readUInt64 (j : Json) : Except Fault UInt64 := do
  .ok (UInt64.ofNat (← j.readNat))

/-- A value in its written form. -/
def readAs (c : Codec α) : Reader α :=
  c.read Codec.levels

/-- A value or `null`. -/
def readOption (read : Reader α) : Reader (Option α)
  | .null => .ok none
  | j => (read j).map some

/-- A list; `null` is the empty one. -/
def readList (read : Reader α) : Reader (List α)
  | .array items => items.mapM read
  | .null => .ok []
  | _ => .error .mismatch

/-- Values by name; `null` is no values. -/
def readNamed (read : Reader α) : Reader (List (String × α))
  | .object members => members.mapM fun (key, value) => do .ok (key.getD "", ← read value)
  | .null => .ok []
  | _ => .error .mismatch

/-- The value under a key, or another one if there is no such key. -/
def readOver (key : String) (old : α) (read : Reader α) : Reader α := fun j =>
  match j.member? key with
  | none => .ok old
  | some value => read value

/-- A value or `null`, in writing. -/
def ofOption (write : α → Json) : Option α → Json
  | none => .null
  | some a => write a

end MintSale.Json
