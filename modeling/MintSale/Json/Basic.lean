/-!
# JSON values

The values that a JSON text spells. A text that stops being JSON still spells a value up to that
point: the rest of it is the value `torn`, and a reader that never gets that far does not notice.
-/

namespace MintSale

/-- A JSON value. A string or key is `none` when an escape in it names half a surrogate pair: the
text is JSON then, but spells no string. -/
inductive Json where
  | null
  | bool (b : Bool)
  /-- A numeral without fraction and exponent that fits 64 bits, signed or not. -/
  | int (n : Int)
  /-- Any other numeral, and whether a double-precision number is large enough for it. -/
  | real (finite : Bool)
  | string (s : Option String)
  | array (items : List Json)
  | object (members : List (Option String × Json))
  /-- The point where a text breaks off or stops being JSON. -/
  | torn
  deriving Inhabited

namespace Json

/-- A string. -/
def text (s : String) : Json :=
  .string (some s)

/-- An object with the given members, in order. -/
def record (members : List (String × Json)) : Json :=
  .object (members.map fun (key, value) => (some key, value))

/-- A number. -/
def nat (n : Nat) : Json :=
  .int n

/-- The value of the first member with a key. -/
def member? (key : String) : Json → Option Json
  | .object members => members.lookup (some key)
  | _ => none

/-- Why a text does not give the value that is wanted: it is not JSON, or not of the right shape. -/
inductive Fault where
  | malformed
  | mismatch
  deriving DecidableEq

/-! ## Values that nobody looks at -/

mutual

/-- Passes over a value. All that can go wrong is that the text is torn. -/
def skip : Json → Except Fault Unit
  | .torn => .error .malformed
  | .array items => skipItems items
  | .object members => skipMembers members
  | _ => .ok ()

def skipItems : List Json → Except Fault Unit
  | [] => .ok ()
  | item :: rest => do skip item; skipItems rest

def skipMembers : List (Option String × Json) → Except Fault Unit
  | [] => .ok ()
  | member :: rest => do skipMember member; skipMembers rest

def skipMember : Option String × Json → Except Fault Unit
  | (_, value) => skip value

end

/-- Goes one level deeper, of `room` levels that are left. -/
def descend (room : Nat) : Except Fault Nat :=
  if room ≤ 1 then .error .malformed else .ok (room - 1)

mutual

/-- Reads a value through without a use for it yet. It must not be torn, all its strings must be
strings and its numbers numbers, and it must not nest deeper than the room that is left. -/
def hold (room : Nat) : Json → Except Fault Unit
  | .torn => .error .malformed
  | .string none => .error .malformed
  | .real false => .error .malformed
  | .array items => do let room ← descend room; holdItems room items
  | .object members => do let room ← descend room; holdMembers room members
  | _ => .ok ()

def holdItems (room : Nat) : List Json → Except Fault Unit
  | [] => .ok ()
  | item :: rest => do hold room item; holdItems room rest

def holdMembers (room : Nat) : List (Option String × Json) → Except Fault Unit
  | [] => .ok ()
  | member :: rest => do holdMember room member; holdMembers room rest

def holdMember (room : Nat) : Option String × Json → Except Fault Unit
  | (none, _) => .error .malformed
  | (some _, value) => hold room value

end

/-- What is wrong with a value where another kind of value was wanted. Texts and numbers are read
before they are turned down, arrays and objects are not. -/
def unwanted : Json → Fault
  | .torn => .malformed
  | .string none => .malformed
  | .real false => .malformed
  | _ => .mismatch

end Json

end MintSale
