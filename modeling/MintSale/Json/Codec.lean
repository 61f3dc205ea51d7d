import MintSale.Json.Printer
import MintSale.Json.Reader

/-!
# Codecs

A codec writes the values of a type as JSON and reads them back. Records are described field by
field, once for both directions. A record may also be read from an array of its fields in order,
and a name from an object with the name as its only key.
-/

namespace MintSale

/-- How the values of a type are written as JSON and read back. The reader is told how many levels
of nesting are left to it. -/
structure Codec (α : Type) where
  write : α → Json
  read : (room : Nat) → Json → Except Json.Fault α

namespace Codec

variable {α β : Type}

/-- The levels of nesting that a text may have. -/
def levels : Nat := 128

/-- The text of a value. -/
def encode (c : Codec α) (a : α) : String :=
  (c.write a).print

/-- The value that a text starts with; whatever follows it is left alone. -/
def decodeStart (c : Codec α) (text : String) : Except Json.Fault α :=
  c.read levels (Json.read text).1

/-- The value that a text spells; only blanks may surround it. -/
def decode (c : Codec α) (text : String) : Except Json.Fault α :=
  let (value, rest) := Json.read text
  match c.read levels value with
  | .error fault => .error fault
  | .ok a => if (Json.skipBlanks rest).isEmpty then .ok a else .error .malformed

/-! ## Single values -/

/-- A codec for another type with the same values; reading may turn some of them down. -/
def through (c : Codec α) (view : β → α) (of? : α → Option β) : Codec β where
  write b := c.write (view b)
  read room j := do
    match of? (← c.read room j) with
    | some b => .ok b
    | none => .error .mismatch

/-- Strings. -/
def string : Codec String where
  write := .text
  read _
    | .string (some s) => .ok s
    | j => .error j.unwanted

/-- True and false. -/
def bool : Codec Bool where
  write := .bool
  read _
    | .bool b => .ok b
    | j => .error j.unwanted

/-- Integers between two bounds. -/
def int (low high : Int) : Codec Int where
  write := .int
  read _
    | .int n => if low ≤ n ∧ n ≤ high then .ok n else .error .mismatch
    | j => .error j.unwanted

/-- Unsigned integers of 64 bits. -/
def uint64 : Codec UInt64 where
  write n := .nat n.toNat
  read _
    | .int n => if 0 ≤ n ∧ n < UInt64.size then .ok (UInt64.ofNat n.toNat) else .error .mismatch
    | j => .error j.unwanted

/-- Unsigned integers of 8 bits. -/
def uint8 : Codec UInt8 where
  write n := .nat n.toNat
  read _
    | .int n => if 0 ≤ n ∧ n < UInt8.size then .ok (UInt8.ofNat n.toNat) else .error .mismatch
    | j => .error j.unwanted

/-- A value or `null`. -/
def option (c : Codec α) : Codec (Option α) where
  write
    | none => .null
    | some a => c.write a
  read room
    | .null => .ok none
    | j => (c.read room j).map some

/-- An array of values. -/
def list (c : Codec α) : Codec (List α) where
  write as := .array (as.map c.write)
  read room
    | .array items => do
      let room ← Json.descend room
      items.mapM (c.read room)
    | j => .error j.unwanted

/-- One of finitely many names. -/
def name (names : List (α × String)) [DecidableEq α] : Codec α where
  write a := .text ((names.lookup a).getD "")
  read _ j :=
    let find (s : String) : Except Json.Fault α :=
      match names.find? fun entry => entry.2 == s with
      | some entry => .ok entry.1
      | none => .error .mismatch
    match j with
    | .string (some s) => find s
    | .object ((some s, value) :: rest) => do
      let a ← find s
      match value, rest with
      | .null, [] => .ok a
      | .null, _ => .error .malformed
      | j, _ => .error j.unwanted
    | _ => .error .malformed

/-- Whether a key is there at all; its value does not matter. -/
def presence : Codec Bool where
  write _ := .null
  read _ j := do
    j.skip
    .ok true

end Codec

/-! ## Records -/

/-- One field of a record. -/
structure Field (α : Type) where
  key : String
  codec : Codec α
  /-- The value in an object without the key. -/
  whenAbsent : Option α
  /-- The value in an array that ends before the field. -/
  whenShort : Option α
  /-- Values for which nothing is written. -/
  omits : α → Bool

namespace Field

variable {α : Type}

/-- A field that must be there. -/
def required (key : String) (codec : Codec α) : Field α :=
  ⟨key, codec, none, none, fun _ => false⟩

/-- A field that is nothing when its key is missing. -/
def optional (key : String) (codec : Codec α) : Field (Option α) :=
  ⟨key, codec.option, some none, none, fun _ => false⟩

/-- A field with a value of its own wherever it is missing. -/
def withDefault (key : String) (codec : Codec α) (value : α) : Field α :=
  ⟨key, codec, some value, some value, fun _ => false⟩

/-- A field that says by being there that something is. -/
def presence (key : String) : Field Bool :=
  ⟨key, Codec.presence, some false, some false, fun b => !b⟩

end Field

/-- The values of the fields of a record. -/
def Row : List Type → Type
  | [] => Unit
  | α :: types => α × Row types

/-- The values of the fields as far as they have been read. -/
def Draft : List Type → Type
  | [] => Unit
  | α :: types => Option α × Draft types

/-- The fields of a record, in order. -/
inductive Fields : List Type → Type 1 where
  | nil : Fields []
  | cons {α : Type} {types : List Type} (field : Field α) (rest : Fields types) :
    Fields (α :: types)

namespace Fields

/-- A draft with nothing read. -/
def blank : {types : List Type} → Fields types → Draft types
  | _, .nil => ()
  | _, .cons _ rest => (none, rest.blank)

/-- The members that a record is written as. -/
def members : {types : List Type} → Fields types → Row types → List (String × Json)
  | _, .nil, _ => []
  | _, .cons field rest, (a, row) =>
    if field.omits a then rest.members row
    else (field.key, field.codec.write a) :: rest.members row

/-- Reads the member with a key into the draft. Unknown keys are passed over; a key may not come
twice. -/
def put (room : Nat) (key : String) (value : Json) :
    {types : List Type} → Fields types → Draft types → Except Json.Fault (Draft types)
  | _, .nil, _ => do
    value.skip
    .ok ()
  | _, .cons field rest, (slot, draft) =>
    if field.key = key then
      match slot with
      | some _ => .error .mismatch
      | none => do
        let a ← field.codec.read room value
        .ok (some a, draft)
    else do
      let draft ← put room key value rest draft
      .ok (slot, draft)

/-- Reads members in order. -/
def putAll (room : Nat) {types : List Type} (fields : Fields types) :
    List (Option String × Json) → Draft types → Except Json.Fault (Draft types)
  | [], draft => .ok draft
  | (none, _) :: _, _ => .error .malformed
  | (some key, value) :: rest, draft => do
    let draft ← fields.put room key value draft
    fields.putAll room rest draft

/-- The row that a draft comes to. -/
def finish : {types : List Type} → Fields types → Draft types → Except Json.Fault (Row types)
  | _, .nil, _ => .ok ()
  | _, .cons field rest, (slot, draft) =>
    match slot <|> field.whenAbsent with
    | none => .error .mismatch
    | some a => do
      let row ← rest.finish draft
      .ok (a, row)

/-- Reads the fields from items in order. More items than fields are no end of the array. -/
def ofItems (room : Nat) :
    {types : List Type} → Fields types → List Json → Except Json.Fault (Row types)
  | _, .nil, [] => .ok ()
  | _, .nil, _ :: _ => .error .malformed
  | _, .cons field rest, [] =>
    match field.whenShort with
    | none => .error .mismatch
    | some a => do
      let row ← rest.ofItems room []
      .ok (a, row)
  | _, .cons field rest, item :: items => do
    let a ← field.codec.read room item
    let row ← rest.ofItems room items
    .ok (a, row)

/-- Reads the fields from an object or an array. -/
def read {types : List Type} (fields : Fields types) (room : Nat) :
    Json → Except Json.Fault (Row types)
  | .object members => do
    let room ← Json.descend room
    let draft ← fields.putAll room members fields.blank
    fields.finish draft
  | .array items => do
    let room ← Json.descend room
    fields.ofItems room items
  | j => .error j.unwanted

/-- The codec of a type whose values are rows of fields. -/
def codec {α : Type} {types : List Type} (fields : Fields types) (toRow : α → Row types)
    (ofRow : Row types → α) : Codec α where
  write a := .record (fields.members (toRow a))
  read room j := (fields.read room j).map ofRow

end Fields

end MintSale
