/-!
# Media types

The kind of a document as a sender states it: a type, a subtype with an optional suffix that names
the format it is built upon, and parameters. Parameters only have to be well formed.
-/

namespace MintSale

/-- A media type without its parameters, in lower case. -/
structure MediaType where
  type : String
  subtype : String
  suffix : Option String
  deriving DecidableEq

namespace MediaType

/-! ## Characters -/

/-- The characters of names and of values without quotes. -/
def isTokenChar (c : Char) : Bool :=
  c.isAlphanum || "!#$%&'*+-.^_`|~".toList.contains c

/-- The characters between quotes. -/
def isQuotable (c : Char) : Bool :=
  0x20 ≤ c.toNat && c.toNat < 0x7F

/-! ## Parameters -/

/-- Where a reader of parameters is. -/
inductive Place where
  /-- Before a name, or behind the last parameter. -/
  | fresh
  | name
  /-- Behind the equals sign. -/
  | equals
  | value
  /-- Behind the opening quote. The next character belongs to the value, even if it is a quote. -/
  | opened
  | quoted
  /-- Behind the closing quote. -/
  | closed
  deriving DecidableEq

/-- One character of the parameters. Blanks may stand before a name and behind a closing quote. -/
def Place.next? (p : Place) (c : Char) : Option Place :=
  match p with
  | .fresh => if c = ' ' then some .fresh else if isTokenChar c then some .name else none
  | .name => if c = '=' then some .equals else if isTokenChar c then some .name else none
  | .equals => if c = '"' then some .opened else if isTokenChar c then some .value else none
  | .value => if c = ';' then some .fresh else if isTokenChar c then some .value else none
  | .opened => if isQuotable c then some .quoted else none
  | .quoted => if c = '"' then some .closed else if isQuotable c then some .quoted else none
  | .closed => if c = ' ' then some .closed else if c = ';' then some .fresh else none

/-- Whether the parameters may end here. A value without quotes may be empty at the end only. -/
def Place.isEnd : Place → Bool
  | .fresh | .equals | .value | .closed => true
  | .name | .opened | .quoted => false

/-- Whether what follows the first semicolon is a list of parameters, which may be empty. -/
def areParameters (cs : List Char) : Bool :=
  (cs.foldlM Place.next? .fresh).any Place.isEnd

/-! ## Types -/

/-- Splits a subtype at its last plus sign, unless that comes first. -/
def splitSuffix (subtype : List Char) : List Char × Option (List Char) :=
  let suffix := (subtype.reverse.takeWhile (· != '+')).reverse
  let base := subtype.take (subtype.length - suffix.length - 1)
  if base.isEmpty then (subtype, none) else (base, some suffix)

/-- A media type from its parts in any case. -/
def ofParts (type subtype : List Char) : MediaType :=
  let lower (cs : List Char) : String := String.ofList (cs.map Char.toLower)
  let (base, suffix) := splitSuffix subtype
  ⟨lower type, lower base, suffix.map lower⟩

/-- Reads a media type. Only the subtype may be empty, and then nothing may follow. -/
def ofText? (text : String) : Option MediaType :=
  let cs := text.toList
  let type := cs.takeWhile isTokenChar
  match cs.drop type.length with
  | '/' :: rest =>
    let subtype := rest.takeWhile isTokenChar
    let isSound :=
      match rest.drop subtype.length with
      | [] => true
      | ';' :: parameters => !subtype.isEmpty && areParameters parameters
      | _ => false
    if !type.isEmpty && isSound then some (ofParts type subtype) else none
  | _ => none

/-- Whether documents of the type are JSON, or in a format built upon it. -/
def isJson (m : MediaType) : Bool :=
  m.type = "application" && (m.subtype = "json" || m.suffix = some "json")

end MediaType

end MintSale
