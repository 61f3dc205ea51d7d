import MintSale.Text.Percent

/-!
# The URLs of ledgers

A ledger is found under a URL: the scheme `sqlite:`, which may be left out, the name of a database,
and parameters behind a question mark. A database is transient when it lives in memory or in a file
without a name; then it starts out empty and nobody else sees it.
-/

namespace MintSale

/-- What the URL of a ledger says. -/
structure LedgerUrl where
  /-- The name of the database, as it is written. -/
  name : List Char
  isInMemory : Bool
  isReadOnly : Bool
  isImmutable : Bool
  /-- The way of storing files that is asked for. -/
  vfs : Option String
  deriving DecidableEq

namespace LedgerUrl

/-! ## Splitting -/

/-- Drops a mark from the start of a text as often as it stands there. -/
def dropAll (mark cs : List Char) : List Char :=
  if mark ≠ [] ∧ mark.isPrefixOf cs then dropAll mark (cs.drop mark.length) else cs
termination_by cs.length
decreasing_by
  rename_i h
  have hle := (List.isPrefixOf_iff_prefix.1 h.2).length_le
  have hpos := List.length_pos_iff.2 h.1
  rw [List.length_drop]
  omega

/-- The parts of a text between separators. -/
def parts (separator : Char) : List Char → List (List Char)
  | [] => [[]]
  | c :: cs =>
    match parts separator cs with
    | [] => []
    | part :: more => if c = separator then [] :: part :: more else (c :: part) :: more

/-- A parameter as its key and its value; without an equals sign the value is empty. A plus sign
stands for a blank. -/
def parameter? (cs : List Char) : Option (String × String) := do
  let cs := cs.map fun c => if c = '+' then ' ' else c
  let before := cs.takeWhile (· != '=')
  let key ← Percent.decodeText? before
  let value ← Percent.decodeText? (cs.drop (before.length + 1))
  some (key, value)

/-! ## Reading -/

/-- Takes a parameter. Only the four that are known may be given, with the values that they have. -/
def take? (u : LedgerUrl) : String × String → Option LedgerUrl
  | ("mode", "ro") => some { u with isReadOnly := true }
  | ("mode", "rw") | ("mode", "rwc") => some u
  | ("mode", "memory") => some { u with isInMemory := true }
  | ("cache", "private") | ("cache", "shared") => some u
  | ("immutable", "true") | ("immutable", "1") => some { u with isImmutable := true }
  | ("immutable", "false") | ("immutable", "0") => some { u with isImmutable := false }
  | ("vfs", vfs) => some { u with vfs := some vfs }
  | _ => none

/-- Reads the URL of a ledger. -/
def ofText? (text : String) : Option LedgerUrl := do
  let scheme := "sqlite:".toList
  let cs := dropAll scheme (dropAll (scheme ++ ['/', '/']) text.toList)
  let name := cs.takeWhile (· != '?')
  let given := (parts '&' (cs.drop (name.length + 1))).filter (!·.isEmpty)
  let parameters ← given.mapM parameter?
  parameters.foldlM take? ⟨name, name = ":memory:".toList, false, false, none⟩

/-! ## Databases -/

/-- The ways of storing files that there are. -/
def isKnownVfs (vfs : String) : Bool :=
  ["unix", "unix-none", "unix-dotfile", "unix-excl", "memdb"].contains vfs

/-- The path in a name that is itself a URI behind its scheme `file:`. The host must be this one. -/
def pathOfUri? (cs : List Char) : Option (List UInt8) :=
  let decoded (cs : List Char) : List UInt8 :=
    (Percent.decode (cs.takeWhile fun c => c != '?' && c != '#')).takeWhile (· != 0)
  match cs with
  | '/' :: '/' :: rest =>
    let host := rest.takeWhile (· != '/')
    if host = [] ∨ host = "localhost".toList then some (decoded (rest.drop host.length)) else none
  | cs => some (decoded cs)

/-- The path of a database in the file system. A name is not taken for a URI when it has to be
passed on with parameters. -/
def path? (u : LedgerUrl) : Option (List UInt8) := do
  let name ← Percent.decodeText? u.name
  if name.toList.contains '\x00' then none
  else
    match name.toList with
    | 'f' :: 'i' :: 'l' :: 'e' :: ':' :: rest =>
      if u.isImmutable || u.vfs.isSome then some name.toUTF8.toList else pathOfUri? rest
    | _ => some name.toUTF8.toList

/-- Whether a URL leads to a transient database. -/
def isTransient (u : LedgerUrl) : Bool :=
  u.vfs.all isKnownVfs &&
    (u.isInMemory || u.path?.any fun path => path = [] || path = ":memory:".toUTF8.toList)

end LedgerUrl

end MintSale
