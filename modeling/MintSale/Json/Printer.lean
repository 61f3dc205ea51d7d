import MintSale.Json.Basic
import MintSale.Text.Hex

/-!
# Writing JSON

The compact form: no blanks, and in strings only quotes, backslashes and control characters are
escaped.
-/

namespace MintSale.Json

/-! ## Strings -/

/-- A character as it stands in a string. -/
def escape (c : Char) : List Char :=
  if c = '"' then ['\\', '"']
  else if c = '\\' then ['\\', '\\']
  else if c = '\x08' then ['\\', 'b']
  else if c = '\t' then ['\\', 't']
  else if c = '\n' then ['\\', 'n']
  else if c = '\x0c' then ['\\', 'f']
  else if c = '\r' then ['\\', 'r']
  else if c.toNat < 0x20 then
    ['\\', 'u', '0', '0', Hex.digitChar (c.toNat / 16), Hex.digitChar (c.toNat % 16)]
  else [c]

/-- A string with its quotes. -/
def quoted (s : String) : List Char :=
  '"' :: s.toList.flatMap escape ++ ['"']

/-- An integer in decimal. -/
def intChars (n : Int) : List Char :=
  if n < 0 then '-' :: Numeral.decimal n.natAbs else Numeral.decimal n.toNat

/-! ## Values -/

mutual

/-- The text of a value. Values that only a reader meets have no text of their own and are written
as nothing known. -/
def chars : Json → List Char
  | .null => ['n', 'u', 'l', 'l']
  | .bool true => ['t', 'r', 'u', 'e']
  | .bool false => ['f', 'a', 'l', 's', 'e']
  | .int n => intChars n
  | .string (some s) => quoted s
  | .array [] => ['[', ']']
  | .array (item :: rest) => '[' :: chars item ++ itemsTail rest
  | .object [] => ['\x7b', '\x7d']
  | .object (member :: rest) => '\x7b' :: memberChars member ++ membersTail rest
  | .real _ => ['n', 'u', 'l', 'l']
  | .string none => ['n', 'u', 'l', 'l']
  | .torn => ['n', 'u', 'l', 'l']

def itemsTail : List Json → List Char
  | [] => [']']
  | item :: rest => ',' :: chars item ++ itemsTail rest

def membersTail : List (Option String × Json) → List Char
  | [] => ['\x7d']
  | member :: rest => ',' :: memberChars member ++ membersTail rest

def memberChars : Option String × Json → List Char
  | (key, value) => quoted (key.getD "") ++ ':' :: chars value

end

/-- The text of a value. -/
def print (j : Json) : String :=
  String.ofList j.chars

end MintSale.Json
