import MintSale.Json.Number
import MintSale.Text.Hex

/-!
# Reading JSON

Reading never fails: where the text stops being JSON, the value ends in `torn`.
-/

namespace MintSale.Json

/-- The four blanks of JSON. -/
def isBlank (c : Char) : Bool :=
  c == ' ' || c == '\n' || c == '\t' || c == '\r'

/-- The text from its first character that is no blank. -/
def skipBlanks (cs : List Char) : List Char :=
  cs.dropWhile isBlank

/-! ## Strings -/

/-- A piece of a string: a character, or an escaped unit of sixteen bits. -/
inductive Piece where
  | plain (c : Char)
  | unit (n : Nat)

/-- The character that a short escape stands for. -/
def shortEscape? : Char → Option Char
  | '"' => some '"'
  | '\\' => some '\\'
  | '/' => some '/'
  | 'b' => some '\x08'
  | 'f' => some '\x0c'
  | 'n' => some '\n'
  | 'r' => some '\r'
  | 't' => some '\t'
  | _ => none

/-- Four hexadecimal digits as a number. -/
def unit? (a b c d : Char) : Option Nat := do
  let a ← Hex.digit? a
  let b ← Hex.digit? b
  let c ← Hex.digit? c
  let d ← Hex.digit? d
  some (4096 * a + 256 * b + 16 * c + d)

/-- The pieces of a string up to its closing quote, and the rest. A raw control character, an
unknown escape and the end of the text are refused. -/
def pieces : List Char → Option (List Piece × List Char)
  | [] => none
  | '"' :: rest => some ([], rest)
  | '\\' :: 'u' :: a :: b :: c :: d :: rest =>
    match unit? a b c d, pieces rest with
    | some n, some (ps, after) => some (.unit n :: ps, after)
    | _, _ => none
  | '\\' :: c :: rest =>
    match shortEscape? c, pieces rest with
    | some c, some (ps, after) => some (.plain c :: ps, after)
    | _, _ => none
  | c :: rest =>
    if c.toNat < 0x20 || c == '\\' then none
    else match pieces rest with
      | some (ps, after) => some (.plain c :: ps, after)
      | none => none

/-- The characters that the pieces spell: a high unit needs a low one right behind it, and a low
one needs a high one before it. -/
def spell : List Piece → Option (List Char)
  | [] => some []
  | .plain c :: rest => (spell rest).map (c :: ·)
  | .unit high :: .unit low :: rest =>
    if 0xD800 ≤ high ∧ high < 0xDC00 then
      if 0xDC00 ≤ low ∧ low < 0xE000 then
        (spell rest).map (Char.ofNat (0x10000 + 1024 * (high - 0xD800) + (low - 0xDC00)) :: ·)
      else none
    else if 0xDC00 ≤ high ∧ high < 0xE000 then none
    else (spell (.unit low :: rest)).map (Char.ofNat high :: ·)
  | .unit n :: rest =>
    if 0xD800 ≤ n ∧ n < 0xE000 then none else (spell rest).map (Char.ofNat n :: ·)

/-- A string behind its opening quote, and the rest. -/
def string? (cs : List Char) : Option (Option String × List Char) :=
  (pieces cs).map fun (ps, rest) => ((spell ps).map String.ofList, rest)

/-! ## Values -/

mutual

/-- A value and the text behind it. The fuel bounds the nesting and the number of items. -/
def value : Nat → List Char → Json × List Char
  | 0, _ => (.torn, [])
  | fuel + 1, cs =>
    match skipBlanks cs with
    | 'n' :: 'u' :: 'l' :: 'l' :: rest => (.null, rest)
    | 't' :: 'r' :: 'u' :: 'e' :: rest => (.bool true, rest)
    | 'f' :: 'a' :: 'l' :: 's' :: 'e' :: rest => (.bool false, rest)
    | '"' :: rest =>
      match string? rest with
      | some (s, rest) => (.string s, rest)
      | none => (.torn, [])
    | '[' :: rest =>
      match skipBlanks rest with
      | ']' :: rest => (.array [], rest)
      | rest =>
        let (items, rest) := items fuel rest
        (.array items, rest)
    | '\x7b' :: rest =>
      match skipBlanks rest with
      | '\x7d' :: rest => (.object [], rest)
      | rest =>
        let (members, rest) := members fuel rest
        (.object members, rest)
    | '-' :: rest => (number? true rest).getD (.torn, [])
    | rest => (number? false rest).getD (.torn, [])

/-- The items of an array up to its bracket. -/
def items : Nat → List Char → List Json × List Char
  | 0, _ => ([.torn], [])
  | fuel + 1, cs =>
    let (item, rest) := value fuel cs
    match skipBlanks rest with
    | ']' :: rest => ([item], rest)
    | ',' :: rest =>
      let (more, rest) := items fuel rest
      (item :: more, rest)
    | _ => ([item, .torn], [])

/-- The members of an object up to its brace. -/
def members : Nat → List Char → List (Option String × Json) × List Char
  | 0, _ => ([(none, .torn)], [])
  | fuel + 1, cs =>
    match skipBlanks cs with
    | '"' :: rest =>
      match string? rest with
      | none => ([(none, .torn)], [])
      | some (key, rest) =>
        match skipBlanks rest with
        | ':' :: rest =>
          let (v, rest) := value fuel rest
          match skipBlanks rest with
          | '\x7d' :: rest => ([(key, v)], rest)
          | ',' :: rest =>
            let (more, rest) := members fuel rest
            ((key, v) :: more, rest)
          | _ => ([(key, v), (none, .torn)], [])
        | _ => ([(key, .torn)], [])
    | _ => ([(none, .torn)], [])

end

/-- The value at the start of a text, and the rest of it. -/
def read (text : String) : Json × List Char :=
  let cs := text.toList
  value (cs.length + 1) cs

end MintSale.Json
