import MintSale.Text.Hex

/-!
# Percent encoding

A text as bytes, where a percent sign and two hexadecimal digits spell any byte.
-/

namespace MintSale.Percent

/-- The bytes that a text spells. A percent sign without two hexadecimal digits behind it stands for
itself, as does any other character. -/
def decode : List Char → List UInt8
  | [] => []
  | '%' :: a :: b :: rest =>
    match Hex.digit? a, Hex.digit? b with
    | some high, some low => UInt8.ofNat (16 * high + low) :: decode rest
    | _, _ => String.utf8EncodeChar '%' ++ decode (a :: b :: rest)
  | c :: rest => String.utf8EncodeChar c ++ decode rest

/-- The text that the bytes of a text spell, if they spell one. -/
def decodeText? (cs : List Char) : Option String :=
  String.fromUTF8? ⟨(decode cs).toArray⟩

end MintSale.Percent
