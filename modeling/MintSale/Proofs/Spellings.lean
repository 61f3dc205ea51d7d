import MintSale.Proofs.Ledger
import MintSale.Proofs.Text.Hex

/-!
# Spellings of addresses and hashes

Addresses and hashes may be spelled with either mark, or with none, and with digits of either case.
They are written in one way, and by that the ledger finds purchases, however they were spelled.
-/

namespace MintSale

namespace Octets

/-- A text spells `n` bytes: with two digits for each, behind one mark or none. -/
def IsSpelling (n : Nat) (text : String) : Prop :=
  ∃ digits, Hex.HasDigits ["", "0x", "0X"] text digits ∧ digits.length = 2 * n

/-- The characters of a text, without its mark and in lower case. -/
def plain (text : String) : List Char :=
  let cs := text.toList
  (if ['0', 'x'] <+: cs ∨ ['0', 'X'] <+: cs then cs.drop 2 else cs).map Char.toLower

variable {n : Nat} {text other : String} {x y : Octets n}

theorem isSpelling_iff : IsSpelling n text ↔
    (Hex.dropAnyMark text.toList).length = 2 * n ∧
      ∀ c ∈ Hex.dropAnyMark text.toList, Hex.IsDigit c := by
  simp only [IsSpelling, Hex.hasDigits_any_iff]
  constructor
  · rintro ⟨digits, ⟨rfl, hdigits⟩, hlength⟩
    exact ⟨hlength, hdigits⟩
  · rintro ⟨hlength, hdigits⟩
    exact ⟨_, ⟨rfl, hdigits⟩, hlength⟩

theorem plain_eq (text : String) : plain text = (Hex.dropAnyMark text.toList).map Char.toLower := by
  unfold plain Hex.dropAnyMark
  generalize text.toList = cs
  split
  · rfl
  · rfl
  · next hx hX =>
    have hnone : ¬ (['0', 'x'] <+: cs ∨ ['0', 'X'] <+: cs) := by
      rintro (⟨rest, rfl⟩ | ⟨rest, rfl⟩)
      · exact hx rest rfl
      · exact hX rest rfl
    simp only [if_neg hnone]

/-! ## Reading -/

theorem parse_eq_ok_iff :
    parse text = .ok x ↔ Hex.decode? (Hex.dropAnyMark text.toList) = some x.toList := by
  have hread : parse text = .ok x ↔ ofText? text = some x := by
    rw [parse]
    cases ofText? (n := n) text <;> simp
  rw [hread, ofText?, Option.bind_eq_some_iff]
  constructor
  · rintro ⟨bytes, hbytes, hx⟩
    unfold ofList? at hx
    split at hx
    · obtain rfl := Option.some.inj hx
      exact hbytes
    · cases hx
  · intro h
    exact ⟨_, h, x.ofList?_toList⟩

theorem toList_toText (h : parse text = .ok x) : x.toText.toList = '0' :: 'x' :: plain text := by
  have hencode := (Hex.decode?_eq_some (parse_eq_ok_iff.mp h)).1
  rw [toText, String.toList_ofList, Hex.marked, hencode, plain_eq]

theorem eq_iff_plain_eq (hx : parse text = .ok x) (hy : parse other = .ok y) :
    x = y ↔ plain text = plain other := by
  constructor
  · rintro rfl
    have htexts := (toList_toText hx).symm.trans (toList_toText hy)
    exact (List.cons.inj (List.cons.inj htexts).2).2
  · intro hplain
    refine toText_injective (String.toList_injective ?_)
    rw [toList_toText hx, toList_toText hy, hplain]

theorem exists_parse_iff : (∃ x : Octets n, parse text = .ok x) ↔ IsSpelling n text := by
  rw [isSpelling_iff]
  simp only [parse_eq_ok_iff]
  constructor
  · rintro ⟨x, hx⟩
    obtain ⟨hencode, hdigits⟩ := Hex.decode?_eq_some hx
    have hlength := congrArg List.length hencode
    rw [Hex.length_encode, List.length_map, x.length_toList] at hlength
    exact ⟨hlength.symm, hdigits⟩
  · rintro ⟨hlength, hdigits⟩
    obtain ⟨bytes, hbytes⟩ := (Hex.exists_decode?_iff _).mpr ⟨⟨n, by omega⟩, hdigits⟩
    have hcount := congrArg List.length (Hex.decode?_eq_some hbytes).1
    rw [Hex.length_encode, List.length_map, hlength] at hcount
    exact ⟨⟨bytes, by omega⟩, hbytes⟩

theorem parse_of_not_isSpelling (h : ¬ IsSpelling n text) :
    parse (n := n) text = .error (.badHex text) := by
  rw [← exists_parse_iff] at h
  unfold parse at h ⊢
  cases hread : ofText? (n := n) text with
  | none => rfl
  | some x => exact (h ⟨x, by rw [hread]⟩).elim

/-- Strings of `n` bytes are read from all of their spellings, and written in one. -/
structure ReadsAlike (n : Nat) : Prop where
  parse_iff (text : String) : (∃ x : Octets n, parse text = .ok x) ↔ IsSpelling n text
  parse_error (text : String) : ¬ IsSpelling n text → parse (n := n) text = .error (.badHex text)
  parse_toText (x : Octets n) : parse x.toText = .ok x
  eq_iff {text other : String} {x y : Octets n} : parse text = .ok x → parse other = .ok y →
    (x = y ↔ plain text = plain other)
  toText_eq {text : String} {x : Octets n} : parse text = .ok x →
    x.toText = "0x" ++ String.ofList (plain text)

theorem readsAlike (n : Nat) : ReadsAlike n where
  parse_iff _ := exists_parse_iff
  parse_error _ := parse_of_not_isSpelling
  parse_toText x := by rw [parse, x.ofText?_toText]
  eq_iff := eq_iff_plain_eq
  toText_eq h := String.toList_injective (by rw [toList_toText h, String.toList_append]; simp)

end Octets

/-! ## Rows -/

open Octets

/-- Addresses, hashes and all other strings of bytes are read from exactly their spellings and
written in one of them, by which a purchase is found that was recorded under another spelling. -/
theorem Octets.spellings_areOne :
    (∀ n, ReadsAlike n) ∧
    ∀ {text other : String} {txHash otherHash : Hash}, parse text = .ok txHash →
      parse other = .ok otherHash →
      ∀ (l : Ledger) (now : Timestamp) (projectId : String) (purchaseTo : Address),
        ¬ l.Knows otherHash →
        ((l.insert now projectId txHash purchaseTo).2.Knows otherHash ↔
          plain text = plain other) := by
  refine ⟨readsAlike, fun htext hother l now projectId purchaseTo hnew => ?_⟩
  rw [Ledger.knows_insert_iff, or_iff_right hnew, eq_iff_plain_eq htext hother]

end MintSale
