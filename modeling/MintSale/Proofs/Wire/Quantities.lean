import MintSale.Proofs.Text.Hex
import MintSale.Proofs.Wire.Posting

/-!
# Quantities and data

What is written for the node is read back as it was. Amounts are written below 2^128, though, and
quantities read below 2^64: whatever is between is refused, not cut off.
-/

namespace MintSale

namespace Hex

theorem digitChar_eq {d : Nat} (h : d < 16) : digitChar d = Nat.digitChar d := by
  have hall : ∀ d < 16, digitChar d = Nat.digitChar d := by decide
  exact hall d h

theorem map_digits_eq (n : Nat) : (Numeral.digits 16 n).map digitChar = Nat.toDigits 16 n := by
  fun_induction Numeral.digits 16 n with
  | case1 n h =>
      have hlt : n < 16 := by omega
      rw [List.map_singleton, Nat.toDigits_of_lt_base hlt, digitChar_eq hlt]
  | case2 n h ih =>
      have hle : 16 ≤ n := by omega
      have hlast := digitChar_eq (Nat.mod_lt n (show 0 < 16 by decide))
      rw [List.map_append, ih, List.map_singleton, Nat.toDigits_of_base_le (by decide) hle, hlast]

/-- Only zero is written with a zero in front. -/
theorem eq_zero_of_head? {n : Nat} (h : (Nat.toDigits 16 n).head? = some '0') : n = 0 := by
  have hzero : ∀ d < 16, digitChar d = '0' → d = 0 := by decide
  have hvalue := Numeral.ofDigits_digits 16 n
  have hlt := Numeral.digit_lt (show 2 ≤ 16 by decide) n
  rw [← map_digits_eq] at h
  cases hds : Numeral.digits 16 n with
  | nil => exact absurd hds (Numeral.digits_ne_nil 16 n)
  | cons d ds =>
      rw [hds] at h hvalue hlt
      obtain rfl : d = 0 := hzero d (hlt d List.mem_cons_self) (Option.some.inj h)
      obtain rfl : ds = [] := by
        by_contra hne
        exact Numeral.digits_head hds hne rfl
      exact hvalue.symm

theorem Spells.unique {cs : List Char} {m n : Nat} (hm : Spells cs m) (hn : Spells cs n) :
    m = n := by
  have hread := quantity?_eq_some_iff.mpr ⟨hm, (show m < m + n + 1 by omega)⟩
  rw [quantity?_eq_some_iff.mpr ⟨hn, (show n < m + n + 1 by omega)⟩] at hread
  exact (Option.some.inj hread).symm

end Hex

namespace Wire.Node

/-! ## Quantities -/

theorem isQuantity_quantityText_iff {a : Amount} {n : UInt64} :
    IsQuantity (quantityText a) n ↔ n.toNat = a.toNat := by
  have hspells : Hex.Spells (quantityText a).toList a.toNat := by
    rw [quantityText, String.toList_ofList]
    exact Hex.spells_quantity a.toNat
  refine ⟨fun h => h.unique hspells, fun h => ?_⟩
  rw [IsQuantity, h]
  exact hspells

theorem readQuantity_eq_badHex {text : String} (h : ¬ ∃ n, IsQuantity text n) :
    readQuantity text = .error (.badHex text) := by
  obtain ⟨fault, hfault⟩ := readQuantity_eq_error_iff.mpr h
  unfold readQuantity at hfault ⊢
  split at hfault
  · cases hfault
  · rfl

/-- An amount is written with its hexadecimal digits and with no zero in front, except for zero
itself. It is read back as itself, but as a quantity only below 2^64. -/
structure IsKept (a : Amount) : Prop where
  written : quantityText a = "0x" ++ String.ofList (Nat.toDigits 16 a.toNat)
  zero_of_head : (Nat.toDigits 16 a.toNat).head? = some '0' → a = .zero
  readBack : Request.readAmount (quantityText a) = some a
  taken_iff (n : UInt64) : readQuantity (quantityText a) = .ok n ↔ n.toNat = a.toNat
  refused : 2 ^ 64 ≤ a.toNat → readQuantity (quantityText a) = .error (.badHex (quantityText a))

theorem quantityText_eq (a : Amount) :
    quantityText a = "0x" ++ String.ofList (Nat.toDigits 16 a.toNat) := by
  refine String.toList_injective ?_
  rw [quantityText, Hex.quantity, Hex.map_digits_eq, String.toList_append]
  simp

theorem isKept (a : Amount) : IsKept a where
  written := quantityText_eq a
  zero_of_head h := by
    obtain ⟨n, hn⟩ := a
    obtain rfl : n = 0 := Hex.eq_zero_of_head? h
    rfl
  readBack := readAmount_quantityText a
  taken_iff _ := readQuantity_eq_ok_iff.trans isQuantity_quantityText_iff
  refused h := by
    refine readQuantity_eq_badHex ?_
    rintro ⟨n, hn⟩
    have hlt := n.toNat_lt
    rw [isQuantity_quantityText_iff.mp hn] at hlt
    omega

/-! ## Data -/

theorem exists_readData_iff {text : String} :
    (∃ bytes, readData text = .ok bytes) ↔
      ∃ digits, Hex.HasDigits ["", "0x"] text digits ∧ Even digits.length := by
  have hread : (∃ bytes, readData text = .ok bytes) ↔
      ∃ bytes, Hex.decode? (Hex.dropMark text.toList) = some bytes := by
    rw [readData]
    cases Hex.decode? (Hex.dropMark text.toList) <;> simp
  rw [hread, Hex.exists_decode?_iff]
  simp only [Hex.hasDigits_iff]
  constructor
  · rintro ⟨heven, hdigits⟩
    exact ⟨_, ⟨rfl, hdigits⟩, heven⟩
  · rintro ⟨digits, ⟨rfl, hdigits⟩, heven⟩
    exact ⟨heven, hdigits⟩

/-- Quantities and data are read back as they were written, and data are read from even numbers of
digits, behind one mark or none. -/
theorem texts_roundTrip :
    (∀ a, IsKept a) ∧ quantityText .zero = "0x0" ∧
    (∀ bytes, readData (dataText bytes) = .ok bytes) ∧
    ∀ text, (∃ bytes, readData text = .ok bytes) ↔
      ∃ digits, Hex.HasDigits ["", "0x"] text digits ∧ Even digits.length :=
  ⟨isKept, by decide +kernel, readData_dataText, fun _ => exists_readData_iff⟩

end Wire.Node

end MintSale
