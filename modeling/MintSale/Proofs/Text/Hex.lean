import Mathlib.Algebra.Group.Nat.Even
import MintSale.Proofs.Text.Digits

/-!
# Hexadecimal spellings

Bytes are read from an even number of digits of either case, and are written with the same digits in
lower case. Neither of the marks can be taken for digits.
-/

namespace MintSale.Hex

/-! ## Digits -/

/-- A hexadecimal digit of either case. -/
def IsDigit (c : Char) : Prop :=
  c ∈ "0123456789abcdefABCDEF".toList

instance (c : Char) : Decidable (IsDigit c) :=
  inferInstanceAs (Decidable (c ∈ "0123456789abcdefABCDEF".toList))

theorem lt_of_digit? {c : Char} {d : Nat} (h : digit? c = some d) : c.toNat < 128 := by
  have hbound : c ≤ '9' ∨ c ≤ 'f' ∨ c ≤ 'F' := by
    unfold digit? at h
    split at h
    · next hc => exact .inl hc.2
    split at h
    · next hc => exact .inr (.inl hc.2)
    split at h
    · next hc => exact .inr (.inr hc.2)
    · cases h
  rcases hbound with hle | hle | hle
  · exact Nat.lt_of_le_of_lt hle (by decide)
  · exact Nat.lt_of_le_of_lt hle (by decide)
  · exact Nat.lt_of_le_of_lt hle (by decide)

/-- A digit has a value below sixteen, and is written for it in lower case. -/
theorem digit_of_digit? {c : Char} {d : Nat} (h : digit? c = some d) :
    IsDigit c ∧ d < 16 ∧ digitChar d = c.toLower := by
  -- Only ASCII characters are digits, so there are few cases.
  have hall : ∀ n < 128, (digit? (Char.ofNat n)).all fun d =>
      IsDigit (Char.ofNat n) ∧ d < 16 ∧ digitChar d = (Char.ofNat n).toLower := by
    decide +kernel
  have hc := hall c.toNat (lt_of_digit? h)
  rw [Char.ofNat_toNat, h] at hc
  simpa using hc

theorem exists_digit? {c : Char} (h : IsDigit c) : ∃ d, digit? c = some d := by
  have hall : "0123456789abcdefABCDEF".toList.all fun c => (digit? c).isSome := by decide +kernel
  exact Option.isSome_iff_exists.mp (List.all_eq_true.mp hall c h)

/-! ## Bytes -/

theorem length_encode (bytes : List UInt8) : (encode bytes).length = 2 * bytes.length := by
  induction bytes with
  | nil => rfl
  | cons b bytes ih => simp only [encode, List.length_cons, ih]; omega

/-- The bytes in a pair of digits are written with the same digits. -/
theorem encode_pair {high low : Char} {h l : Nat} (hhigh : digit? high = some h)
    (hlow : digit? low = some l) (bytes : List UInt8) :
    encode (UInt8.ofNat (16 * h + l) :: bytes) = high.toLower :: low.toLower :: encode bytes := by
  obtain ⟨-, hh, hhighChar⟩ := digit_of_digit? hhigh
  obtain ⟨-, hl, hlowChar⟩ := digit_of_digit? hlow
  have hvalue : (UInt8.ofNat (16 * h + l)).toNat = 16 * h + l :=
    UInt8.toNat_ofNat_of_lt' (show 16 * h + l < 256 by omega)
  have hfirst : (16 * h + l) / 16 = h := by omega
  have hsecond : (16 * h + l) % 16 = l := by omega
  rw [encode, hvalue, hfirst, hsecond, hhighChar, hlowChar]

theorem decode?_eq_some {cs : List Char} {bytes : List UInt8} (h : decode? cs = some bytes) :
    encode bytes = cs.map Char.toLower ∧ ∀ c ∈ cs, IsDigit c := by
  fun_induction decode? cs generalizing bytes with
  | case1 =>
      obtain rfl := Option.some.inj h
      simp [encode]
  | case2 => cases h
  | case3 high low rest h l bytes hrest hlow hhigh ih =>
      cases h
      obtain ⟨htext, hdigits⟩ := ih hrest
      refine ⟨by rw [encode_pair hhigh hlow, htext, List.map_cons, List.map_cons], ?_⟩
      rw [List.forall_mem_cons, List.forall_mem_cons]
      exact ⟨(digit_of_digit? hhigh).1, (digit_of_digit? hlow).1, hdigits⟩
  | case4 => cases h

/-- Exactly the even numbers of digits are read. -/
theorem exists_decode?_iff (cs : List Char) :
    (∃ bytes, decode? cs = some bytes) ↔ Even cs.length ∧ ∀ c ∈ cs, IsDigit c := by
  constructor
  · rintro ⟨bytes, h⟩
    obtain ⟨htext, hdigits⟩ := decode?_eq_some h
    have hlength := congrArg List.length htext
    rw [length_encode, List.length_map] at hlength
    exact ⟨⟨bytes.length, by omega⟩, hdigits⟩
  · rintro ⟨heven, hdigits⟩
    fun_induction decode? cs with
    | case1 => exact ⟨[], rfl⟩
    | case2 => simp at heven
    | case3 => exact ⟨_, rfl⟩
    | case4 high low rest hnone ih =>
        rw [List.forall_mem_cons, List.forall_mem_cons] at hdigits
        obtain ⟨h, hhigh⟩ := exists_digit? hdigits.1
        obtain ⟨l, hlow⟩ := exists_digit? hdigits.2.1
        obtain ⟨bytes, hrest⟩ := ih (by simpa [Nat.even_add_one] using heven) hdigits.2.2
        exact (hnone h l bytes hhigh hlow hrest).elim

/-! ## Marks -/

/-- A text consists of digits behind one of some marks. -/
def HasDigits (marks : List String) (text : String) (digits : List Char) : Prop :=
  (∃ mark ∈ marks, text.toList = mark.toList ++ digits) ∧ ∀ c ∈ digits, IsDigit c

variable {text : String} {digits : List Char}

/-- The digits are what is left without the mark, provided that no digits are taken for one. -/
theorem hasDigits_iff_of_drop {marks : List String} {drop : List Char → List Char}
    (hmark : ∀ cs, ∃ mark ∈ marks, cs = mark.toList ++ drop cs)
    (hdrop : ∀ mark ∈ marks, (∀ c ∈ digits, IsDigit c) → drop (mark.toList ++ digits) = digits) :
    HasDigits marks text digits ↔ drop text.toList = digits ∧ ∀ c ∈ digits, IsDigit c := by
  refine and_congr_left fun hdigits => ⟨?_, ?_⟩
  · rintro ⟨mark, hmem, htext⟩
    rw [htext]
    exact hdrop mark hmem hdigits
  · rintro rfl
    exact hmark text.toList

theorem hasDigits_iff :
    HasDigits ["", "0x"] text digits ↔ dropMark text.toList = digits ∧ ∀ c ∈ digits, IsDigit c := by
  have hx : ¬ IsDigit 'x' := by decide
  refine hasDigits_iff_of_drop (fun cs => ?_) fun mark hmem hdigits => ?_
  · unfold dropMark
    split
    · exact ⟨"0x", by simp, rfl⟩
    · exact ⟨"", by simp, rfl⟩
  · rcases (by simpa using hmem) with rfl | rfl
    · change dropMark digits = digits
      rw [dropMark]
      rintro rest rfl
      exact hx (hdigits 'x' (by simp))
    · rfl

theorem hasDigits_any_iff :
    HasDigits ["", "0x", "0X"] text digits ↔
      dropAnyMark text.toList = digits ∧ ∀ c ∈ digits, IsDigit c := by
  have hx : ¬ IsDigit 'x' := by decide
  have hX : ¬ IsDigit 'X' := by decide
  refine hasDigits_iff_of_drop (fun cs => ?_) fun mark hmem hdigits => ?_
  · unfold dropAnyMark
    split
    · exact ⟨"0x", by simp, rfl⟩
    · exact ⟨"0X", by simp, rfl⟩
    · exact ⟨"", by simp, rfl⟩
  · rcases (by simpa using hmem) with rfl | rfl | rfl
    · change dropAnyMark digits = digits
      rw [dropAnyMark]
      · rintro rest rfl
        exact hx (hdigits 'x' (by simp))
      · rintro rest rfl
        exact hX (hdigits 'X' (by simp))
    · rfl
    · rfl

end MintSale.Hex
