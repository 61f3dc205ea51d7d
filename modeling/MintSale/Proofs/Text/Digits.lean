import Mathlib.Algebra.Group.Nat.Defs
import Mathlib.Data.List.Induction
import MintSale.Text.Hex

/-!
# What digits spell

Numerals and bytes are read as the numbers and bytes that they were written for, whatever follows
them, as long as it is no further digit.
-/

namespace MintSale

namespace Numeral

/-! ## Digits as numbers -/

theorem digit_lt {base : Nat} (hbase : 2 ≤ base) (n : Nat) : ∀ d ∈ digits base n, d < base := by
  fun_induction digits base n with
  | case1 n h =>
      intro d hd
      obtain rfl := List.mem_singleton.mp hd
      omega
  | case2 n h ih =>
      intro d hd
      rcases List.mem_append.mp hd with hd | hd
      · exact ih d hd
      · obtain rfl := List.mem_singleton.mp hd
        exact Nat.mod_lt _ (by omega)

theorem digits_ne_nil (base n : Nat) : digits base n ≠ [] := by
  rw [digits]
  split <;> simp

/-- Only the numeral of zero begins with a zero. -/
theorem digits_head {base n d : Nat} {ds : List Nat} (h : digits base n = d :: ds)
    (hds : ds ≠ []) : d ≠ 0 := by
  fun_induction digits base n generalizing d ds with
  | case1 n hn =>
      obtain ⟨-, rfl⟩ := List.cons.inj h
      exact absurd rfl hds
  | case2 n hn ih =>
      cases hfirst : digits base (n / base) with
      | nil => exact absurd hfirst (digits_ne_nil _ _)
      | cons first rest =>
          rw [hfirst, List.cons_append] at h
          obtain ⟨rfl, -⟩ := List.cons.inj h
          cases rest with
          | cons => exact ih hfirst (by simp)
          | nil =>
              have hvalue := ofDigits_digits base (n / base)
              have hpos : 0 < n / base := Nat.div_pos (by omega) (by omega)
              rw [hfirst] at hvalue
              simp only [ofDigits, List.foldl_cons, List.foldl_nil, Nat.mul_zero] at hvalue
              omega

theorem length_digits_le {base : Nat} (hbase : 2 ≤ base) {n k : Nat} (h : n < base ^ (k + 1)) :
    (digits base n).length ≤ k + 1 := by
  induction k generalizing n with
  | zero =>
      rw [digits_of_lt (by simpa using h)]
      simp
  | succ k ih =>
      by_cases hsmall : n < base
      · rw [digits_of_lt hsmall]
        simp
      · have hdiv : n / base < base ^ (k + 1) := by
          rw [Nat.div_lt_iff_lt_mul (by omega)]
          rwa [Nat.pow_succ] at h
        rw [digits_of_le hbase (by omega), List.length_append]
        have hle := ih hdiv
        simp only [List.length_singleton]
        omega

theorem ofDigits_lt {base : Nat} {ds : List Nat} (h : ∀ d ∈ ds, d < base) :
    ofDigits base ds < base ^ ds.length := by
  induction ds using List.reverseRecOn with
  | nil => simp [ofDigits]
  | append_singleton ds d ih =>
      have hd : d < base := h d (by simp)
      have hds := ih fun x hx => h x (by simp [hx])
      rw [ofDigits_append_singleton, List.length_append, List.length_singleton, Nat.pow_succ]
      calc base * ofDigits base ds + d
          < base * (ofDigits base ds + 1) := by rw [Nat.mul_add]; omega
        _ ≤ base * base ^ ds.length := Nat.mul_le_mul_left base hds
        _ = base ^ ds.length * base := Nat.mul_comm _ _

@[simp] theorem ofDigits_zeros (base k : Nat) (ds : List Nat) :
    ofDigits base (List.replicate k 0 ++ ds) = ofDigits base ds := by
  induction k with
  | zero => rfl
  | succ k ih => simpa [List.replicate_succ, ofDigits] using ih

/-! ## Decimal numerals -/

/-- The numeral that digits make. -/
def spelled (ds : List Nat) : List Char :=
  ds.map decimalChar

theorem decimal_eq (n : Nat) : decimal n = spelled (digits 10 n) :=
  rfl

/-- The digits of a numeral that is padded to a width. -/
def paddedDigits (width n : Nat) : List Nat :=
  List.replicate (width - (digits 10 n).length) 0 ++ digits 10 n

theorem padded_eq (width n : Nat) : padded width n = spelled (paddedDigits width n) := by
  have hzero : decimalChar 0 = '0' := by decide
  simp [padded, decimal, spelled, paddedDigits, hzero]

theorem paddedDigits_lt (width n : Nat) : ∀ d ∈ paddedDigits width n, d < 10 := by
  intro d hd
  rcases List.mem_append.mp hd with hd | hd
  · rw [List.eq_of_mem_replicate hd]
    omega
  · exact digit_lt (by omega) n d hd

theorem paddedDigits_ne_nil (width n : Nat) : paddedDigits width n ≠ [] := by
  simp [paddedDigits, digits_ne_nil]

theorem ofDigits_paddedDigits (width n : Nat) : ofDigits 10 (paddedDigits width n) = n := by
  rw [paddedDigits, ofDigits_zeros, ofDigits_digits]

theorem length_paddedDigits {width n : Nat} (hwidth : 0 < width) (h : n < 10 ^ width) :
    (paddedDigits width n).length = width := by
  obtain ⟨k, rfl⟩ : ∃ k, width = k + 1 := ⟨width - 1, by omega⟩
  have hle := length_digits_le (by omega) h
  rw [paddedDigits, List.length_append, List.length_replicate]
  omega

/-- A numeral begins with a digit. -/
theorem exists_spelled_eq {ds : List Nat} (h : ∀ d ∈ ds, d < 10) (hds : ds ≠ []) :
    ∃ d < 10, ∃ cs, spelled ds = decimalChar d :: cs := by
  cases ds with
  | nil => exact absurd rfl hds
  | cons d ds => exact ⟨d, h d List.mem_cons_self, spelled ds, rfl⟩

@[simp] theorem decimalDigit?_decimalChar {d : Nat} (h : d < 10) :
    decimalDigit? (decimalChar d) = some d := by
  have hall : ∀ d < 10, decimalDigit? (decimalChar d) = some d := by decide
  exact hall d h

theorem decimalDigit?_lt {c : Char} {d : Nat} (h : decimalDigit? c = some d) : d < 10 := by
  unfold decimalDigit? at h
  split at h
  · next hc =>
    have hle : c.toNat ≤ '9'.toNat := hc.2
    have hnine : '9'.toNat = '0'.toNat + 9 := by decide
    have hd := Option.some.inj h
    omega
  · simp at h

theorem filterMap_spelled {ds : List Nat} (h : ∀ d ∈ ds, d < 10) :
    (spelled ds).filterMap decimalDigit? = ds := by
  induction ds with
  | nil => rfl
  | cons d ds ih =>
      have hd := decimalDigit?_decimalChar (h d List.mem_cons_self)
      have hds := ih fun x hx => h x (List.mem_cons_of_mem d hx)
      simpa [spelled, hd] using hds

/-- Digits that are written one by one are read one by one. -/
theorem mapM_map_digits {digit? : Char → Option Nat} {char : Nat → Char} {ds : List Nat}
    (h : ∀ d ∈ ds, digit? (char d) = some d) : (ds.map char).mapM digit? = some ds := by
  induction ds with
  | nil => rfl
  | cons d ds ih =>
      have hd := h d List.mem_cons_self
      have hds := ih fun x hx => h x (List.mem_cons_of_mem d hx)
      simp [hd, hds]

theorem mapM_spelled {ds : List Nat} (h : ∀ d ∈ ds, d < 10) :
    (spelled ds).mapM decimalDigit? = some ds :=
  mapM_map_digits fun d hd => decimalDigit?_decimalChar (h d hd)

/-- A text that does not go on with a digit. -/
def Ends (rest : List Char) : Prop :=
  ∀ c ∈ rest.head?, decimalDigit? c = none

theorem ends_cons {c : Char} (h : decimalDigit? c = none) (rest : List Char) :
    Ends (c :: rest) := by
  intro d hd
  obtain rfl : c = d := by simpa using hd
  exact h

theorem takeWhile_spelled {ds : List Nat} (h : ∀ d ∈ ds, d < 10) {rest : List Char}
    (hrest : Ends rest) :
    (spelled ds ++ rest).takeWhile (fun c => (decimalDigit? c).isSome) = spelled ds := by
  induction ds with
  | nil =>
      cases rest with
      | nil => rfl
      | cons c rest => simp [spelled, hrest c rfl]
  | cons d ds ih =>
      have hd := decimalDigit?_decimalChar (h d List.mem_cons_self)
      have hds := ih fun x hx => h x (List.mem_cons_of_mem d hx)
      simpa [spelled, hd] using hds

theorem unsigned?_eq_some_iff {digit? : Char → Option Nat} {base bound n : Nat} {cs : List Char} :
    unsigned? digit? base bound cs = some n ↔
      ∃ ds, (dropPlus cs).mapM digit? = some ds ∧ ds ≠ [] ∧ ofDigits base ds = n ∧ n < bound := by
  unfold unsigned?
  rcases (dropPlus cs).mapM digit? with - | - | ⟨d, ds⟩
  · simp
  · simp
  · constructor
    · intro h
      dsimp only at h
      split at h
      · next hlt =>
        obtain rfl := Option.some.inj h
        exact ⟨_, rfl, by simp, rfl, hlt⟩
      · simp at h
    · rintro ⟨_, hds, -, rfl, hlt⟩
      obtain rfl := Option.some.inj hds
      exact if_pos hlt

/-- The decimal numeral of a number below a bound is read as that number. -/
theorem decimal?_decimal {bound n : Nat} (h : n < bound) : decimal? bound (decimal n) = some n := by
  have hdigits := digit_lt (show 2 ≤ 10 by omega) n
  have hvalue := ofDigits_digits 10 n
  have hread := mapM_spelled hdigits
  have hkept : dropPlus (spelled (digits 10 n)) = spelled (digits 10 n) := by
    obtain ⟨d, hd, cs, hcs⟩ := exists_spelled_eq hdigits (digits_ne_nil 10 n)
    have hplus : ∀ d < 10, decimalChar d ≠ '+' := by decide
    rw [hcs, dropPlus]
    intro rest hsame
    exact hplus d hd (List.cons.inj hsame).1
  rw [decimal?, unsigned?, decimal_eq, hkept, hread]
  cases hds : digits 10 n with
  | nil => exact absurd hds (digits_ne_nil 10 n)
  | cons d ds =>
      rw [hds] at hvalue
      simp [hvalue, h]

end Numeral

namespace Hex

@[simp] theorem digit?_digitChar {d : Nat} (h : d < 16) : digit? (digitChar d) = some d := by
  have hall : ∀ d < 16, digit? (digitChar d) = some d := by decide
  exact hall d h

theorem decode?_encode (bytes : List UInt8) : decode? (encode bytes) = some bytes := by
  induction bytes with
  | nil => rfl
  | cons b bytes ih =>
      have hb : b.toNat < 256 := b.toNat_lt
      have hhigh := digit?_digitChar (show b.toNat / 16 < 16 by omega)
      have hlow := digit?_digitChar (show b.toNat % 16 < 16 by omega)
      have hvalue : 16 * (b.toNat / 16) + b.toNat % 16 = b.toNat := Nat.div_add_mod _ _
      simp [encode, decode?, hhigh, hlow, ih, hvalue]

/-- Characters spell a number: its digits, of either case and maybe with zeros in front. Before the
digits there may be a plus, and before that a mark. -/
def Spells (cs : List Char) (n : Nat) : Prop :=
  ∃ mark ∈ [[], ['0', 'x']], ∃ sign ∈ [[], ['+']], ∃ digits ds,
    cs = mark ++ (sign ++ digits) ∧ digits.mapM digit? = some ds ∧ ds ≠ [] ∧
      Numeral.ofDigits 16 ds = n

theorem exists_mark_append (cs : List Char) :
    ∃ mark ∈ [[], ['0', 'x']], cs = mark ++ dropMark cs := by
  unfold dropMark
  split
  · exact ⟨['0', 'x'], by simp, rfl⟩
  · exact ⟨[], by simp, rfl⟩

theorem exists_sign_append (cs : List Char) :
    ∃ sign ∈ [[], ['+']], cs = sign ++ Numeral.dropPlus cs := by
  unfold Numeral.dropPlus
  split
  · exact ⟨['+'], by simp, rfl⟩
  · exact ⟨[], by simp, rfl⟩

/-- Neither a mark nor a sign can be taken for digits. -/
theorem dropPlus_dropMark {mark sign digits : List Char} {ds : List Nat}
    (hmark : mark ∈ [[], ['0', 'x']]) (hsign : sign ∈ [[], ['+']])
    (hds : digits.mapM digit? = some ds) :
    Numeral.dropPlus (dropMark (mark ++ (sign ++ digits))) = digits := by
  have hx : digit? 'x' = none := by decide
  have hplus : digit? '+' = none := by decide
  have hsigned : Numeral.dropPlus (sign ++ digits) = digits := by
    rcases (by simpa using hsign) with rfl | rfl
    · rw [List.nil_append, Numeral.dropPlus]
      rintro rest rfl
      simp [hplus] at hds
    · rfl
  rcases (by simpa using hmark) with rfl | rfl
  · have hkept : dropMark (sign ++ digits) = sign ++ digits := by
      rw [dropMark]
      intro rest hrest
      rcases (by simpa using hsign) with rfl | rfl
      · obtain rfl : digits = '0' :: 'x' :: rest := hrest
        simp [hx] at hds
      · simp at hrest
    rw [List.nil_append, hkept, hsigned]
  · exact hsigned

theorem quantity?_eq_some_iff {bound n : Nat} {cs : List Char} :
    quantity? bound cs = some n ↔ Spells cs n ∧ n < bound := by
  rw [quantity?, Numeral.unsigned?_eq_some_iff]
  constructor
  · rintro ⟨ds, hds, hne, hvalue, hlt⟩
    obtain ⟨mark, hmark, hcs⟩ := exists_mark_append cs
    obtain ⟨sign, hsign, hrest⟩ := exists_sign_append (dropMark cs)
    rw [hrest] at hcs
    exact ⟨⟨mark, hmark, sign, hsign, _, ds, hcs, hds, hne, hvalue⟩, hlt⟩
  · rintro ⟨⟨mark, hmark, sign, hsign, digits, ds, rfl, hds, hne, hvalue⟩, hlt⟩
    refine ⟨ds, ?_, hne, hvalue, hlt⟩
    rw [dropPlus_dropMark hmark hsign hds, hds]

theorem spells_quantity (n : Nat) : Spells (quantity n) n := by
  have hds : ∀ d ∈ Numeral.digits 16 n, digit? (digitChar d) = some d :=
    fun d hd => digit?_digitChar (Numeral.digit_lt (by decide) n d hd)
  exact ⟨['0', 'x'], by simp, [], by simp, _, _, rfl, Numeral.mapM_map_digits hds,
    Numeral.digits_ne_nil 16 n, Numeral.ofDigits_digits 16 n⟩

/-- A quantity below a bound is read as the number that it was written for. -/
theorem quantity?_quantity {bound n : Nat} (h : n < bound) :
    quantity? bound (quantity n) = some n :=
  quantity?_eq_some_iff.mpr ⟨spells_quantity n, h⟩

end Hex

end MintSale
