import MintSale.Proofs.Text.Digits
import MintSale.Timestamp.Text

/-!
# Moments in writing

A moment is read from its written form as itself exactly if it is one that universal time has: a
leap second is the sixtieth of a minute. Whatever is read is such a moment.
-/

namespace MintSale.Timestamp

open Numeral (Ends spelled)

/-- A moment is not within a leap second, or that second ends a minute. -/
def IsProper (t : Timestamp) : Prop :=
  t.nano < 1000000000 ∨ t.second % 60 = 59

instance (t : Timestamp) : Decidable t.IsProper :=
  inferInstanceAs (Decidable (_ ∨ _))

/-! ## Steps of a reading

A reading is a chain of parts, each on what the part before it left. Both facts keep to `>>=`, so
that a chain is followed part by part.
-/

theorem some_bind {α β : Type} (a : α) (next : α → Option β) : (some a >>= next) = next a :=
  rfl

theorem bind_eq_some {α β : Type} {part : Option α} {next : α → Option β} {b : β} :
    (part >>= next) = some b ↔ ∃ a, part = some a ∧ next a = some b :=
  Option.bind_eq_some_iff

/-! ## Reading numbers -/

theorem trimStart_of_not_isBlank {c : Char} (h : Blank.isBlank c = false) (rest : List Char) :
    Blank.trimStart (c :: rest) = c :: rest := by
  simp [Blank.trimStart, h]

theorem not_isBlank_decimalChar {d : Nat} (h : d < 10) :
    Blank.isBlank (Numeral.decimalChar d) = false := by
  have hall : ∀ d < 10, Blank.isBlank (Numeral.decimalChar d) = false := by decide
  exact hall d h

theorem trimStart_spelled {ds : List Nat} (h : ∀ d ∈ ds, d < 10) (hds : ds ≠ [])
    (rest : List Char) : Blank.trimStart (spelled ds ++ rest) = spelled ds ++ rest := by
  obtain ⟨d, hd, cs, hcs⟩ := Numeral.exists_spelled_eq h hds
  rw [hcs]
  exact trimStart_of_not_isBlank (not_isBlank_decimalChar hd) _

theorem digits_spelled {limit : Nat} {ds : List Nat} (h : ∀ d ∈ ds, d < 10) (hds : ds ≠ [])
    (hlimit : ds.length ≤ limit) {rest : List Char} (hrest : Ends rest) :
    digits limit (spelled ds ++ rest) = some (Numeral.ofDigits 10 ds, rest) := by
  have hlength : (spelled ds).length = ds.length := by simp [spelled]
  have htake : (spelled ds ++ rest).take limit =
      spelled ds ++ rest.take (limit - ds.length) := by
    rw [List.take_append, hlength, List.take_of_length_le (by omega)]
  have hends : Ends (rest.take (limit - ds.length)) := by
    intro c hc
    cases rest with
    | nil => simp at hc
    | cons d rest =>
        cases hroom : limit - ds.length with
        | zero => simp [hroom] at hc
        | succ k => exact hrest c (by simpa [hroom] using hc)
  have hempty : ds.isEmpty = false := by simpa using hds
  rw [digits, htake, Numeral.takeWhile_spelled h hends, Numeral.filterMap_spelled h]
  simp [hempty, ← hlength]

/-- A padded number is read whatever follows, as long as it is no digit. -/
theorem digits_padded {limit width n : Nat} (hwidth : 0 < width) (hn : n < 10 ^ width)
    (hlimit : width ≤ limit) {rest : List Char} (hrest : Ends rest) :
    digits limit (Numeral.padded width n ++ rest) = some (n, rest) := by
  have hlength := Numeral.length_paddedDigits hwidth hn
  rw [Numeral.padded_eq, digits_spelled (Numeral.paddedDigits_lt width n)
    (Numeral.paddedDigits_ne_nil width n) (by omega) hrest, Numeral.ofDigits_paddedDigits]

theorem trimStart_padded (width n : Nat) (rest : List Char) :
    Blank.trimStart (Numeral.padded width n ++ rest) = Numeral.padded width n ++ rest := by
  rw [Numeral.padded_eq]
  exact trimStart_spelled (Numeral.paddedDigits_lt width n) (Numeral.paddedDigits_ne_nil width n) _

theorem numberIn_padded {low high n : Nat} (hlow : low ≤ n) (hhigh : n ≤ high) (hn : n < 100)
    {rest : List Char} (hrest : Ends rest) :
    numberIn low high (Numeral.padded 2 n ++ rest) = some (n, rest) := by
  have hread := digits_padded (show 0 < 2 by omega) hn (Nat.le_refl 2) hrest
  simp [numberIn, number, trimStart_padded, hread, hlow, hhigh]

/-! ## Reading the parts of a moment -/

theorem year_of_unsigned {c : Char} (hblank : Blank.isBlank c = false) (hminus : c ≠ '-')
    (hplus : c ≠ '+') (rest : List Char) :
    year (c :: rest) = (digits 4 (c :: rest)).map fun (n, rest) => ((n : Int), rest) := by
  rw [year, trimStart_of_not_isBlank hblank]
  split
  · next hsame => exact absurd (List.cons.inj hsame).1 hminus
  · next hsame => exact absurd (List.cons.inj hsame).1 hplus
  · rfl

theorem digits_magnitude (n : Nat) {rest : List Char} (hrest : Ends rest) :
    digits (Numeral.padded 4 n ++ rest).length (Numeral.padded 4 n ++ rest) = some (n, rest) := by
  rw [Numeral.padded_eq, digits_spelled (Numeral.paddedDigits_lt 4 n)
    (Numeral.paddedDigits_ne_nil 4 n) (by simp [spelled]) hrest, Numeral.ofDigits_paddedDigits]

theorem year_yearText (y : Int) {rest : List Char} (hrest : Ends rest) :
    year (yearText y ++ rest) = some (y, rest) := by
  have hmagnitude := digits_magnitude y.natAbs hrest
  rw [yearText]
  split
  · next hcommon =>
    have hread := digits_padded (show 0 < 4 by omega) (show y.toNat < 10 ^ 4 by omega)
      (Nat.le_refl 4) hrest
    have hvalue : (y.toNat : Int) = y := Int.toNat_of_nonneg hcommon.1
    have hsigns : ∀ d < 10, Numeral.decimalChar d ≠ '-' ∧ Numeral.decimalChar d ≠ '+' := by
      decide
    obtain ⟨d, hd, cs, hcs⟩ := Numeral.exists_spelled_eq (Numeral.paddedDigits_lt 4 y.toNat)
      (Numeral.paddedDigits_ne_nil 4 y.toNat)
    rw [Numeral.padded_eq, hcs, List.cons_append] at hread ⊢
    rw [year_of_unsigned (not_isBlank_decimalChar hd) (hsigns d hd).1 (hsigns d hd).2, hread]
    simp only [Option.map_some, hvalue]
  · next hrare =>
    split
    · next hnegative =>
      have hvalue : -(y.natAbs : Int) = y := by omega
      rw [List.cons_append, year, trimStart_of_not_isBlank (by decide)]
      simp only [hmagnitude, Option.map_some, hvalue]
    · next hpositive =>
      have hvalue : (y.natAbs : Int) = y := by omega
      rw [List.cons_append, year, trimStart_of_not_isBlank (by decide)]
      simp only [hmagnitude, Option.map_some, hvalue]

theorem mark_self {c : Char} (h : Blank.isBlank c = false) (rest : List Char) :
    mark c (c :: rest) = some rest := by
  simp [mark, trimStart_of_not_isBlank h]

/-- The digits of a fraction, as far as they are written, come to all nine. -/
theorem fraction_padded {width n : Nat} (hwidth : 0 < width) (hnine : width ≤ 9)
    (hn : n < 10 ^ width) {c : Char} (hc : Numeral.decimalDigit? c = none) :
    fraction ('.' :: Numeral.padded width n ++ [c]) = some (n * 10 ^ (9 - width), [c]) := by
  have hends : Ends [c] := Numeral.ends_cons hc []
  have hlength : (Numeral.padded width n).length = width := by
    rw [Numeral.padded_eq, spelled, List.length_map, Numeral.length_paddedDigits hwidth hn]
  simp [fraction, digits_padded hwidth hn hnine hends, hlength, hc]

theorem fraction_fractionText {nano : Nat} (h : nano < 1000000000) :
    fraction (fractionText nano ++ ['Z']) = some (nano, ['Z']) := by
  have hz : Numeral.decimalDigit? 'Z' = none := by decide
  rw [fractionText]
  split
  · next hzero => simp [fraction, hzero]
  · split
    · next hmilli =>
      rw [fraction_padded (by omega) (by omega) (by omega) hz]
      simp only [Option.some.injEq, Prod.mk.injEq, and_true]
      omega
    · split
      · next hmicro =>
        rw [fraction_padded (by omega) (by omega) (by omega) hz]
        simp only [Option.some.injEq, Prod.mk.injEq, and_true]
        omega
      · rw [fraction_padded (by omega) (by omega) (by omega) hz]
        simp

theorem ends_fractionText (nano : Nat) : Ends (fractionText nano ++ ['Z']) := by
  have hpoint : Numeral.decimalDigit? '.' = none := by decide
  rw [fractionText]
  split
  · exact Numeral.ends_cons (by decide) []
  · split
    · exact Numeral.ends_cons hpoint _
    · split <;> exact Numeral.ends_cons hpoint _

theorem offset_zulu : offset (Blank.trimStart ['Z']) = some (0, []) := by
  decide

/-! ## Reading back -/

/-- The time of day that a second of sixty or less stands for. -/
def ofClock? (date : Day) (start second nano : Nat) (offset : Int) : Option Timestamp :=
  if second = 60 then ofLocal? date (start + 59) (nano + 1000000000) offset
  else ofLocal? date (start + second) nano offset

/-- What a written moment is read as. -/
theorem scan_chars (t : Timestamp) :
    scan t.chars =
      (ofClock? t.date (t.second / 3600 * 3600 + t.second / 60 % 60 * 60)
        (t.second % 60 + t.nano / 1000000000) (t.nano % 1000000000) 0).map (·, []) := by
  obtain ⟨⟨year, month, day⟩, second, nano, hday, hsecond, hnano⟩ := t
  simp only [Day.isValid, Bool.and_eq_true, decide_eq_true_eq] at hday
  obtain ⟨⟨⟨⟨hyear, hmonth⟩, hmonth'⟩, hday⟩, hday'⟩ := hday
  have hshort : Calendar.daysInMonth year month ≤ 31 := by
    unfold Calendar.daysInMonth
    split <;> try omega
    split <;> omega
  -- Every number is read up to the mark behind it, which is no digit.
  have hdash : ∀ rest, Ends ('-' :: rest) := Numeral.ends_cons (by decide)
  have hcolon : ∀ rest, Ends (':' :: rest) := Numeral.ends_cons (by decide)
  have hyear := fun rest => year_yearText year (hdash rest)
  have hmonth := fun rest => numberIn_padded hmonth hmonth' (by omega) (hdash rest)
  have hday := fun rest => numberIn_padded hday (show day ≤ 31 by omega) (by omega)
    (Numeral.ends_cons (show Numeral.decimalDigit? 'T' = none by decide) rest)
  have hhour := fun rest => numberIn_padded (Nat.zero_le _) (show second / 3600 ≤ 23 by omega)
    (by omega) (hcolon rest)
  have hminute := fun rest => numberIn_padded (Nat.zero_le _)
    (show second / 60 % 60 ≤ 59 by omega) (by omega) (hcolon rest)
  have hlast := numberIn_padded (Nat.zero_le _)
    (show second % 60 + nano / 1000000000 ≤ 60 by omega) (by omega)
    (ends_fractionText (nano % 1000000000))
  have hfraction := fraction_fractionText (show nano % 1000000000 < 1000000000 by omega)
  have hmark := fun rest => mark_self (show Blank.isBlank '-' = false by decide) rest
  have hmark' := fun rest => mark_self (show Blank.isBlank ':' = false by decide) rest
  simp only [scan, chars, dateText, clockText, List.append_assoc, List.cons_append, hyear, some_bind, hmark, hmonth,
    hday, separator, hhour, hmark', hminute, hlast, hfraction, offset_zulu, ofClock?]
  rw [if_pos (by decide)]
  split <;> exact Option.map_eq_bind.symm

theorem ofLocal?_self (t : Timestamp) : ofLocal? t.date t.second t.nano 0 = some t := by
  have hmake : make? t.date t.second t.nano = some t := dif_pos t.valid
  have hsame : (t.second : Int) - 0 = t.second := Int.sub_zero _
  have hstart : ¬ (t.second : Int) < 0 := by omega
  have hend : (t.second : Int) < 86400 := Int.ofNat_lt.mpr t.valid.2.1
  rw [ofLocal?, if_pos t.valid.1, hsame, if_neg hstart, if_pos hend, Int.toNat_natCast, hmake]

theorem ofText?_of_isProper {t : Timestamp} (h : t.IsProper) : ofText? t.toText = some t := by
  have hself := ofLocal?_self t
  have hread : scan t.chars = some (t, []) := by
    rw [scan_chars, ofClock?]
    rcases Nat.lt_or_ge t.nano 1000000000 with hplain | hleap
    · have hwhole : t.nano / 1000000000 = 0 := by omega
      have htime : t.second / 3600 * 3600 + t.second / 60 % 60 * 60 + t.second % 60 = t.second := by
        omega
      rw [hwhole, Nat.add_zero, if_neg (by omega), Nat.mod_eq_of_lt hplain, htime, hself]
      rfl
    · have hlast : t.second % 60 = 59 := h.resolve_left (by omega)
      have hnano := t.valid.2.2
      have hwhole : t.nano / 1000000000 = 1 := by omega
      have htime : t.second / 3600 * 3600 + t.second / 60 % 60 * 60 + 59 = t.second := by omega
      have hrest : t.nano % 1000000000 + 1000000000 = t.nano := by omega
      rw [hwhole, hlast, if_pos rfl, htime, hrest, hself]
      rfl
  rw [ofText?, toText, String.toList_ofList, hread, some_bind]
  exact if_pos (by decide)

/-! ## What is read -/

theorem make?_some {date : Day} {second nano : Nat} {t : Timestamp}
    (h : make? date second nano = some t) : t.second = second ∧ t.nano = nano := by
  unfold make? at h
  split at h
  · obtain rfl := Option.some.inj h
    exact ⟨rfl, rfl⟩
  · simp at h

theorem ofLocal?_some {date : Day} {second nano : Nat} {offset : Int} {t : Timestamp}
    (hoffset : offset.natAbs < 86400) (h : ofLocal? date second nano offset = some t) :
    t.nano = nano ∧ (t.second : Int) % 60 = ((second : Int) - offset) % 60 := by
  unfold ofLocal? at h
  split at h
  · simp only at h
    split at h
    · obtain ⟨hsecond, hnano⟩ := make?_some h
      exact ⟨hnano, by omega⟩
    · split at h <;>
      · obtain ⟨hsecond, hnano⟩ := make?_some h
        exact ⟨hnano, by omega⟩
  · simp at h

theorem isProper_of_ofClock? {date : Day} {start second nano : Nat} {offset : Int} {t : Timestamp}
    (hstart : start % 60 = 0) (hnano : nano < 1000000000) (hminutes : offset % 60 = 0)
    (hoffset : offset.natAbs < 86400) (h : ofClock? date start second nano offset = some t) :
    t.IsProper := by
  unfold ofClock? at h
  split at h
  · obtain ⟨-, hsecond⟩ := ofLocal?_some hoffset h
    exact .inr (by omega)
  · obtain ⟨hkept, -⟩ := ofLocal?_some hoffset h
    exact .inl (by omega)

/-- A run of digits is as small as it is short. -/
theorem digits_lt {limit n : Nat} {cs rest : List Char} (h : digits limit cs = some (n, rest)) :
    cs.length - rest.length ≤ limit ∧ n < 10 ^ (cs.length - rest.length) := by
  unfold digits at h
  generalize hds : ((cs.take limit).takeWhile fun c =>
    (Numeral.decimalDigit? c).isSome).filterMap Numeral.decimalDigit? = ds at h
  simp only at h
  split at h
  · simp at h
  · obtain ⟨rfl, rfl⟩ := Prod.mk.inj (Option.some.inj h)
    have hsmall : ∀ d ∈ ds, d < 10 := by
      intro d hd
      rw [← hds] at hd
      obtain ⟨c, -, hc⟩ := List.mem_filterMap.mp hd
      exact Numeral.decimalDigit?_lt hc
    have hlength : ds.length ≤ (cs.take limit).length := by
      rw [← hds]
      exact Nat.le_trans (List.length_filterMap_le _ _) (List.takeWhile_prefix _).length_le
    rw [List.length_take] at hlength
    have htaken : cs.length - (cs.drop ds.length).length = ds.length := by
      rw [List.length_drop]
      omega
    rw [htaken]
    exact ⟨by omega, Numeral.ofDigits_lt hsmall⟩

theorem fraction_lt {nano : Nat} {cs rest : List Char} (h : fraction cs = some (nano, rest)) :
    nano < 1000000000 := by
  unfold fraction at h
  split at h
  · next behind =>
    simp only [bind_eq_some, Prod.exists, Option.some.injEq, Prod.mk.injEq] at h
    obtain ⟨n, after, hread, rfl, -⟩ := h
    obtain ⟨hnine, hn⟩ := digits_lt hread
    generalize behind.length - after.length = taken at hnine hn ⊢
    calc n * 10 ^ (9 - taken)
        < 10 ^ taken * 10 ^ (9 - taken) :=
          Nat.mul_lt_mul_of_pos_right hn (Nat.pow_pos (by decide))
      _ = 10 ^ 9 := by rw [← Nat.pow_add, Nat.add_sub_cancel' hnine]
  · obtain ⟨rfl, -⟩ := Prod.mk.inj (Option.some.inj h)
    decide

theorem offsetSize_minutes {n : Nat} {cs rest : List Char} (h : offsetSize cs = some (n, rest)) :
    n % 60 = 0 := by
  simp only [offsetSize, bind_eq_some, Prod.exists] at h
  obtain ⟨hours, after, -, minutes, last, -, hread⟩ := h
  split at hread
  · obtain ⟨rfl, -⟩ := Prod.mk.inj (Option.some.inj hread)
    omega
  · simp at hread

theorem offset_minutes {n : Int} {cs rest : List Char} (h : offset cs = some (n, rest)) :
    n % 60 = 0 := by
  unfold offset at h
  split at h
  · obtain ⟨rfl, -⟩ := Prod.mk.inj (Option.some.inj h)
    rfl
  · split at h
    case h_6 => simp at h
    case h_1 | h_2 =>
      obtain ⟨rfl, -⟩ := Prod.mk.inj (Option.some.inj h)
      rfl
    case h_3 | h_4 | h_5 =>
      obtain ⟨⟨size, after⟩, hsize, hn⟩ := Option.map_eq_some_iff.mp h
      obtain ⟨rfl, -⟩ := Prod.mk.inj hn
      have hminutes := offsetSize_minutes hsize
      omega

theorem isProper_of_scan {cs rest : List Char} {t : Timestamp} (h : scan cs = some (t, rest)) :
    t.IsProper := by
  simp only [scan, bind_eq_some, Prod.exists] at h
  obtain ⟨year, cs, -, cs, -, month, cs, -, cs, -, day, cs, -, cs, -, hour, cs, -, cs, -, minute,
    cs, -, cs, -, second, cs, -, nano, cs, hnano, offset, cs, hoffset, h⟩ := h
  split at h
  · next hday =>
    have hclock : ofClock? ⟨year, month, day⟩ (hour * 3600 + minute * 60) second nano offset =
        some t := by
      unfold ofClock?
      split at h <;>
      · next hsixty =>
        obtain ⟨t', ht, hsame⟩ := bind_eq_some.mp h
        obtain ⟨rfl, -⟩ := Prod.mk.inj (Option.some.inj hsame)
        simp [hsixty, ht]
    exact isProper_of_ofClock? (by omega) (fraction_lt hnano) (offset_minutes hoffset) hday hclock
  · simp at h

theorem isProper_of_ofText? {text : String} {t : Timestamp} (h : ofText? text = some t) :
    t.IsProper := by
  simp only [ofText?, bind_eq_some, Prod.exists] at h
  obtain ⟨t', rest, hscan, h⟩ := h
  split at h
  · obtain rfl := Option.some.inj h
    exact isProper_of_scan hscan
  · simp at h

/-- A moment is read from its written form as itself exactly if universal time has it. -/
theorem ofText?_toText_iff (t : Timestamp) : ofText? t.toText = some t ↔ t.IsProper :=
  ⟨isProper_of_ofText?, ofText?_of_isProper⟩

end MintSale.Timestamp
