import MintSale.Proofs.Calldata

/-!
# Return data, read exactly

A reader of return data needs so many words and looks at no byte behind them. It gives a value
exactly for those words that encode it, and refuses all others: a number that does not fit where it
is wanted is never cut down to one that does.
-/

namespace MintSale

theorem Amount.ofNat?_eq_some_iff {n : Nat} {a : Amount} : ofNat? n = some a ↔ n = a.toNat := by
  constructor
  · intro h
    unfold ofNat? at h
    split at h
    · obtain rfl := Option.some.inj h
      rfl
    · simp at h
  · rintro rfl
    exact dif_pos a.toNat_lt

namespace ReturnData

theorem bind_eq_ok {α β : Type} {x : Except AbiFault α} {f : α → Except AbiFault β} {b : β} :
    x >>= f = .ok b ↔ ∃ a, x = .ok a ∧ f a = .ok b := by
  cases x with
  | error fault => simp [bind, Except.bind]
  | ok a => simp [bind, Except.bind]

/-! ## Single words -/

variable {word : Word}

theorem amount_eq_ok_iff {a : Amount} : amount word = .ok a ↔ word.toNat = a.toNat := by
  rw [← Amount.ofNat?_eq_some_iff, amount]
  cases Amount.ofNat? word.toNat <;> simp

theorem count_eq_ok_iff {n : UInt64} : count word = .ok n ↔ word.toNat = n.toNat := by
  simp only [count, bind_eq_ok, amount_eq_ok_iff]
  constructor
  · rintro ⟨a, hword, hn⟩
    split at hn
    · next hlt =>
      rw [hword, ← Except.ok.inj hn]
      exact (UInt64.toNat_ofNat_of_lt' hlt).symm
    · simp at hn
  · intro hword
    refine ⟨.ofUInt64 n, hword, ?_⟩
    have hn : UInt64.ofNat n.toNat = n := by simp
    exact (if_pos n.toNat_lt_size).trans (congrArg Except.ok hn)

theorem flag_eq_ok_iff {b : Bool} : flag word = .ok b ↔ word.toNat = b.toNat := by
  simp only [flag, bind_eq_ok, amount_eq_ok_iff]
  constructor
  · rintro ⟨a, hword, hb⟩
    rw [hword]
    split at hb
    · next hzero =>
      obtain rfl := Except.ok.inj hb
      exact hzero
    · next hone =>
      obtain rfl := Except.ok.inj hb
      exact hone
    · simp at hb
  · intro hword
    cases b with
    | false => exact ⟨⟨0, by decide⟩, hword, rfl⟩
    | true => exact ⟨⟨1, by decide⟩, hword, rfl⟩

theorem decimals_eq_ok_iff {n : UInt8} : decimals word = .ok n ↔ word.toNat = n.toNat := by
  simp only [decimals, bind_eq_ok, count_eq_ok_iff]
  constructor
  · rintro ⟨m, hword, hn⟩
    split at hn
    · next hlt =>
      rw [hword, ← Except.ok.inj hn]
      exact (UInt8.toNat_ofNat_of_lt' hlt).symm
    · simp at hn
  · intro hword
    refine ⟨n.toUInt64, by simpa using hword, ?_⟩
    rw [if_pos (by simpa using n.toNat_lt_size)]
    simp

/-! ## Words in data -/

/-- Data that are long enough begin with words. -/
theorem exists_words {least : Nat} {data : List UInt8} (h : 32 * least ≤ data.length) :
    ∃ ws : List Word, ws.length = least ∧
      ∃ rest, data = ws.flatMap Octets.toList ++ rest := by
  induction least generalizing data with
  | zero => exact ⟨[], rfl, data, rfl⟩
  | succ least ih =>
      have hfirst : (data.take 32).length = 32 := by
        rw [List.length_take]
        omega
      obtain ⟨ws, hlength, rest, hdata⟩ : ∃ ws : List Word, ws.length = least ∧
          ∃ rest, data.drop 32 = ws.flatMap Octets.toList ++ rest := by
        apply ih
        rw [List.length_drop]
        omega
      refine ⟨⟨data.take 32, hfirst⟩ :: ws, by rw [List.length_cons, hlength], rest, ?_⟩
      rw [List.flatMap_cons, List.append_assoc, ← hdata]
      exact (List.take_append_drop 32 data).symm

theorem wholeWords_append (ws : List Word) (rest : List UInt8) (more : Nat) :
    wholeWords (ws.length + more) (ws.flatMap Octets.toList ++ rest) =
      ws ++ wholeWords more rest := by
  induction ws with
  | nil => simp
  | cons word ws ih =>
      have htake : ((word :: ws).flatMap Octets.toList ++ rest).take 32 = word.toList := by
        rw [List.flatMap_cons, List.append_assoc, List.take_left' word.length_toList]
      have hdrop : ((word :: ws).flatMap Octets.toList ++ rest).drop 32 =
          ws.flatMap Octets.toList ++ rest := by
        rw [List.flatMap_cons, List.append_assoc, List.drop_left' word.length_toList]
      rw [List.length_cons, Nat.add_right_comm, wholeWords, htake, hdrop, Octets.ofList?_toList]
      exact congrArg (word :: ·) ih

/-- Data that begin with the words that are needed are split into these and maybe more. -/
theorem words_append {least : Nat} {ws : List Word} (h : ws.length = least) (rest : List UInt8) :
    ∃ more, words least (ws.flatMap Octets.toList ++ rest) = .ok (ws ++ more) := by
  subst h
  have hlength : (ws.flatMap Octets.toList ++ rest).length = 32 * ws.length + rest.length := by
    rw [List.length_append, Octets.length_flatMap_toList]
  have hcount : (32 * ws.length + rest.length) / 32 = ws.length + rest.length / 32 := by omega
  refine ⟨wholeWords (rest.length / 32) rest, ?_⟩
  rw [words, if_neg (by omega), hlength, hcount, wholeWords_append]

theorem words_of_short {least : Nat} {data : List UInt8} (h : data.length < 32 * least) :
    words least data = .error (.tooShort least data.length) :=
  if_pos h

/-! ## Readers -/

/-- A reader gives a value exactly if the data begin with the words that encode it. -/
structure Reads {α : Type} (read : List UInt8 → Except AbiFault α) (least : Nat)
    (Encodes : α → List Word → Prop) : Prop where
  short {data : List UInt8} : data.length < 32 * least →
    read data = .error (.tooShort least data.length)
  length_eq {a : α} {ws : List Word} : Encodes a ws → ws.length = least
  whole {a : α} {ws : List Word} (rest : List UInt8) : ws.length = least →
    (read (ws.flatMap Octets.toList ++ rest) = .ok a ↔ Encodes a ws)

theorem Reads.eq_ok_iff {α : Type} {read : List UInt8 → Except AbiFault α} {least : Nat}
    {Encodes : α → List Word → Prop} (h : Reads read least Encodes) {data : List UInt8} {a : α} :
    read data = .ok a ↔
      ∃ ws, Encodes a ws ∧ ∃ rest, data = ws.flatMap Octets.toList ++ rest := by
  constructor
  · intro hread
    by_cases hlength : data.length < 32 * least
    · simp [h.short hlength] at hread
    · obtain ⟨ws, hws, rest, rfl⟩ := exists_words (Nat.le_of_not_lt hlength)
      exact ⟨ws, (h.whole rest hws).mp hread, rest, rfl⟩
  · rintro ⟨ws, hencodes, rest, rfl⟩
    exact (h.whole rest (h.length_eq hencodes)).mpr hencodes

/-- A reader that splits the data into words only has to be right about the words it needs. -/
theorem reads_words {α : Type} {read : List UInt8 → Except AbiFault α} {least : Nat}
    {Encodes : α → List Word → Prop} {value : List UInt8 → List Word → Except AbiFault α}
    (hread : ∀ data, read data = words least data >>= value data)
    (hlength : ∀ a ws, Encodes a ws → ws.length = least)
    (hvalue : ∀ data a ws more, ws.length = least →
      (value data (ws ++ more) = .ok a ↔ Encodes a ws)) :
    Reads read least Encodes where
  short hshort := by
    rw [hread, words_of_short hshort]
    rfl
  length_eq := hlength _ _
  whole {a ws} rest hws := by
    obtain ⟨more, hwords⟩ := words_append hws rest
    rw [hread, hwords]
    exact hvalue _ a ws more hws

/-- One word that is read on its own. -/
theorem reads_single {α : Type} {value : Word → Except AbiFault α} {Encodes : α → List Word → Prop}
    (hlength : ∀ a ws, Encodes a ws → ws.length = 1)
    (hvalue : ∀ a word, value word = .ok a ↔ Encodes a [word]) :
    Reads (single value) 1 Encodes := by
  refine reads_words (fun _ => rfl) hlength fun data a ws more hws => ?_
  obtain ⟨word, rfl⟩ := List.length_eq_one_iff.mp hws
  exact hvalue a word

end ReturnData

end MintSale
