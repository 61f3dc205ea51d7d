import MintSale.Json.Printer
import MintSale.Json.Reader
import MintSale.Proofs.Text.Digits

/-!
# Reading what was written

A value that has a text of its own is read from that text as itself, whatever the strings in it are
made of.
-/

namespace MintSale.Json

open Numeral (Ends spelled)

/-! ## Values with a text of their own -/

/-- A value with a text of its own, and a bound on how deep it nests. -/
inductive Nests : (depth : Nat) → Json → Prop where
  | null {depth : Nat} : Nests depth .null
  | bool {depth : Nat} (b : Bool) : Nests depth (.bool b)
  | int {depth : Nat} {n : Int} (hlow : -((1 <<< 63 : Nat) : Int) ≤ n)
      (hhigh : n < (UInt64.size : Nat)) : Nests depth (.int n)
  | string {depth : Nat} (s : String) : Nests depth (.string (some s))
  | array {depth : Nat} {items : List Json} (hitems : ∀ item ∈ items, Nests depth item) :
      Nests (depth + 1) (.array items)
  | object {depth : Nat} {members : List (Option String × Json)}
      (hkeys : ∀ member ∈ members, member.1.isSome)
      (hvalues : ∀ member ∈ members, Nests depth member.2) : Nests (depth + 1) (.object members)

theorem holdItems_of_forall {room : Nat} {items : List Json}
    (h : ∀ item ∈ items, hold room item = .ok ()) : holdItems room items = .ok () := by
  induction items with
  | nil => rfl
  | cons item items ih =>
      have hitem := h item List.mem_cons_self
      have hrest := ih fun x hx => h x (List.mem_cons_of_mem item hx)
      rw [holdItems, hitem]
      exact hrest

theorem holdMembers_of_forall {room : Nat} {members : List (Option String × Json)}
    (hkeys : ∀ member ∈ members, member.1.isSome)
    (h : ∀ member ∈ members, hold room member.2 = .ok ()) : holdMembers room members = .ok () := by
  induction members with
  | nil => rfl
  | cons member members ih =>
      obtain ⟨key, value⟩ := member
      obtain ⟨key, rfl⟩ := Option.isSome_iff_exists.mp (hkeys (key, value) List.mem_cons_self)
      have hvalue := h (some key, value) List.mem_cons_self
      have hrest := ih (fun x hx => hkeys x (List.mem_cons_of_mem _ hx))
        fun x hx => h x (List.mem_cons_of_mem _ hx)
      rw [holdMembers, holdMember, hvalue]
      exact hrest

/-- Such a value can be held where there is room for it. -/
theorem Nests.hold {depth : Nat} {j : Json} (h : j.Nests depth) {room : Nat}
    (hroom : depth < room) : j.hold room = .ok () := by
  induction h generalizing room with
  | null | bool | int | string => rfl
  | array hitems ih =>
      have hdescend : descend room = .ok (room - 1) := if_neg (by omega)
      rw [Json.hold, hdescend]
      exact holdItems_of_forall fun item hitem => ih item hitem (by omega)
  | object hkeys hvalues ih =>
      have hdescend : descend room = .ok (room - 1) := if_neg (by omega)
      rw [Json.hold, hdescend]
      exact holdMembers_of_forall hkeys fun member hmember => ih member hmember (by omega)

/-! ## Strings -/

theorem spell_unit {n : Nat} (h : n < 0xD800) (ps : List Piece) :
    spell (.unit n :: ps) = (spell ps).map (Char.ofNat n :: ·) := by
  have hhigh : ¬ (0xD800 ≤ n ∧ n < 0xDC00) := by omega
  have hlow : ¬ (0xDC00 ≤ n ∧ n < 0xE000) := by omega
  have hnone : ¬ (0xD800 ≤ n ∧ n < 0xE000) := by omega
  cases ps with
  | nil => simp [spell, hnone]
  | cons p ps =>
      cases p with
      | plain c => simp [spell, hnone]
      | unit low => simp [spell, hhigh, hlow]

/-- Control characters without a short escape are written as two hexadecimal digits. -/
theorem unit?_digitChar {n : Nat} (h : n < 0x20) :
    unit? '0' '0' (Hex.digitChar (n / 16)) (Hex.digitChar (n % 16)) = some n := by
  have hzero : Hex.digit? '0' = some 0 := by decide
  have hhigh := Hex.digit?_digitChar (show n / 16 < 16 by omega)
  have hlow := Hex.digit?_digitChar (show n % 16 < 16 by omega)
  simp only [unit?, hzero, hhigh, hlow, Option.bind_eq_bind, Option.bind_some, Option.some.injEq]
  omega

theorem pieces_plain {c : Char} (hquote : c ≠ '"') (hslash : c ≠ '\\') (hcontrol : ¬ c.toNat < 0x20)
    {cs rest : List Char} {ps : List Piece} (h : pieces cs = some (ps, rest)) :
    pieces (c :: cs) = some (.plain c :: ps, rest) := by
  rw [pieces.eq_def]
  split
  · next hsame => simp at hsame
  · next hsame => exact absurd (List.cons.inj hsame).1 hquote
  · next hsame => exact absurd (List.cons.inj hsame).1 hslash
  · next hsame => exact absurd (List.cons.inj hsame).1 hslash
  · next hsame =>
    obtain ⟨rfl, rfl⟩ := List.cons.inj hsame
    simp [hcontrol, hslash, h]

/-- An escaped character is one piece of a string, and spells just that character. -/
theorem pieces_escape (c : Char) {cs rest : List Char} {ps : List Piece}
    (h : pieces cs = some (ps, rest)) :
    ∃ p, pieces (escape c ++ cs) = some (p :: ps, rest) ∧
      spell (p :: ps) = (spell ps).map (c :: ·) := by
  unfold escape
  -- Seven characters have a short escape.
  iterate 7
    split
    · next hc => exact ⟨.plain c, by simp [pieces, shortEscape?, h, hc], rfl⟩
  split
  · next hcontrol =>
    refine ⟨.unit c.toNat, ?_, ?_⟩
    · simp [pieces, unit?_digitChar hcontrol, h]
    · rw [spell_unit (by omega), Char.ofNat_toNat]
  · next hquote hslash _ _ _ _ _ hcontrol =>
    exact ⟨.plain c, pieces_plain hquote hslash hcontrol h, rfl⟩

theorem string?_quoted (s : String) (rest : List Char) :
    string? (s.toList.flatMap escape ++ '"' :: rest) = some (some s, rest) := by
  have hpieces : ∃ ps, pieces (s.toList.flatMap escape ++ '"' :: rest) = some (ps, rest) ∧
      spell ps = some s.toList := by
    induction s.toList with
    | nil => exact ⟨[], by simp [pieces], rfl⟩
    | cons c cs ih =>
        obtain ⟨ps, hps, hspell⟩ := ih
        obtain ⟨p, hp, hspell'⟩ := pieces_escape c hps
        exact ⟨p :: ps, by simpa using hp, by rw [hspell', hspell]; rfl⟩
  obtain ⟨ps, hps, hspell⟩ := hpieces
  simp [string?, hps, hspell]

/-! ## Numbers -/

/-- What may follow a value in a text that was written. -/
def Follows (rest : List Char) : Prop :=
  ∀ c ∈ rest.head?, c = ',' ∨ c = ']' ∨ c = '\x7d'

theorem Follows.ends {rest : List Char} (h : Follows rest) : Ends rest := by
  intro c hc
  rcases h c hc with rfl | rfl | rfl <;> decide

theorem Follows.fraction?_eq {rest : List Char} (h : Follows rest) :
    fraction? rest = some (none, rest) := by
  unfold fraction?
  split
  · exact absurd (h '.' rfl) (by decide)
  · rfl

theorem Follows.exponent?_eq {rest : List Char} (h : Follows rest) :
    exponent? rest = some (none, rest) := by
  unfold exponent?
  simp only
  split
  · exact absurd (h 'e' rfl) (by decide)
  · exact absurd (h 'E' rfl) (by decide)
  · rfl

theorem digitRun_spelled {ds : List Nat} (h : ∀ d ∈ ds, d < 10) {rest : List Char}
    (hrest : Ends rest) : digitRun (spelled ds ++ rest) = (ds, rest) := by
  have hlength : (spelled ds).length = ds.length := by simp [spelled]
  simp [digitRun, Numeral.takeWhile_spelled h hrest, Numeral.filterMap_spelled h]

theorem le_foldl (m : Nat) (ds : List Nat) : m ≤ ds.foldl (fun n d => 10 * n + d) m := by
  induction ds generalizing m with
  | nil => exact Nat.le_refl m
  | cons d ds ih =>
      have hle := ih (10 * m + d)
      rw [List.foldl_cons]
      omega

/-- Digits that spell a number of 64 bits all have room. -/
theorem fill_foldl {m : Nat} {ds : List Nat}
    (h : ds.foldl (fun n d => 10 * n + d) m < UInt64.size) :
    fill m ds = (ds.foldl (fun n d => 10 * n + d) m, []) := by
  induction ds generalizing m with
  | nil => rfl
  | cons d ds ih =>
      have hle := le_foldl (10 * m + d) ds
      rw [List.foldl_cons] at h ⊢
      rw [fill, if_pos (by omega), ih h]

theorem number?_decimal (negative : Bool) (n : Nat) {rest : List Char} (hrest : Follows rest) :
    number? negative (Numeral.decimal n ++ rest) =
      some (Decimal.value negative ⟨Numeral.digits 10 n, none, none⟩, rest) := by
  have hrun := digitRun_spelled (Numeral.digit_lt (by omega) n) hrest.ends
  rw [Numeral.decimal_eq, number?, hrun]
  cases hds : Numeral.digits 10 n with
  | nil => exact absurd hds (Numeral.digits_ne_nil 10 n)
  | cons d ds =>
      cases ds with
      | nil => simp [hrest.fraction?_eq, hrest.exponent?_eq]
      | cons d' ds =>
          have hd := Numeral.digits_head hds (by simp)
          cases d with
          | zero => exact absurd rfl hd
          | succ d => simp [hrest.fraction?_eq, hrest.exponent?_eq]

theorem value_digits (negative : Bool) {n : Nat} (hn : n < UInt64.size) :
    Decimal.value negative ⟨Numeral.digits 10 n, none, none⟩ =
      if !negative then .int n
      else if 0 < n ∧ n ≤ 1 <<< 63 then .int (-(n : Int))
      else .real true := by
  have hdigits := Numeral.ofDigits_digits 10 n
  have hfill : fill 0 (Numeral.digits 10 n) = (n, []) := by
    rw [Numeral.ofDigits] at hdigits
    rw [fill_foldl (by rwa [hdigits]), hdigits]
  simp [Decimal.value, hfill]

/-! ## Values -/

/-- A value is read from its text as itself, whatever may follow. Its text begins with no blank and
does not look like the end of an array. -/
structure Legible (j : Json) : Prop where
  head : ∃ c cs, j.chars = c :: cs ∧ isBlank c = false ∧ c ≠ ']'
  value_succ : ∀ fuel rest, Follows rest → j.chars.length ≤ fuel →
    value (fuel + 1) (j.chars ++ rest) = (j, rest)

theorem Legible.value_chars {j : Json} (h : Legible j) (fuel : Nat) {rest : List Char}
    (hrest : Follows rest) (hfuel : j.chars.length < fuel) :
    value fuel (j.chars ++ rest) = (j, rest) := by
  obtain ⟨k, rfl⟩ : ∃ k, fuel = k + 1 := ⟨fuel - 1, by omega⟩
  exact h.value_succ k rest hrest (by omega)

theorem skipBlanks_of_not_isBlank {c : Char} (h : isBlank c = false) (cs : List Char) :
    skipBlanks (c :: cs) = c :: cs := by
  simp [skipBlanks, h]

theorem value_digit {d : Nat} (hd : d < 10) (fuel : Nat) (cs : List Char) :
    value (fuel + 1) (Numeral.decimalChar d :: cs) =
      (number? false (Numeral.decimalChar d :: cs)).getD (.torn, []) := by
  match d, hd with
  | 0, _ | 1, _ | 2, _ | 3, _ | 4, _ | 5, _ | 6, _ | 7, _ | 8, _ | 9, _ => rfl

theorem legible_int {n : Int} (hlow : -((1 <<< 63 : Nat) : Int) ≤ n)
    (hhigh : n < (UInt64.size : Nat)) : Legible (.int n) := by
  have hsize : UInt64.size = 2 * (1 <<< 63) := by decide
  by_cases hnegative : n < 0
  · have hchars : (Json.int n).chars = '-' :: Numeral.decimal n.natAbs := by
      rw [chars, intChars, if_pos hnegative]
    refine ⟨⟨'-', _, hchars, by decide, by decide⟩, fun fuel rest hrest _ => ?_⟩
    have hsmall : n.natAbs < UInt64.size := by omega
    have hvalue : -(n.natAbs : Int) = n := by omega
    have hread : value (fuel + 1) ('-' :: Numeral.decimal n.natAbs ++ rest) =
        (number? true (Numeral.decimal n.natAbs ++ rest)).getD (.torn, []) := rfl
    rw [hchars, hread, number?_decimal true _ hrest, value_digits true hsmall, if_neg (by simp),
      if_pos (by omega), hvalue]
    rfl
  · have hchars : (Json.int n).chars = Numeral.decimal n.toNat := by
      rw [chars, intChars, if_neg hnegative]
    have hsmall : n.toNat < UInt64.size := by omega
    have hvalue : (n.toNat : Int) = n := Int.toNat_of_nonneg (by omega)
    have hkinds : ∀ d < 10, isBlank (Numeral.decimalChar d) = false ∧
        Numeral.decimalChar d ≠ ']' := by decide
    obtain ⟨d, hd, cs, hcs⟩ := Numeral.exists_spelled_eq
      (Numeral.digit_lt (show 2 ≤ 10 by omega) n.toNat) (Numeral.digits_ne_nil 10 n.toNat)
    rw [Numeral.decimal_eq, hcs] at hchars
    refine ⟨⟨_, _, hchars, hkinds d hd⟩, fun fuel rest hrest _ => ?_⟩
    have hnumber := number?_decimal false n.toNat hrest
    rw [value_digits false hsmall, if_pos (by simp), hvalue, Numeral.decimal_eq, hcs,
      List.cons_append] at hnumber
    rw [hchars, List.cons_append, value_digit hd, hnumber]
    rfl

/-- A string in quotes is read as that string. -/
theorem legible_string (s : String) : Legible (.string (some s)) := by
  refine ⟨⟨'"', _, rfl, by decide, by decide⟩, fun fuel rest _ _ => ?_⟩
  have hread := string?_quoted s rest
  simp [chars, quoted, value, skipBlanks, isBlank, hread]

/-! ## Items and members -/

theorem follows_itemsTail (more : List Json) (rest : List Char) :
    Follows (itemsTail more ++ rest) := by
  cases more <;> simp [Follows, itemsTail]

theorem follows_membersTail (more : List (Option String × Json)) (rest : List Char) :
    Follows (membersTail more ++ rest) := by
  cases more <;> simp [Follows, membersTail]

theorem items_chars {item : Json} {more : List Json} (h : ∀ x ∈ item :: more, Legible x)
    {fuel : Nat} (hfuel : item.chars.length + (itemsTail more).length < fuel) (rest : List Char) :
    items fuel (item.chars ++ (itemsTail more ++ rest)) = (item :: more, rest) := by
  -- On the items behind the first: each of them takes one of the fuel, and its comma pays for it.
  induction more generalizing item fuel with
  | nil =>
      obtain ⟨k, rfl⟩ : ∃ k, fuel = k + 1 := ⟨fuel - 1, by omega⟩
      have hlength : (itemsTail []).length = 1 := rfl
      have hvalue := (h item List.mem_cons_self).value_chars k
        (follows_itemsTail [] rest) (by omega)
      rw [items, hvalue]
      rfl
  | cons next more ih =>
      obtain ⟨k, rfl⟩ : ∃ k, fuel = k + 1 := ⟨fuel - 1, by omega⟩
      have hlength : (itemsTail (next :: more)).length =
          1 + next.chars.length + (itemsTail more).length := by
        simp only [itemsTail, List.cons_append, List.length_cons, List.length_append]
        omega
      have hvalue := (h item List.mem_cons_self).value_chars k
        (follows_itemsTail (next :: more) rest) (by omega)
      have hmore : items k (next.chars ++ (itemsTail more ++ rest)) = (next :: more, rest) :=
        ih (fun x hx => h x (List.mem_cons_of_mem item hx)) (by omega)
      rw [items, hvalue]
      simp [itemsTail, hmore, skipBlanks, isBlank]

/-- A member that has been read, and what is read behind it: the brace, or further members. -/
def memberThen (fuel : Nat) (member : Option String × Json) (rest : List Char) :
    List (Option String × Json) × List Char :=
  match skipBlanks rest with
  | '\x7d' :: rest => ([member], rest)
  | ',' :: rest => (member :: (members fuel rest).1, (members fuel rest).2)
  | _ => ([member, (none, .torn)], [])

theorem members_memberChars (key : String) {j : Json} (hj : Legible j) {fuel : Nat}
    {rest : List Char} (hrest : Follows rest)
    (hfuel : (memberChars (some key, j)).length ≤ fuel) :
    members (fuel + 1) (memberChars (some key, j) ++ rest) =
      memberThen fuel (some key, j) rest := by
  have hkey := string?_quoted key (':' :: (j.chars ++ rest))
  have hvalue := hj.value_chars fuel hrest (by
    simp only [memberChars, List.length_append, List.length_cons] at hfuel
    omega)
  simp only [members, memberChars, quoted, Option.getD_some, List.cons_append, List.append_assoc,
    List.nil_append, skipBlanks_of_not_isBlank (show isBlank '"' = false by decide),
    skipBlanks_of_not_isBlank (show isBlank ':' = false by decide), hkey, hvalue]
  rfl

theorem members_chars {key : String} {j : Json} {more : List (Option String × Json)}
    (hkeys : ∀ member ∈ more, member.1.isSome) (hj : Legible j)
    (h : ∀ member ∈ more, Legible member.2) {fuel : Nat}
    (hfuel : (memberChars (some key, j)).length + (membersTail more).length < fuel)
    (rest : List Char) :
    members fuel (memberChars (some key, j) ++ (membersTail more ++ rest)) =
      ((some key, j) :: more, rest) := by
  induction more generalizing key j fuel with
  | nil =>
      obtain ⟨k, rfl⟩ : ∃ k, fuel = k + 1 := ⟨fuel - 1, by omega⟩
      rw [members_memberChars key hj (follows_membersTail [] rest) (by omega)]
      rfl
  | cons next more ih =>
      obtain ⟨nextKey, nextValue⟩ := next
      obtain ⟨nextKey, rfl⟩ := Option.isSome_iff_exists.mp (hkeys _ List.mem_cons_self)
      obtain ⟨k, rfl⟩ : ∃ k, fuel = k + 1 := ⟨fuel - 1, by omega⟩
      have hlength : (membersTail ((some nextKey, nextValue) :: more)).length =
          1 + (memberChars (some nextKey, nextValue)).length + (membersTail more).length := by
        simp only [membersTail, List.cons_append, List.length_cons, List.length_append]
        omega
      have hnext : Legible nextValue := h (some nextKey, nextValue) List.mem_cons_self
      have hmore : members k (memberChars (some nextKey, nextValue) ++
          (membersTail more ++ rest)) = ((some nextKey, nextValue) :: more, rest) :=
        ih (fun x hx => hkeys x (List.mem_cons_of_mem _ hx)) hnext
          (fun x hx => h x (List.mem_cons_of_mem _ hx)) (by omega)
      rw [members_memberChars key hj (follows_membersTail _ rest) (by omega)]
      simp [memberThen, membersTail, hmore, skipBlanks, isBlank]

/-! ## Arrays and objects -/

theorem value_bracket {c : Char} (hblank : isBlank c = false) (hclose : c ≠ ']') (fuel : Nat)
    (cs : List Char) :
    value (fuel + 1) ('[' :: c :: cs) =
      (.array (items fuel (c :: cs)).1, (items fuel (c :: cs)).2) := by
  simp only [value, skipBlanks_of_not_isBlank hblank,
    skipBlanks_of_not_isBlank (show isBlank '[' = false by decide)]
  split
  · next hsame => exact absurd (List.cons.inj hsame).1 hclose
  · rfl

theorem legible_array {values : List Json} (h : ∀ x ∈ values, Legible x) :
    Legible (.array values) := by
  cases values with
  | nil => exact ⟨⟨'[', _, rfl, by decide, by decide⟩, fun _ _ _ _ => rfl⟩
  | cons item more =>
      refine ⟨⟨'[', _, rfl, by decide, by decide⟩, fun fuel rest _ hfuel => ?_⟩
      obtain ⟨c, cs, hhead, hblank, hclose⟩ := (h item List.mem_cons_self).head
      simp only [chars, List.cons_append, List.length_cons, List.length_append] at hfuel
      have hread := items_chars h (show item.chars.length + (itemsTail more).length < fuel by omega)
        rest
      have hvalue := value_bracket hblank hclose fuel (cs ++ (itemsTail more ++ rest))
      rw [hhead, List.cons_append] at hread
      rw [hread] at hvalue
      simpa [chars, hhead] using hvalue

theorem legible_object {members : List (Option String × Json)}
    (hkeys : ∀ member ∈ members, member.1.isSome) (h : ∀ member ∈ members, Legible member.2) :
    Legible (.object members) := by
  cases members with
  | nil => exact ⟨⟨'\x7b', _, rfl, by decide, by decide⟩, fun _ _ _ _ => rfl⟩
  | cons member more =>
      obtain ⟨key, j⟩ := member
      obtain ⟨key, rfl⟩ := Option.isSome_iff_exists.mp (hkeys (key, j) List.mem_cons_self)
      refine ⟨⟨'\x7b', _, rfl, by decide, by decide⟩, fun fuel rest _ hfuel => ?_⟩
      simp only [chars, List.cons_append, List.length_cons, List.length_append] at hfuel
      have hread := members_chars (fun x hx => hkeys x (List.mem_cons_of_mem _ hx))
        (h (some key, j) List.mem_cons_self) (fun x hx => h x (List.mem_cons_of_mem _ hx))
        (show (memberChars (some key, j)).length + (membersTail more).length < fuel by omega) rest
      have hvalue : value (fuel + 1) (chars (.object ((some key, j) :: more)) ++ rest) =
          (.object (Json.members fuel (memberChars (some key, j) ++ (membersTail more ++ rest))).1,
            (Json.members fuel (memberChars (some key, j) ++ (membersTail more ++ rest))).2) := by
        rw [chars, List.cons_append, List.cons_append, List.append_assoc]
        rfl
      rw [hvalue, hread]

/-- A value with a text of its own is read from it. -/
theorem Nests.legible {depth : Nat} {j : Json} (h : j.Nests depth) : Legible j := by
  induction h with
  | null => exact ⟨⟨'n', _, rfl, by decide, by decide⟩, fun _ _ _ _ => rfl⟩
  | bool b =>
      cases b with
      | true => exact ⟨⟨'t', _, rfl, by decide, by decide⟩, fun _ _ _ _ => rfl⟩
      | false => exact ⟨⟨'f', _, rfl, by decide, by decide⟩, fun _ _ _ _ => rfl⟩
  | int hlow hhigh => exact legible_int hlow hhigh
  | string s => exact legible_string s
  | array _ ih => exact legible_array ih
  | object hkeys _ ih => exact legible_object hkeys ih

theorem read_print {depth : Nat} {j : Json} (h : j.Nests depth) : read j.print = (j, []) := by
  have hend : Follows [] := by simp [Follows]
  have hread := h.legible.value_chars (j.chars.length + 1) hend (by omega)
  simpa [read, print] using hread

end MintSale.Json
