import Mathlib.Data.List.Induction
import Mathlib.Tactic.Ring
import MintSale.Proofs.Calldata

/-!
# Arguments, read back

The data of a call have one word for each argument, at its own place. For an array this word tells
where its region begins: a word with the number of its items, and then the items. Whoever knows the
types of the arguments can read all of them back. The regions follow one another without gaps behind
the last place, and nothing follows them.
-/

namespace MintSale

/-! ## Numbers in bytes -/

namespace BigEndian

theorem toNat_append (front back : List UInt8) :
    toNat (front ++ back) = toNat front * 256 ^ back.length + toNat back := by
  induction back using List.reverseRecOn with
  | nil => simp [toNat]
  | append_singleton back b ih =>
      rw [← List.append_assoc, toNat_concat, toNat_concat, ih, List.length_append,
        List.length_singleton, Nat.pow_succ]
      ring

theorem toNat_onto (k n : Nat) (rest : List UInt8) :
    toNat (onto k n rest) = n % 256 ^ k * 256 ^ rest.length + toNat rest := by
  induction k generalizing n rest with
  | zero => simp [onto, Nat.mod_one]
  | succ k ih =>
      have hlast : (UInt8.ofNat (n % 256)).toNat = n % 256 := by
        simp [UInt8.toNat_ofNat']
      have hfirst : toNat (UInt8.ofNat (n % 256) :: rest) =
          n % 256 * 256 ^ rest.length + toNat rest := by
        have happend := toNat_append [UInt8.ofNat (n % 256)] rest
        rw [List.singleton_append] at happend
        rw [happend]
        simp [toNat, hlast]
      rw [onto, ih, hfirst, List.length_cons, Nat.pow_succ, Nat.pow_succ, Nat.mul_comm (256 ^ k),
        Nat.mod_mul]
      ring

theorem toNat_bytes (k n : Nat) : toNat (bytes k n) = n % 256 ^ k := by
  rw [bytes, toNat_onto]
  simp [toNat]

end BigEndian

/-- A number that fits is read back from the bytes that it is written in. -/
theorem Octets.toNat_ofNat {n m : Nat} (h : m < 256 ^ n) : (ofNat n m).toNat = m := by
  rw [toNat, ofNat, BigEndian.toNat_bytes, Nat.mod_eq_of_lt h]

theorem Amount.ofNat?_toNat (a : Amount) : ofNat? a.toNat = some a :=
  dif_pos a.toNat_lt

/-- The items of an array. -/
def Argument.items? : Argument → Option (List Hash)
  | .hashes items => some items
  | _ => none

namespace Calldata

/-! ## The reader -/

/-- The word at an offset. -/
def wordAt (data : List UInt8) (offset : Nat) : Option Word :=
  Octets.ofList? ((data.drop offset).take 32)

/-- So many words from an offset on. -/
def wordsAt (data : List UInt8) : (count offset : Nat) → Option (List Word)
  | 0, _ => some []
  | count + 1, offset => do
    let word ← wordAt data offset
    let rest ← wordsAt data count (offset + 32)
    some (word :: rest)

/-- The address in the low bytes of a word. The other bytes must be zero. -/
def address? (word : Word) : Option Address :=
  if word.toList.take 12 = List.replicate 12 0 then Octets.ofList? (word.toList.drop 12) else none

/-- The argument of a type whose place is at an offset. -/
def argumentAt (data : List UInt8) (offset : Nat) : ArgumentType → Option Argument
  | .address => do
    let word ← wordAt data offset
    let a ← address? word
    some (.address a)
  | .uint => do
    let word ← wordAt data offset
    let n ← Amount.ofNat? word.toNat
    some (.uint n)
  | .hashes => do
    let start ← wordAt data offset
    let count ← wordAt data start.toNat
    let items ← wordsAt data count.toNat (start.toNat + 32)
    some (.hashes items)

/-- The arguments of these types whose places begin at an offset. -/
def argumentsAt (data : List UInt8) : (offset : Nat) → List ArgumentType → Option (List Argument)
  | _, [] => some []
  | offset, type :: types => do
    let a ← argumentAt data offset type
    let rest ← argumentsAt data (offset + 32) types
    some (a :: rest)

/-- Reads arguments of these types. -/
def read? (types : List ArgumentType) (data : List UInt8) : Option (List Argument) :=
  argumentsAt data 0 types

/-- A part of the data, from one offset to another. -/
structure Region where
  start : Nat
  stop : Nat
  deriving DecidableEq

/-- The region of an array whose place is at an offset, as the word at that place and the number of
the items have it. -/
def regionAt (data : List UInt8) (offset : Nat) : Option Region := do
  let start ← wordAt data offset
  let count ← wordAt data start.toNat
  some ⟨start.toNat, start.toNat + 32 * (1 + count.toNat)⟩

/-- The regions of all arrays among arguments of these types. -/
def regionsAt (data : List UInt8) : (offset : Nat) → List ArgumentType → Option (List Region)
  | _, [] => some []
  | offset, .hashes :: types => do
    let region ← regionAt data offset
    let rest ← regionsAt data (offset + 32) types
    some (region :: rest)
  | offset, _ :: types => regionsAt data (offset + 32) types

/-! ## Words -/

theorem wordAt_flatMap (ws : List Word) (i : Nat) :
    wordAt (ws.flatMap Octets.toList) (32 * i) = ws[i]? := by
  induction ws generalizing i with
  | nil => simp [wordAt, Octets.ofList?]
  | cons word ws ih =>
      rw [List.flatMap_cons]
      cases i with
      | zero =>
          have htake : (word.toList ++ ws.flatMap Octets.toList).take 32 = word.toList :=
            List.take_left' word.length_toList
          rw [Nat.mul_zero, wordAt, List.drop_zero, htake, Octets.ofList?_toList]
          rfl
      | succ i =>
          have hdrop : (word.toList ++ ws.flatMap Octets.toList).drop (32 * (i + 1)) =
              (ws.flatMap Octets.toList).drop (32 * i) := by
            rw [Nat.mul_add_one, Nat.add_comm, ← List.drop_drop,
              List.drop_left' word.length_toList]
          rw [wordAt, hdrop]
          exact ih i

theorem wordsAt_flatMap {ws items : List Word} {i : Nat} (h : items <+: ws.drop i) :
    wordsAt (ws.flatMap Octets.toList) items.length (32 * i) = some items := by
  induction items generalizing i with
  | nil => rfl
  | cons item items ih =>
      obtain ⟨rest, hrest⟩ := h
      have hitem : ws[i]? = some item := by
        rw [← List.head?_drop, ← hrest]
        rfl
      have hitems : items <+: ws.drop (i + 1) := by
        rw [← List.tail_drop, ← hrest]
        exact List.prefix_append items rest
      simp [wordsAt, wordAt_flatMap, hitem, ← Nat.mul_add_one, ih hitems]

/-! ## Where everything is -/

/-- The arguments are at their places, from a place on, and their regions follow one another from a
word on. -/
inductive LaidOut (ws : List Word) : (place next : Nat) → List Argument → Prop where
  | nil (place next : Nat) : LaidOut ws place next []
  | cons {place next : Nat} {a : Argument} {args : List Argument}
      (hhead : ws[place]? = some (a.head next)) (hregion : a.region <+: ws.drop next)
      (hrest : LaidOut ws (place + 1) (next + a.region.length) args) :
      LaidOut ws place next (a :: args)

theorem length_heads (next : Nat) (args : List Argument) :
    (heads next args).length = args.length := by
  induction args generalizing next with
  | nil => rfl
  | cons a args ih => rw [heads, List.length_cons, ih, List.length_cons]

/-- The heads of arguments, behind others, and their regions, behind those of others. -/
theorem laidOut_append (before regions : List Word) (args : List Argument) {next : Nat}
    (hnext : next = before.length + args.length + regions.length) :
    LaidOut (before ++ heads next args ++ regions ++ args.flatMap Argument.region) before.length
      next args := by
  induction args generalizing before regions next with
  | nil => exact .nil _ _
  | cons a args ih =>
      have hsplit : before ++ heads next (a :: args) ++ regions ++
            (a :: args).flatMap Argument.region =
          (before ++ [a.head next]) ++ heads (next + a.region.length) args ++
            (regions ++ a.region) ++ args.flatMap Argument.region := by
        simp [heads]
      have hlength : (before ++ heads next (a :: args) ++ regions).length = next := by
        rw [List.length_append, List.length_append, length_heads, hnext]
      refine .cons ?_ ?_ ?_
      · simp [heads]
      · rw [List.drop_left' hlength, List.flatMap_cons]
        exact List.prefix_append _ _
      · rw [hsplit]
        have hbehind : next + a.region.length = (before ++ [a.head next]).length + args.length +
            (regions ++ a.region).length := by
          simp [hnext]
          omega
        -- This head and this region have joined those that are there before the rest.
        simpa using ih (before ++ [a.head next]) (regions ++ a.region) hbehind

theorem laidOut_words (args : List Argument) : LaidOut (words args) 0 args.length args := by
  simpa [words] using laidOut_append [] [] args (by simp)

/-! ## What is read -/

variable {ws : List Word} {place next : Nat} {args : List Argument} {items : List Hash}

theorem address?_addressWord (a : Address) : address? (Argument.addressWord a) = some a := by
  have htake : (List.replicate 12 (0 : UInt8) ++ a.toList).take 12 = List.replicate 12 0 :=
    List.take_left' (by simp)
  have hdrop : (List.replicate 12 (0 : UInt8) ++ a.toList).drop 12 = a.toList :=
    List.drop_left' (by simp)
  rw [address?, Argument.addressWord, htake, hdrop, if_pos rfl, Octets.ofList?_toList]

/-- A region of the data holds these items, behind their number. -/
structure IsRegion (data : List UInt8) (region : Region) (items : List Hash) : Prop where
  count_eq : (wordAt data region.start).map Octets.toNat = some items.length
  items_eq : wordsAt data items.length (region.start + 32) = some items
  stop_eq : region.stop = region.start + 32 * (1 + items.length)

/-- An array's region is where its words are. -/
theorem isRegion_of_isPrefix (hfits : 32 * ws.length < 256 ^ 32)
    (h : (Argument.hashes items).region <+: ws.drop next) :
    IsRegion (ws.flatMap Octets.toList)
        ⟨32 * next, 32 * (next + (Argument.hashes items).region.length)⟩ items ∧
      (Octets.ofNat 32 (32 * next)).toNat = 32 * next := by
  have hlength := h.length_le
  obtain ⟨rest, hrest⟩ := h
  rw [Argument.region, List.length_drop, List.length_cons] at hlength
  have hcount : ws[next]? = some (Octets.ofNat 32 items.length) := by
    rw [← List.head?_drop, ← hrest]
    rfl
  have hitems : items <+: ws.drop (next + 1) := by
    rw [← List.tail_drop, ← hrest]
    exact List.prefix_append items rest
  refine ⟨⟨?_, ?_, ?_⟩, Octets.toNat_ofNat (by omega)⟩
  · rw [wordAt_flatMap, hcount, Option.map_some, Octets.toNat_ofNat (by omega)]
  · rw [← Nat.mul_add_one]
    exact wordsAt_flatMap hitems
  · rw [Argument.region, List.length_cons]
    ring

/-- Whoever follows the word at an array's place finds its region. -/
theorem IsRegion.read {data : List UInt8} {region : Region} (h : IsRegion data region items)
    {offset : Nat} {start : Word} (hplace : wordAt data offset = some start)
    (hstart : start.toNat = region.start) :
    argumentAt data offset .hashes = some (.hashes items) ∧
      regionAt data offset = some region := by
  obtain ⟨count, hcount, hnumber⟩ := Option.map_eq_some_iff.mp h.count_eq
  constructor
  · simp [argumentAt, hplace, hstart, hcount, hnumber, h.items_eq]
  · simp [regionAt, hplace, hstart, hcount, hnumber, ← h.stop_eq]

theorem argumentAt_of_head (hfits : 32 * ws.length < 256 ^ 32) {a : Argument}
    (hhead : ws[place]? = some (a.head next)) (hregion : a.region <+: ws.drop next) :
    argumentAt (ws.flatMap Octets.toList) (32 * place) a.type = some a := by
  have hplace := (wordAt_flatMap ws place).trans hhead
  cases a with
  | address a => simp [Argument.type, argumentAt, hplace, Argument.head, address?_addressWord]
  | uint n =>
      have hn : n.toNat < 256 ^ 32 := Nat.lt_trans n.toNat_lt (by decide)
      simp [Argument.type, argumentAt, hplace, Argument.head, Octets.toNat_ofNat hn,
        Amount.ofNat?_toNat]
  | hashes items =>
      obtain ⟨hitems, hstart⟩ := isRegion_of_isPrefix hfits hregion
      exact (hitems.read hplace hstart).1

/-- Arguments are read at their places. -/
theorem LaidOut.argumentsAt_eq (h : LaidOut ws place next args)
    (hfits : 32 * ws.length < 256 ^ 32) :
    argumentsAt (ws.flatMap Octets.toList) (32 * place) (args.map Argument.type) = some args := by
  induction h with
  | nil => rfl
  | cons hhead hregion _ ih =>
      simp [argumentsAt, argumentAt_of_head hfits hhead hregion, ← Nat.mul_add_one, ih]

/-! ## Regions -/

/-- The regions follow one another without gaps, from one offset to another. -/
inductive Adjoin : (start : Nat) → List Region → (stop : Nat) → Prop where
  | nil (n : Nat) : Adjoin n [] n
  | cons {region : Region} {regions : List Region} {start stop : Nat}
      (hstart : region.start = start) (hle : start ≤ region.stop)
      (hrest : Adjoin region.stop regions stop) : Adjoin start (region :: regions) stop

variable {regions : List Region} {start stop : Nat}

theorem Adjoin.start_le (h : Adjoin start regions stop) :
    start ≤ stop ∧ ∀ region ∈ regions, start ≤ region.start := by
  induction h with
  | nil => simp
  | cons hstart hle _ ih =>
      obtain ⟨hstop, hstarts⟩ := ih
      refine ⟨hle.trans hstop, ?_⟩
      rintro region (_ | ⟨_, hmem⟩)
      · exact hstart.ge
      · exact hle.trans (hstarts region hmem)

theorem Adjoin.pairwise (h : Adjoin start regions stop) :
    regions.Pairwise fun first second => first.stop ≤ second.start := by
  induction h with
  | nil => exact .nil
  | cons _ _ hrest ih => exact .cons hrest.start_le.2 ih

theorem Adjoin.mem_iff (h : Adjoin start regions stop) (offset : Nat) :
    (∃ region ∈ regions, region.start ≤ offset ∧ offset < region.stop) ↔
      start ≤ offset ∧ offset < stop := by
  induction h with
  | nil => simp
  | cons hstart hle hrest ih =>
      have hstop := hrest.start_le.1
      simp only [List.mem_cons, exists_eq_or_imp, ih]
      omega

/-- The regions of the arrays are found, and follow one another. -/
theorem LaidOut.regionsAt_eq (h : LaidOut ws place next args)
    (hfits : 32 * ws.length < 256 ^ 32) :
    ∃ regions,
      regionsAt (ws.flatMap Octets.toList) (32 * place) (args.map Argument.type) = some regions ∧
      List.Forall₂ (IsRegion (ws.flatMap Octets.toList)) regions
        (args.filterMap Argument.items?) ∧
      Adjoin (32 * next) regions (32 * (next + (args.flatMap Argument.region).length)) := by
  induction h with
  | nil place next => exact ⟨[], rfl, .nil, .nil _⟩
  | @cons place next a args hhead hregion _ ih =>
      obtain ⟨regions, hread, hitems, hadjoin⟩ := ih
      cases a with
      | address | uint => exact ⟨regions, hread, hitems, hadjoin⟩
      | hashes items =>
          obtain ⟨hfirst, hstart⟩ := isRegion_of_isPrefix hfits hregion
          have hplace := (wordAt_flatMap ws place).trans hhead
          refine ⟨_ :: regions, ?_, .cons hfirst hitems, .cons rfl ?_ ?_⟩
          · -- The reader goes on behind this place, and finds the regions that follow.
            rw [Nat.mul_add_one] at hread
            simp [Argument.type, regionsAt, (hfirst.read hplace hstart).2, hread]
          · exact Nat.mul_le_mul_left 32 (Nat.le_add_right next _)
          · rw [List.flatMap_cons, List.length_append, ← Nat.add_assoc]
            exact hadjoin

/-! ## Whole data -/

theorem length_flatMap_region (args : List Argument) :
    (args.flatMap Argument.region).length =
      ((args.filterMap Argument.items?).map fun items => 1 + items.length).sum := by
  induction args with
  | nil => rfl
  | cons a args ih =>
      rw [List.flatMap_cons, List.length_append, ih]
      cases a with
      | address | uint => simp [List.filterMap_cons, Argument.region, Argument.items?]
      | hashes items => simp [Argument.region, Argument.items?, Nat.add_comm]

theorem length_words (args : List Argument) :
    (words args).length = args.length +
      ((args.filterMap Argument.items?).map fun items => 1 + items.length).sum := by
  rw [words, List.length_append, length_heads, length_flatMap_region]

theorem length_encode (args : List Argument) :
    (encode args).length = 32 * (args.length +
      ((args.filterMap Argument.items?).map fun items => 1 + items.length).sum) := by
  rw [encode, Octets.length_flatMap_toList, length_words]

theorem read?_encode (hfits : (encode args).length < 256 ^ 32) :
    read? (args.map Argument.type) (encode args) = some args := by
  rw [encode, Octets.length_flatMap_toList] at hfits
  exact (laidOut_words args).argumentsAt_eq hfits

/-- What the data of arguments are like. -/
structure ReadsBack (args : List Argument) : Prop where
  read_eq : read? (args.map Argument.type) (encode args) = some args
  length_eq : (encode args).length = 32 * (args.length +
    ((args.filterMap Argument.items?).map fun items => 1 + items.length).sum)
  /-- The words at their places lead to the regions of the arrays, which have no byte in common and
  which have all bytes behind the places. -/
  regions : ∃ regions,
    regionsAt (encode args) 0 (args.map Argument.type) = some regions ∧
    List.Forall₂ (IsRegion (encode args)) regions (args.filterMap Argument.items?) ∧
    regions.Pairwise (fun first second => first.stop ≤ second.start) ∧
    ∀ offset, (∃ region ∈ regions, region.start ≤ offset ∧ offset < region.stop) ↔
      32 * args.length ≤ offset ∧ offset < (encode args).length
  injective : ∀ others : List Argument, others.map Argument.type = args.map Argument.type →
    encode others = encode args → others = args

/-- As long as a word can count their bytes, the data of arguments are read back as these arguments
and no others. They are whole words: one for each argument, and for each array one more and its
items. -/
theorem encode_readsBack (args : List Argument) (hfits : (encode args).length < 256 ^ 32) :
    ReadsBack args := by
  have hlength : (encode args).length = 32 * (words args).length :=
    Octets.length_flatMap_toList _
  have hregions := (laidOut_words args).regionsAt_eq (by rwa [← hlength])
  obtain ⟨regions, hread, hitems, hadjoin⟩ := hregions
  have hstop : 32 * (args.length + (args.flatMap Argument.region).length) =
      (encode args).length := by
    rw [hlength, words, List.length_append, length_heads]
  refine ⟨read?_encode hfits, length_encode args, ?_, ?_⟩
  · rw [hstop] at hadjoin
    exact ⟨regions, hread, hitems, hadjoin.pairwise, hadjoin.mem_iff⟩
  · intro others htypes hsame
    have hothers : read? (others.map Argument.type) (encode others) = some others :=
      read?_encode (by rwa [hsame])
    rw [htypes, hsame, read?_encode hfits] at hothers
    exact (Option.some.inj hothers).symm

/-- Two arrays, one of them empty, with a number between them. -/
theorem encode_readsBack_two :
    (encode [.hashes [.replicate 32 7, .replicate 32 8], .uint (.ofUInt64 5), .hashes []]).length <
        256 ^ 32 ∧
      ReadsBack [.hashes [.replicate 32 7, .replicate 32 8], .uint (.ofUInt64 5), .hashes []] := by
  have hfits : (encode [.hashes [.replicate 32 7, .replicate 32 8], .uint (.ofUInt64 5),
      .hashes []]).length < 256 ^ 32 := by
    rw [length_encode]
    decide
  exact ⟨hfits, encode_readsBack _ hfits⟩

end Calldata

end MintSale
