import MintSale.Text.Hex

/-!
# Byte strings of fixed length

Addresses, hashes and machine words are byte strings of 20 and 32 bytes. They have one written form,
`0x` and lower-case digits, and are read with either mark, or none, and digits of either case.
-/

namespace MintSale

/-! ## Big-endian numbers -/

namespace BigEndian

/-- The last `k` bytes of `n`, most significant first, in front of `rest`. -/
def onto : (k n : Nat) → (rest : List UInt8) → List UInt8
  | 0, _, rest => rest
  | k + 1, n, rest => onto k (n / 256) (UInt8.ofNat (n % 256) :: rest)

/-- The last `k` bytes of `n`, most significant first. -/
def bytes (k n : Nat) : List UInt8 :=
  onto k n []

/-- The number that bytes spell, most significant first. -/
def toNat (bs : List UInt8) : Nat :=
  bs.foldl (fun n b => 256 * n + b.toNat) 0

theorem length_onto (k n : Nat) (rest : List UInt8) :
    (onto k n rest).length = k + rest.length := by
  induction k generalizing n rest with
  | zero => simp [onto]
  | succ k ih => rw [onto, ih, List.length_cons]; omega

theorem length_bytes (k n : Nat) : (bytes k n).length = k := by
  simp [bytes, length_onto]

theorem toNat_concat (bs : List UInt8) (b : UInt8) :
    toNat (bs ++ [b]) = 256 * toNat bs + b.toNat := by
  simp [toNat]

theorem onto_toNat (bs rest : List UInt8) : onto bs.length (toNat bs) rest = bs ++ rest := by
  -- The induction takes the bytes off at the end, as writing them does.
  generalize hlength : bs.length = k
  induction k generalizing bs rest with
  | zero => simp [onto, List.length_eq_zero_iff.mp hlength]
  | succ k ih =>
      obtain rfl | ⟨front, b, rfl⟩ := List.eq_nil_or_concat bs
      · simp at hlength
      · rw [List.concat_eq_append] at hlength ⊢
        have hfront : front.length = k := by simpa using hlength
        have hb := b.toNat_lt
        have hrest : (256 * toNat front + b.toNat) / 256 = toNat front := by omega
        have hlast : (256 * toNat front + b.toNat) % 256 = b.toNat := by omega
        rw [onto, toNat_concat, hrest, hlast, UInt8.ofNat_toNat, ih front (b :: rest) hfront,
          List.append_assoc, List.singleton_append]

theorem bytes_toNat (bs : List UInt8) : bytes bs.length (toNat bs) = bs := by
  simp [bytes, onto_toNat]

end BigEndian

/-! ## The type -/

/-- A string of exactly `n` bytes. -/
structure Octets (n : Nat) where
  toList : List UInt8
  length_toList : toList.length = n
  deriving DecidableEq

/-- A 20-byte account or contract address. -/
abbrev Address := Octets 20

/-- A 32-byte hash: a transaction hash, a tree node or a root. -/
abbrev Hash := Octets 32

/-- A 32-byte word of call data. -/
abbrev Word := Octets 32

namespace Octets

/-- The bytes as a fixed-length string, if there are `n` of them. -/
def ofList? {n : Nat} (bytes : List UInt8) : Option (Octets n) :=
  if h : bytes.length = n then some ⟨bytes, h⟩ else none

/-- The number `m` in `n` bytes, most significant first. -/
def ofNat (n m : Nat) : Octets n :=
  ⟨BigEndian.bytes n m, BigEndian.length_bytes n m⟩

/-- The same byte `n` times. -/
def replicate (n : Nat) (b : UInt8) : Octets n :=
  ⟨List.replicate n b, List.length_replicate⟩

instance {n : Nat} : Inhabited (Octets n) := ⟨replicate n 0⟩

/-- The number that the bytes spell. -/
def toNat {n : Nat} (x : Octets n) : Nat :=
  BigEndian.toNat x.toList

/-- The written form: `0x` and two lower-case digits a byte. -/
def toText {n : Nat} (x : Octets n) : String :=
  String.ofList (Hex.marked x.toList)

/-- Reads a written form with `0x`, `0X` or no mark and digits of either case. -/
def ofText? {n : Nat} (text : String) : Option (Octets n) :=
  (Hex.decode? (Hex.dropAnyMark text.toList)).bind ofList?

theorem ofList?_toList {n : Nat} (x : Octets n) : ofList? x.toList = some x := by
  simp [ofList?, x.length_toList]

theorem eq_of_toList_eq {n : Nat} {x y : Octets n} (h : x.toList = y.toList) : x = y := by
  cases x
  cases y
  simpa using h

theorem ofNat_toNat {n : Nat} (x : Octets n) : ofNat n x.toNat = x := by
  have hbytes := BigEndian.bytes_toNat x.toList
  rw [x.length_toList] at hbytes
  exact eq_of_toList_eq hbytes

/-- Strings of the same length spell different numbers. -/
theorem eq_of_toNat_eq {n : Nat} {x y : Octets n} (h : x.toNat = y.toNat) : x = y := by
  rw [← ofNat_toNat x, ← ofNat_toNat y, h]

end Octets

end MintSale
