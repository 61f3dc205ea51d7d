import MintSale.Octets

/-!
# Keccak-256

The sponge with a rate of 136 bytes over the permutation of 25 lanes, with the padding that starts
with the byte 1. Lane `(x, y)` stands at position `x + 5 * y`.
-/

namespace MintSale.Keccak

/-- The permutation's state: 25 lanes of 64 bits. -/
abbrev Lanes := Array UInt64

/-- The lane at coordinates taken modulo five. -/
def Lanes.lane (s : Lanes) (x y : Nat) : UInt64 :=
  s.getD (x % 5 + 5 * (y % 5)) 0

/-- The lanes given by a function of their coordinates. -/
def Lanes.ofFn (f : Nat → Nat → UInt64) : Lanes :=
  Array.ofFn fun i : Fin 25 => f (i.val % 5) (i.val / 5)

/-- Rotation to the left; a lane rotated by nothing is itself, as shifts count modulo 64. -/
def rotate (w n : UInt64) : UInt64 :=
  (w <<< n) ||| (w >>> (64 - n))

/-- How far each lane is rotated, by position. -/
def offsets : Array UInt64 :=
  #[0, 1, 62, 28, 27,
    36, 44, 6, 55, 20,
    3, 10, 43, 25, 39,
    41, 45, 15, 21, 8,
    18, 2, 61, 56, 14]

/-- The constants of the 24 rounds. -/
def roundConstants : List UInt64 :=
  [0x0000000000000001, 0x0000000000008082, 0x800000000000808A, 0x8000000080008000,
   0x000000000000808B, 0x0000000080000001, 0x8000000080008081, 0x8000000000008009,
   0x000000000000008A, 0x0000000000000088, 0x0000000080008009, 0x000000008000000A,
   0x000000008000808B, 0x800000000000008B, 0x8000000000008089, 0x8000000000008003,
   0x8000000000008002, 0x8000000000000080, 0x000000000000800A, 0x800000008000000A,
   0x8000000080008081, 0x8000000000008080, 0x0000000080000001, 0x8000000080008008]

/-! ## The round -/

/-- Adds to each lane the parities of two neighbouring columns. -/
def theta (s : Lanes) : Lanes :=
  let parity : Array UInt64 := Array.ofFn fun x : Fin 5 =>
    s.lane x.val 0 ^^^ s.lane x.val 1 ^^^ s.lane x.val 2 ^^^ s.lane x.val 3 ^^^ s.lane x.val 4
  Lanes.ofFn fun x y =>
    s.lane x y ^^^ parity.getD ((x + 4) % 5) 0 ^^^ rotate (parity.getD ((x + 1) % 5) 0) 1

/-- Rotates the lanes and moves lane `(x, y)` to `(y, 2 x + 3 y)`. -/
def rhoPi (s : Lanes) : Lanes :=
  Lanes.ofFn fun x y =>
    let source := (x + 3 * y) % 5 + 5 * x
    rotate (s.getD source 0) (offsets.getD source 0)

/-- Mixes each row. -/
def chi (s : Lanes) : Lanes :=
  Lanes.ofFn fun x y => s.lane x y ^^^ (~~~ s.lane (x + 1) y &&& s.lane (x + 2) y)

/-- Adds the round's constant to the first lane. -/
def iota (s : Lanes) (constant : UInt64) : Lanes :=
  s.modify 0 (· ^^^ constant)

/-- The permutation of the state. -/
def permute (s : Lanes) : Lanes :=
  roundConstants.foldl (fun s c => iota (chi (rhoPi (theta s))) c) s

/-! ## The sponge -/

/-- Bytes taken in between two permutations. -/
def rate : Nat := 136

/-- Eight bytes as a lane, least significant first. -/
def laneOf (bytes : List UInt8) : UInt64 :=
  bytes.foldr (fun b w => (w <<< 8) ||| b.toUInt64) 0

/-- A lane as eight bytes, least significant first. -/
def laneBytes (w : UInt64) : List UInt8 :=
  (List.range 8).map fun i => (w >>> (8 * i).toUInt64).toUInt8

/-- The message filled up to a multiple of the rate: a byte 1, zeros, and the last bit set. -/
def pad (message : List UInt8) : List UInt8 :=
  let room := rate - message.length % rate
  if room = 1 then message ++ [0x81]
  else message ++ [0x01] ++ List.replicate (room - 2) 0 ++ [0x80]

/-- Takes `n` blocks of the rate's length in. -/
def absorb : (n : Nat) → List UInt8 → Lanes → Lanes
  | 0, _, s => s
  | n + 1, bytes, s =>
    let block := (bytes.take rate).toArray
    let mixed := s.mapIdx fun i lane =>
      if i < rate / 8 then lane ^^^ laneOf (block.extract (8 * i) (8 * i + 8)).toList else lane
    absorb n (bytes.drop rate) (permute mixed)

/-- The digest of a message. -/
def digest (message : List UInt8) : List UInt8 :=
  let padded := pad message
  let s := absorb (padded.length / rate) padded (Array.replicate 25 0)
  laneBytes (s.lane 0 0) ++ laneBytes (s.lane 1 0) ++ laneBytes (s.lane 2 0) ++ laneBytes (s.lane 3 0)

theorem length_laneBytes (w : UInt64) : (laneBytes w).length = 8 := by
  simp [laneBytes]

theorem length_digest (message : List UInt8) : (digest message).length = 32 := by
  simp [digest, length_laneBytes]

/-- The Keccak-256 hash of a message. -/
def hash (message : List UInt8) : Hash :=
  ⟨digest message, length_digest message⟩

end MintSale.Keccak
