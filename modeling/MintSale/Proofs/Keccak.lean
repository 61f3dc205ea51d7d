import MintSale.Keccak

/-!
# Hashes of short messages

A message that fits one block takes one permutation to hash. On numbers instead of machine words,
with the lanes of a plane side by side, such a hash is quick to evaluate.
-/

namespace MintSale.Keccak

/-! ## Planes of numbers -/

/-- Five lanes in a row. -/
structure Plane where
  a : Nat
  b : Nat
  c : Nat
  d : Nat
  e : Nat

/-- The state: five planes. -/
structure Planes where
  first : Plane
  second : Plane
  third : Plane
  fourth : Plane
  fifth : Plane

/-- Rotation to the left of a number below 2^64. -/
def rotateNumber (w n : Nat) : Nat :=
  (w <<< n) % UInt64.size ||| w >>> (64 - n)

namespace Plane

def xor (p q : Plane) : Plane :=
  ⟨p.a ^^^ q.a, p.b ^^^ q.b, p.c ^^^ q.c, p.d ^^^ q.d, p.e ^^^ q.e⟩

/-- What a plane of parities adds to each plane. -/
def spread (p : Plane) : Plane :=
  ⟨p.e ^^^ rotateNumber p.b 1, p.a ^^^ rotateNumber p.c 1, p.b ^^^ rotateNumber p.d 1,
    p.c ^^^ rotateNumber p.e 1, p.d ^^^ rotateNumber p.a 1⟩

/-- Mixes a plane: what is added to a lane are the bits of the one after the next where the next has
none. -/
def chi (p : Plane) : Plane :=
  ⟨p.a ^^^ ((UInt64.size - 1 - p.b) &&& p.c), p.b ^^^ ((UInt64.size - 1 - p.c) &&& p.d),
    p.c ^^^ ((UInt64.size - 1 - p.d) &&& p.e), p.d ^^^ ((UInt64.size - 1 - p.e) &&& p.a),
    p.e ^^^ ((UInt64.size - 1 - p.a) &&& p.b)⟩

end Plane

namespace Planes

def theta (s : Planes) : Planes :=
  let mix := ((((s.first.xor s.second).xor s.third).xor s.fourth).xor s.fifth).spread
  ⟨s.first.xor mix, s.second.xor mix, s.third.xor mix, s.fourth.xor mix, s.fifth.xor mix⟩

def rhoPi (s : Planes) : Planes where
  first := ⟨rotateNumber s.first.a 0, rotateNumber s.second.b 44, rotateNumber s.third.c 43,
    rotateNumber s.fourth.d 21, rotateNumber s.fifth.e 14⟩
  second := ⟨rotateNumber s.first.d 28, rotateNumber s.second.e 20, rotateNumber s.third.a 3,
    rotateNumber s.fourth.b 45, rotateNumber s.fifth.c 61⟩
  third := ⟨rotateNumber s.first.b 1, rotateNumber s.second.c 6, rotateNumber s.third.d 25,
    rotateNumber s.fourth.e 8, rotateNumber s.fifth.a 18⟩
  fourth := ⟨rotateNumber s.first.e 27, rotateNumber s.second.a 36, rotateNumber s.third.b 10,
    rotateNumber s.fourth.c 15, rotateNumber s.fifth.d 56⟩
  fifth := ⟨rotateNumber s.first.c 62, rotateNumber s.second.d 55, rotateNumber s.third.e 39,
    rotateNumber s.fourth.a 41, rotateNumber s.fifth.b 2⟩

def round (s : Planes) (constant : Nat) : Planes :=
  let s := s.theta.rhoPi
  let first := s.first.chi
  ⟨{ first with a := first.a ^^^ constant }, s.second.chi, s.third.chi, s.fourth.chi,
    s.fifth.chi⟩

def permute (s : Planes) : Planes :=
  (roundConstants.map UInt64.toNat).foldl round s

end Planes

/-! ## Lanes as numbers -/

/-- A row of the lanes. -/
def Lanes.plane (s : Lanes) (y : Nat) : Plane :=
  ⟨(s.lane 0 y).toNat, (s.lane 1 y).toNat, (s.lane 2 y).toNat, (s.lane 3 y).toNat,
    (s.lane 4 y).toNat⟩

def Lanes.planes (s : Lanes) : Planes :=
  ⟨s.plane 0, s.plane 1, s.plane 2, s.plane 3, s.plane 4⟩

theorem toNat_rotate (w : UInt64) {n : UInt64} (h : n.toNat < 64) :
    (rotate w n).toNat = rotateNumber w.toNat n.toNat := by
  have hsub : (64 - n).toNat = 64 - n.toNat :=
    UInt64.toNat_sub_of_le _ _ (UInt64.le_iff_toNat_le.mpr (Nat.le_of_lt h))
  have hw : w.toNat < 2 ^ 64 := w.toNat_lt
  rw [rotate, rotateNumber, UInt64.toNat_or, UInt64.toNat_shiftLeft, UInt64.toNat_shiftRight, hsub,
    Nat.mod_eq_of_lt h]
  rcases Nat.eq_zero_or_pos n.toNat with hzero | hpos
  · rw [hzero]
    simp [Nat.shiftRight_eq_zero _ _ hw]
  · rw [Nat.mod_eq_of_lt (by omega : 64 - n.toNat < 64)]

theorem lane_ofFn (f : Nat → Nat → UInt64) {x y : Nat} (hx : x < 5) (hy : y < 5) :
    (Lanes.ofFn f).lane x y = f x y := by
  have hplace : x % 5 + 5 * (y % 5) < 25 := by omega
  have hmod : (x % 5 + 5 * (y % 5)) % 5 = x := by omega
  have hdiv : (x % 5 + 5 * (y % 5)) / 5 = y := by omega
  simp [Lanes.lane, Lanes.ofFn, Array.getD, hplace, hmod, hdiv]

theorem planes_theta (s : Lanes) : (theta s).planes = s.planes.theta := by
  simp [theta, Lanes.planes, Lanes.plane, lane_ofFn, Planes.theta, Plane.xor, Plane.spread,
    toNat_rotate, Nat.xor_assoc]

theorem toNat_offset_lt : ∀ i : Fin 25, (offsets.getD i 0).toNat < 64 := by
  decide

theorem toNat_lane_rhoPi (s : Lanes) {x y : Nat} (hx : x < 5) (hy : y < 5) :
    ((rhoPi s).lane x y).toNat =
      rotateNumber (s.lane (x + 3 * y) x).toNat (offsets.getD ((x + 3 * y) % 5 + 5 * x) 0).toNat := by
  have hsource : (x + 3 * y) % 5 + 5 * x < 25 := by omega
  have hlane : s.getD ((x + 3 * y) % 5 + 5 * x) 0 = s.lane (x + 3 * y) x := by
    rw [Lanes.lane, Nat.mod_eq_of_lt hx]
  rw [rhoPi, lane_ofFn _ hx hy, toNat_rotate _ (toNat_offset_lt ⟨_, hsource⟩), hlane]

theorem planes_rhoPi (s : Lanes) : (rhoPi s).planes = s.planes.rhoPi := by
  simp only [Lanes.planes, Lanes.plane, toNat_lane_rhoPi s, Nat.reduceLT]
  rfl

theorem toNat_lane_chi (s : Lanes) {x y : Nat} (hx : x < 5) (hy : y < 5) :
    ((chi s).lane x y).toNat = (s.lane x y).toNat ^^^
      ((UInt64.size - 1 - (s.lane (x + 1) y).toNat) &&& (s.lane (x + 2) y).toNat) := by
  rw [chi, lane_ofFn _ hx hy, UInt64.toNat_xor, UInt64.toNat_and, UInt64.toNat_not]

theorem plane_chi (s : Lanes) {y : Nat} (hy : y < 5) : (chi s).plane y = (s.plane y).chi := by
  simp only [Lanes.plane, toNat_lane_chi s _ hy, Nat.reduceLT]
  rfl

theorem planes_iota (s : Lanes) (hsize : s.size = 25) (c : UInt64) :
    (iota s c).planes =
      { s.planes with first := { s.planes.first with a := s.planes.first.a ^^^ c.toNat } } := by
  simp [iota, Lanes.planes, Lanes.plane, Lanes.lane, Array.getElem_modify, hsize]

theorem planes_round (s : Lanes) (c : UInt64) :
    (iota (chi (rhoPi (theta s))) c).planes = s.planes.round c.toNat := by
  rw [Planes.round, ← planes_theta, ← planes_rhoPi, planes_iota _ (by simp [chi, Lanes.ofFn])]
  simp only [Lanes.planes, plane_chi _, Nat.reduceLT]

theorem planes_permute (s : Lanes) : (permute s).planes = s.planes.permute := by
  rw [permute, Planes.permute]
  induction roundConstants generalizing s with
  | nil => rfl
  | cons c constants ih => rw [List.foldl_cons, ih, planes_round, List.map_cons, List.foldl_cons]

/-! ## Messages of one block -/

theorem length_pad {message : List UInt8} (h : message.length < rate) :
    (pad message).length = rate := by
  have hmod : message.length % rate = message.length := Nat.mod_eq_of_lt h
  rw [pad, hmod]
  split
  · next hroom =>
    rw [List.length_append, List.length_singleton]
    omega
  · next hroom =>
    simp only [List.length_append, List.length_singleton, List.length_replicate]
    omega

/-- Eight bytes as a number, least significant first. -/
def laneNumber (bytes : List UInt8) : Nat :=
  bytes.foldr (fun b n => (n <<< 8) % UInt64.size ||| b.toNat) 0

theorem toNat_laneOf (bytes : List UInt8) : (laneOf bytes).toNat = laneNumber bytes := by
  induction bytes with
  | nil => rfl
  | cons b bytes ih =>
      rw [laneOf, List.foldr_cons, ← laneOf, laneNumber, List.foldr_cons, ← laneNumber, ← ih,
        UInt64.toNat_or, UInt64.toNat_shiftLeft]
      rfl

/-- The lanes of a block. -/
def blockLane (block : List UInt8) (i : Nat) : Nat :=
  if i < 17 then laneNumber ((block.drop (8 * i)).take 8) else 0

def blockPlane (block : List UInt8) (y : Nat) : Plane :=
  ⟨blockLane block (5 * y), blockLane block (1 + 5 * y), blockLane block (2 + 5 * y),
    blockLane block (3 + 5 * y), blockLane block (4 + 5 * y)⟩

def blockPlanes (block : List UInt8) : Planes :=
  ⟨blockPlane block 0, blockPlane block 1, blockPlane block 2, blockPlane block 3,
    blockPlane block 4⟩

/-- The state before the first permutation. -/
def absorbed (block : List UInt8) : Lanes :=
  (Array.replicate 25 0).mapIdx fun i lane =>
    if i < rate / 8 then
      lane ^^^ laneOf (block.toArray.extract (8 * i) (8 * i + 8)).toList
    else lane

theorem toNat_lane_absorbed (block : List UInt8) {x y : Nat} (hx : x < 5) (hy : y < 5) :
    ((absorbed block).lane x y).toNat = blockLane block (x + 5 * y) := by
  have hplace : x + 5 * y < 25 := by omega
  rw [Lanes.lane, Nat.mod_eq_of_lt hx, Nat.mod_eq_of_lt hy, absorbed, blockLane, ← toNat_laneOf]
  simp [Array.getD, hplace, rate, apply_ite UInt64.toNat, List.extract_eq_take_drop]

theorem planes_absorbed (block : List UInt8) : (absorbed block).planes = blockPlanes block := by
  simp only [Lanes.planes, Lanes.plane, toNat_lane_absorbed block, Nat.reduceLT]
  rfl

/-- The digest of a message that fits one block. -/
def shortDigest (message : List UInt8) : List UInt8 :=
  let plane := (blockPlanes (pad message)).permute.first
  [plane.a, plane.b, plane.c, plane.d].flatMap fun n => laneBytes (UInt64.ofNat n)

theorem digest_of_lt {message : List UInt8} (h : message.length < rate) :
    digest message = shortDigest message := by
  have hpad := length_pad h
  have habsorb : absorb 1 (pad message) (Array.replicate 25 0) =
      permute (absorbed (pad message)) := by
    rw [absorb, absorb, List.take_of_length_le (Nat.le_of_eq hpad), absorbed]
  have hplane : (blockPlanes (pad message)).permute.first =
      (permute (absorbed (pad message))).plane 0 := by
    rw [← planes_absorbed, ← planes_permute]
    rfl
  simp only [digest, hpad, Nat.div_self (by decide : 0 < rate), habsorb, shortDigest, hplane]
  simp [Lanes.plane]

theorem toList_hash_of_lt {message : List UInt8} (h : message.length < rate) :
    (hash message).toList = shortDigest message :=
  digest_of_lt h

end MintSale.Keccak
