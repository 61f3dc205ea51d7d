import MintSale.Octets

/-!
# Allowlists

A list of addresses is committed to by the root of a hash tree over the hashes of its members. Two
nodes are hashed together with the smaller one first, so a proof of membership is the list of the
siblings on the way up and needs no directions. The last node of an odd layer moves up unchanged.
The hash function is a parameter throughout.
-/

namespace MintSale.Allowlist

variable (hash : List UInt8 → Hash)

/-- The leaf of a member. -/
def leaf (member : Address) : Hash :=
  hash member.toList

/-- The node above two nodes. -/
def pair (a b : Hash) : Hash :=
  if a.toNat ≤ b.toNat then hash (a.toList ++ b.toList) else hash (b.toList ++ a.toList)

/-- The layer above a layer. -/
def above : List Hash → List Hash
  | a :: b :: rest => pair hash a b :: above rest
  | rest => rest

theorem length_above (layer : List Hash) : (above hash layer).length = (layer.length + 1) / 2 := by
  fun_induction above hash layer with
  | case1 a b rest ih => simp only [List.length_cons, ih]; omega
  | case2 rest h =>
    match rest, h with
    | [], _ => simp
    | [_], _ => simp
    | a :: b :: rest, h => exact absurd rfl (h a b rest)

/-- The root of the tree over a layer. -/
def root? : List Hash → Option Hash
  | [] => none
  | [node] => some node
  | a :: b :: rest => root? (above hash (a :: b :: rest))
termination_by layer => layer.length
decreasing_by simp only [length_above, List.length_cons]; omega

/-- The siblings on the way up from the node at an index. -/
def siblings : (layer : List Hash) → (index : Nat) → List Hash
  | a :: b :: rest, index =>
    (a :: b :: rest)[index ^^^ 1]?.toList ++ siblings (above hash (a :: b :: rest)) (index / 2)
  | _, _ => []
termination_by layer => layer.length
decreasing_by simp only [length_above, List.length_cons]; omega

/-- The proof that a leaf is in the tree, for its first place in it. -/
def proof? (leaves : List Hash) (leaf : Hash) : Option (List Hash) :=
  (leaves.idxOf? leaf).map (siblings hash leaves)

/-- Whether the siblings lead from a leaf to a root. -/
def verify (proof : List Hash) (root leaf : Hash) : Bool :=
  proof.foldl (pair hash) leaf == root

end MintSale.Allowlist
