import Mathlib.Data.Nat.Bitwise
import Mathlib.Data.Nat.Log
import MintSale.Allowlist

/-!
# The tree over an allowlist

A tree is a stack of layers, each half as long as the one below. A proof goes from layer to layer
and takes the sibling with it, where there is one. Members have proofs that lead to the root, and
nobody else has one.
-/

namespace MintSale.Allowlist

variable {hash : List UInt8 → Hash} {layer : List Hash} {layers : List (List Hash)}

/-- The order of two nodes does not matter when they are hashed together. -/
theorem pair_comm (hash : List UInt8 → Hash) (a b : Hash) : pair hash a b = pair hash b a := by
  unfold pair
  by_cases hab : a.toNat ≤ b.toNat
  · by_cases hba : b.toNat ≤ a.toNat
    · obtain rfl : a = b := Octets.eq_of_toNat_eq (Nat.le_antisymm hab hba)
      rfl
    · rw [if_pos hab, if_neg hba]
  · rw [if_neg hab, if_pos (Nat.le_of_not_le hab)]

/-! ## Siblings -/

theorem xor_one_add_two (index : Nat) : (index + 2) ^^^ 1 = (index ^^^ 1) + 2 := by
  rcases Nat.even_or_odd index with heven | hodd
  · rw [Nat.xor_one_of_even heven, Nat.xor_one_of_even (heven.add even_two)]
  · have hpos : 0 < index := by
      obtain ⟨half, rfl⟩ := hodd
      omega
    rw [Nat.xor_one_of_odd hodd, Nat.xor_one_of_odd (hodd.add_even even_two)]
    omega

/-- The node above a node is hashed from it and its sibling, or the node itself if it has none. -/
theorem getElem?_above {index : Nat} {node : Hash} (h : layer[index]? = some node) :
    (above hash layer)[index / 2]? =
      some (layer[index ^^^ 1]?.toList.foldl (pair hash) node) := by
  fun_induction above hash layer generalizing index with
  | case1 a b rest ih =>
      rcases index with - | - | index
      · obtain rfl : a = node := by simpa using h
        rfl
      · obtain rfl : b = node := by simpa using h
        exact congrArg some (pair_comm hash a b)
      · have hrest : rest[index]? = some node := by simpa using h
        have hhalf : (index + 1 + 1) / 2 = index / 2 + 1 := by omega
        rw [xor_one_add_two, hhalf]
        simpa using ih hrest
  | case2 rest hnot =>
      rcases rest with - | ⟨single, - | ⟨b, rest⟩⟩
      · simp at h
      · obtain ⟨rfl, rfl⟩ : index = 0 ∧ single = node := by
          simpa [List.getElem?_singleton] using h
        rfl
      · exact absurd rfl (hnot single b rest)

/-! ## Layers -/

/-- Stacking layers: as long as the last one has more than one node, the layer above it comes on
top. -/
inductive Stacks (hash : List UInt8 → Hash) : List Hash → List (List Hash) → Prop where
  | top {layer : List Hash} (h : layer.length ≤ 1) : Stacks hash layer [layer]
  | next {a b : Hash} {rest : List Hash} {layers : List (List Hash)}
      (habove : Stacks hash (above hash (a :: b :: rest)) layers) :
      Stacks hash (a :: b :: rest) ((a :: b :: rest) :: layers)

/-- The siblings on the way up through layers from the node at an index. -/
def siblingsIn : (layers : List (List Hash)) → (index : Nat) → List Hash
  | [], _ => []
  | layer :: layers, index => layer[index ^^^ 1]?.toList ++ siblingsIn layers (index / 2)

theorem length_siblingsIn_le (layers : List (List Hash)) (index : Nat) :
    (siblingsIn layers index).length ≤ layers.length := by
  induction layers generalizing index with
  | nil => simp [siblingsIn]
  | cons layer layers ih =>
      have hrest := ih (index / 2)
      have hone : layer[index ^^^ 1]?.toList.length ≤ 1 := by
        cases layer[index ^^^ 1]? <;> simp
      rw [siblingsIn, List.length_append, List.length_cons]
      omega

namespace Stacks

theorem ne_nil (h : Stacks hash layer layers) : layers ≠ [] := by
  cases h <;> simp

theorem length_eq (h : Stacks hash layer layers) :
    layers.length = Nat.clog 2 layer.length + 1 := by
  induction h with
  | top h => simp [Nat.clog_of_right_le_one h]
  | @next a b rest layers habove ih =>
      have hlong : 2 ≤ (a :: b :: rest).length := by simp
      have hclog := Nat.clog_of_two_le Nat.one_lt_two hlong
      rw [length_above] at ih
      rw [List.length_cons, ih, hclog]
      rfl

/-- The root is the only node of the last layer. -/
theorem root?_eq (h : Stacks hash layer layers) :
    root? hash layer = layers.getLast?.bind List.head? := by
  induction h with
  | @top layer h =>
      rcases layer with - | ⟨node, - | ⟨b, rest⟩⟩
      · simp [root?]
      · simp [root?]
      · simp at h
  | next habove ih => rw [root?, ih, List.getLast?_cons_of_ne_nil habove.ne_nil]

theorem siblings_eq (h : Stacks hash layer layers) (index : Nat) :
    siblings hash layer index = siblingsIn layers.dropLast index := by
  induction h generalizing index with
  | @top layer h =>
      rcases layer with - | ⟨node, - | ⟨b, rest⟩⟩
      · simp [siblings, siblingsIn]
      · simp [siblings, siblingsIn]
      · simp at h
  | next habove ih => rw [siblings, ih, List.dropLast_cons_of_ne_nil habove.ne_nil, siblingsIn]

/-- The siblings lead from a node to the root. -/
theorem root?_of_getElem? (h : Stacks hash layer layers) {index : Nat} {node : Hash}
    (hnode : layer[index]? = some node) :
    root? hash layer = some ((siblings hash layer index).foldl (pair hash) node) := by
  induction h generalizing index node with
  | @top layer h =>
      rcases layer with - | ⟨single, - | ⟨b, rest⟩⟩
      · simp at hnode
      · obtain ⟨-, rfl⟩ : index = 0 ∧ single = node := by
          simpa [List.getElem?_singleton] using hnode
        simp [root?, siblings]
      · simp at h
  | next habove ih =>
      rw [root?, siblings, List.foldl_append]
      exact ih (getElem?_above hnode)

end Stacks

/-- There is a stack of layers over any leaves. -/
theorem exists_stacks (hash : List UInt8 → Hash) (leaves : List Hash) :
    ∃ layers, Stacks hash leaves layers := by
  fun_induction root? hash leaves with
  | case1 => exact ⟨_, .top (by simp)⟩
  | case2 node => exact ⟨_, .top (by simp)⟩
  | case3 a b rest ih =>
      obtain ⟨layers, hlayers⟩ := ih
      exact ⟨_, .next hlayers⟩

/-! ## Proofs of membership -/

theorem proof?_eq_none_iff {leaves : List Hash} {leaf : Hash} :
    proof? hash leaves leaf = none ↔ leaf ∉ leaves := by
  rw [proof?, Option.map_eq_none_iff, List.idxOf?_eq_none_iff]

theorem exists_proof? (hash : List UInt8 → Hash) {leaves : List Hash} {leaf : Hash}
    (h : leaf ∈ leaves) :
    ∃ index : Nat, leaves[index]? = some leaf ∧
      proof? hash leaves leaf = some (siblings hash leaves index) := by
  obtain ⟨index, hindex⟩ := Option.isSome_iff_exists.mp (List.isSome_idxOf?.mpr h)
  obtain ⟨hlt, hleaf, -⟩ := List.idxOf?_eq_some_iff.mp hindex
  refine ⟨index, ?_, by rw [proof?, hindex]; rfl⟩
  rw [List.getElem?_eq_getElem hlt, hleaf]

theorem verify_iff {proof : List Hash} {root leaf : Hash} :
    verify hash proof root leaf = true ↔ proof.foldl (pair hash) leaf = root := by
  simp [verify]

/-- Layers can be stacked over any leaves until there is no more than one node, as often as the
leaves can be halved, and the root and the siblings are those of the stack. A leaf of the tree has a
proof that leads to the root, with no more than one node for each of these times; what is no leaf
has none. -/
theorem tree_provesMembers (hash : List UInt8 → Hash) (leaves : List Hash) :
    (∃ layers, Stacks hash leaves layers ∧ layers.length = Nat.clog 2 leaves.length + 1 ∧
      root? hash leaves = layers.getLast?.bind List.head? ∧
      ∀ index, siblings hash leaves index = siblingsIn layers.dropLast index) ∧
    ∀ leaf,
      (leaf ∉ leaves ∧ proof? hash leaves leaf = none) ∨
      (leaf ∈ leaves ∧ ∃ proof root, proof? hash leaves leaf = some proof ∧
        root? hash leaves = some root ∧ verify hash proof root leaf = true ∧
        proof.length ≤ Nat.clog 2 leaves.length) := by
  obtain ⟨layers, hlayers⟩ := exists_stacks hash leaves
  refine ⟨⟨layers, hlayers, hlayers.length_eq, hlayers.root?_eq, hlayers.siblings_eq⟩, ?_⟩
  intro leaf
  by_cases hleaf : leaf ∈ leaves
  · obtain ⟨index, hindex, hproof⟩ := exists_proof? hash hleaf
    have hlength : (siblings hash leaves index).length ≤ Nat.clog 2 leaves.length := by
      have hle := length_siblingsIn_le layers.dropLast index
      rw [hlayers.siblings_eq]
      rwa [List.length_dropLast, hlayers.length_eq] at hle
    exact .inr ⟨hleaf, _, _, hproof, hlayers.root?_of_getElem? hindex, verify_iff.mpr rfl, hlength⟩
  · exact .inl ⟨hleaf, proof?_eq_none_iff.mpr hleaf⟩

end MintSale.Allowlist
