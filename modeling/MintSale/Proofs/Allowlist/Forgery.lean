import Mathlib.Data.List.Induction
import MintSale.Proofs.Allowlist.Tree

/-!
# Forged proofs

Whoever presents a proof chooses all of its nodes, and how many there are. From the root downwards
the hash gives every step away: a node that has been hashed from two nodes leads to one of these,
and a leaf to the address of a member, unless two different strings that were hashed have one hash.
-/

namespace MintSale.Allowlist

variable {hash : List UInt8 → Hash}

/-! ## What is hashed -/

/-- The bytes that are hashed for the node above two nodes. -/
def pairBytes (a b : Hash) : List UInt8 :=
  if a.toNat ≤ b.toNat then a.toList ++ b.toList else b.toList ++ a.toList

/-- All that is hashed for the layer above a layer. -/
def layerBytes : List Hash → List (List UInt8)
  | a :: b :: rest => pairBytes a b :: layerBytes rest
  | _ => []

/-- All that is hashed for a tree, given its leaves. -/
def treeBytes (hash : List UInt8 → Hash) : List Hash → List (List UInt8)
  | a :: b :: rest =>
    layerBytes (a :: b :: rest) ++ treeBytes hash (above hash (a :: b :: rest))
  | _ => []
termination_by layer => layer.length
decreasing_by simp only [length_above, List.length_cons]; omega

/-- All that is hashed when a proof is followed from a node. -/
def proofBytes (hash : List UInt8 → Hash) : (node : Hash) → (proof : List Hash) → List (List UInt8)
  | _, [] => []
  | node, sibling :: proof =>
    pairBytes node sibling :: proofBytes hash (pair hash node sibling) proof

/-- All that is hashed when the tree over an allowlist is built and a proof for an account is
verified. -/
def hashedBytes (hash : List UInt8 → Hash) (members : List Address) (account : Address)
    (proof : List Hash) : List (List UInt8) :=
  members.map Octets.toList ++ treeBytes hash (members.map (leaf hash)) ++
    account.toList :: proofBytes hash (leaf hash account) proof

/-- No two of the strings have the same hash. -/
def IsCollisionFree (hash : List UInt8 → Hash) (strings : List (List UInt8)) : Prop :=
  ∀ s ∈ strings, ∀ t ∈ strings, hash s = hash t → s = t

instance (hash : List UInt8 → Hash) (strings : List (List UInt8)) :
    Decidable (IsCollisionFree hash strings) :=
  inferInstanceAs (Decidable (∀ s ∈ strings, ∀ t ∈ strings, hash s = hash t → s = t))

theorem pair_eq (hash : List UInt8 → Hash) (a b : Hash) :
    pair hash a b = hash (pairBytes a b) := by
  unfold pair pairBytes
  split <;> rfl

theorem length_pairBytes (a b : Hash) : (pairBytes a b).length = 64 := by
  unfold pairBytes
  split <;> simp [Octets.length_toList]

/-- The bytes of a pair are not those of an address. -/
theorem toList_ne_pairBytes (account : Address) (a b : Hash) :
    account.toList ≠ pairBytes a b := by
  intro h
  have hlength := congrArg List.length h
  rw [account.length_toList, length_pairBytes] at hlength
  omega

theorem eq_of_append_eq {a b c d : Hash} (h : a.toList ++ b.toList = c.toList ++ d.toList) :
    a = c ∧ b = d := by
  have hlength : a.toList.length = c.toList.length := by
    rw [a.length_toList, c.length_toList]
  obtain ⟨hfirst, hsecond⟩ := List.append_inj h hlength
  exact ⟨Octets.eq_of_toList_eq hfirst, Octets.eq_of_toList_eq hsecond⟩

/-- The bytes of a pair tell its nodes, but not which one came first. -/
theorem mem_of_pairBytes_eq {a b c d : Hash} (h : pairBytes a b = pairBytes c d) :
    a = c ∨ a = d := by
  unfold pairBytes at h
  split at h <;> split at h
  · exact .inl (eq_of_append_eq h).1
  · exact .inr (eq_of_append_eq h).1
  · exact .inr (eq_of_append_eq h).2
  · exact .inl (eq_of_append_eq h).2

theorem proofBytes_concat (node : Hash) (proof : List Hash) (sibling : Hash) :
    proofBytes hash node (proof ++ [sibling]) =
      proofBytes hash node proof ++ [pairBytes (proof.foldl (pair hash) node) sibling] := by
  induction proof generalizing node with
  | nil => rfl
  | cons first proof ih => simp [proofBytes, ih]

/-! ## The nodes of a tree -/

/-- The nodes of a tree over leaves, as far as they are hashed from the given strings. -/
inductive IsNode (hash : List UInt8 → Hash) (leaves : List Hash) (strings : List (List UInt8)) :
    Hash → Prop where
  | leaf {node : Hash} (h : node ∈ leaves) : IsNode hash leaves strings node
  | pair {a b : Hash} (ha : IsNode hash leaves strings a) (hb : IsNode hash leaves strings b)
      (h : pairBytes a b ∈ strings) : IsNode hash leaves strings (pair hash a b)

variable {leaves layer : List Hash} {strings : List (List UInt8)}

theorem isNode_of_mem_above (hlayer : ∀ node ∈ layer, IsNode hash leaves strings node)
    (hstrings : ∀ s ∈ layerBytes layer, s ∈ strings) :
    ∀ node ∈ above hash layer, IsNode hash leaves strings node := by
  fun_induction above hash layer with
  | case1 a b rest ih =>
      rw [layerBytes] at hstrings
      have hpair : IsNode hash leaves strings (pair hash a b) :=
        .pair (hlayer a (by simp)) (hlayer b (by simp)) (hstrings _ (by simp))
      have hrest := ih (fun node h => hlayer node (by simp [h]))
        (fun s h => hstrings s (by simp [h]))
      intro node hnode
      rcases List.mem_cons.mp hnode with rfl | hnode
      · exact hpair
      · exact hrest node hnode
  | case2 rest hnot => exact hlayer

theorem isNode_of_root? {root : Hash} (hlayer : ∀ node ∈ layer, IsNode hash leaves strings node)
    (hstrings : ∀ s ∈ treeBytes hash layer, s ∈ strings) (hroot : root? hash layer = some root) :
    IsNode hash leaves strings root := by
  fun_induction root? hash layer with
  | case1 => simp at hroot
  | case2 node =>
      obtain rfl := Option.some.inj hroot
      exact hlayer node (by simp)
  | case3 a b rest ih =>
      rw [treeBytes] at hstrings
      have habove := isNode_of_mem_above hlayer
        (fun s h => hstrings s (List.mem_append_left _ h))
      exact ih habove (fun s h => hstrings s (List.mem_append_right _ h)) hroot

/-! ## Following a proof backwards -/

/-- A proof that leads from the leaf of an account to a node of the tree starts at a member. -/
theorem mem_of_isNode_foldl {members : List Address} {account : Address} {proof : List Hash}
    (hfree : IsCollisionFree hash strings) (hmembers : ∀ m ∈ members, m.toList ∈ strings)
    (haccount : account.toList ∈ strings)
    (hproof : ∀ s ∈ proofBytes hash (leaf hash account) proof, s ∈ strings)
    (hnode : IsNode hash (members.map (leaf hash)) strings
      (proof.foldl (pair hash) (leaf hash account))) : account ∈ members := by
  -- The last step is undone first: it has been hashed from two nodes of the tree.
  induction proof using List.reverseRecOn with
  | nil =>
      generalize hfold : List.foldl (pair hash) (leaf hash account) [] = node at hnode
      cases hnode with
      | leaf h =>
          obtain ⟨m, hm, hleaf⟩ := List.mem_map.mp h
          have hsame : m.toList = account.toList :=
            hfree _ (hmembers m hm) _ haccount (hleaf.trans hfold.symm)
          rwa [← Octets.eq_of_toList_eq hsame]
      | @pair a b ha hb h =>
          rw [pair_eq] at hfold
          exact absurd (hfree _ haccount _ h hfold) (toList_ne_pairBytes account a b)
  | append_singleton proof sibling ih =>
      rw [proofBytes_concat] at hproof
      have hlast : pairBytes (proof.foldl (pair hash) (leaf hash account)) sibling ∈ strings :=
        hproof _ (by simp)
      have hrest := ih fun s h => hproof s (by simp [h])
      rw [List.foldl_append, List.foldl_cons, List.foldl_nil, pair_eq] at hnode
      generalize hfold : hash (pairBytes (proof.foldl (pair hash) (leaf hash account)) sibling) =
        node at hnode
      cases hnode with
      | leaf h =>
          obtain ⟨m, hm, hleaf⟩ := List.mem_map.mp h
          exact absurd (hfree _ (hmembers m hm) _ hlast (hleaf.trans hfold.symm))
            (toList_ne_pairBytes m _ sibling)
      | @pair a b ha hb h =>
          rw [pair_eq] at hfold
          rcases mem_of_pairBytes_eq (hfree _ hlast _ h hfold) with hsame | hsame
          · exact hrest (hsame ▸ ha)
          · exact hrest (hsame ▸ hb)

theorem exists_root? (hash : List UInt8 → Hash) (leaves : List Hash) (hne : leaves ≠ []) :
    ∃ root, root? hash leaves = some root := by
  obtain ⟨layers, hlayers⟩ := exists_stacks hash leaves
  obtain ⟨first, rest, rfl⟩ := List.exists_cons_of_ne_nil hne
  exact ⟨_, hlayers.root?_of_getElem? (List.getElem?_cons_zero)⟩

/-- The tree over an allowlist that is not empty has a root. Whatever proof is presented, if it
leads from the leaf of an account to that root, and no two of the strings hashed on both ways have
the same hash, the account is on the list. -/
theorem mem_of_verify (hash : List UInt8 → Hash) (members : List Address) (hne : members ≠ [])
    (account : Address) (proof : List Hash) :
    ∃ root, root? hash (members.map (leaf hash)) = some root ∧
      (verify hash proof root (leaf hash account) = true →
        IsCollisionFree hash (hashedBytes hash members account proof) → account ∈ members) := by
  obtain ⟨root, hroot⟩ := exists_root? hash (members.map (leaf hash)) (by simpa using hne)
  refine ⟨root, hroot, fun hverify hfree => ?_⟩
  have hmembers : ∀ m ∈ members, m.toList ∈ hashedBytes hash members account proof := by
    intro m hm
    simp only [hashedBytes, List.mem_append, List.mem_map]
    exact .inl (.inl ⟨m, hm, rfl⟩)
  have hnode : IsNode hash (members.map (leaf hash)) (hashedBytes hash members account proof)
      root := by
    refine isNode_of_root? (fun node h => .leaf h) (fun s h => ?_) hroot
    simp [hashedBytes, h]
  rw [← verify_iff.mp hverify] at hnode
  exact mem_of_isNode_foldl hfree hmembers (by simp [hashedBytes])
    (fun s h => by simp [hashedBytes, h]) hnode

namespace Sample

/-- A hash of the end of a string and its length. -/
def digest (bytes : List UInt8) : Hash :=
  .ofNat 32 (256 * BigEndian.toNat bytes + bytes.length)

def first : Address := .replicate 20 1

def second : Address := .replicate 20 2

/-- Has no sibling among the leaves. -/
def third : Address := .replicate 20 3

/-- The proof for the third of three members. -/
def proof : List Hash :=
  [pair digest (leaf digest first) (leaf digest second)]

end Sample

/-- The third of three members is found to be on the list. -/
theorem mem_of_verify_third :
    ∃ root,
      root? Sample.digest ([Sample.first, Sample.second, Sample.third].map (leaf Sample.digest)) =
          some root ∧
        verify Sample.digest Sample.proof root (leaf Sample.digest Sample.third) = true ∧
        IsCollisionFree Sample.digest (hashedBytes Sample.digest
          [Sample.first, Sample.second, Sample.third] Sample.third Sample.proof) ∧
        Sample.third ∈ [Sample.first, Sample.second, Sample.third] := by
  obtain ⟨root, hroot, hmem⟩ := mem_of_verify Sample.digest
    [Sample.first, Sample.second, Sample.third] (by simp) Sample.third Sample.proof
  have hverify : (root? Sample.digest
      ([Sample.first, Sample.second, Sample.third].map (leaf Sample.digest))).any
        (fun root => verify Sample.digest Sample.proof root (leaf Sample.digest Sample.third)) =
      true := by
    decide +kernel
  have hfree : IsCollisionFree Sample.digest (hashedBytes Sample.digest
      [Sample.first, Sample.second, Sample.third] Sample.third Sample.proof) := by
    decide +kernel
  rw [hroot] at hverify
  exact ⟨root, hroot, hverify, hfree, hmem hverify hfree⟩

end MintSale.Allowlist
