import MintSale.Checkout.Eligibility
import MintSale.Checkout.Transactions
import MintSale.Proofs.Allowlist.Forgery
import MintSale.Proofs.Calldata
import MintSale.Proofs.Collaborator.Replies
import MintSale.Proofs.Keccak

/-!
# Checks against an allowlist

An allowlist counts when it has the configured root. A wallet on such a list that has mints left is
found eligible, with a proof that its purchase then carries. A list without any address has no root
at all, and the comparison passes over it: a wallet is turned away by such a list, whatever root is
configured.
-/

namespace MintSale

namespace Purchase

/-- The purchase is one transaction, which calls the minter with the proof in its array. -/
def SendsProof (p : Purchase) (proof : List Hash) : Prop :=
  ∃ tx, p.transactions .merkle = pure [tx] ∧ tx.recipient = p.minter.address ∧
    tx.Carries .purchaseWithProof
      ([Argument.addressWord p.purchaseTo, Octets.ofNat 32 p.project.index.toNat,
        Argument.addressWord p.project.core, Octets.ofNat 32 128, Octets.ofNat 32 proof.length] ++
        proof)

theorem sendsProof {p : Purchase} {proof : List Hash} {remaining : Option UInt64}
    (h : p.details = .allowlisted proof remaining) : p.SendsProof proof := by
  refine ⟨_, by rw [transactions, allowlistTransaction, h]; rfl, rfl, ?_⟩
  have hcarries := p.carries_toMinter .purchaseWithProof
    [.address p.purchaseTo, p.indexArgument, p.coreArgument, .hashes proof] p.price
  simpa [Calldata.words, Calldata.heads, Argument.head, Argument.region, indexArgument,
    coreArgument, Amount.ofUInt64] using hcarries

end Purchase

namespace Applicant

variable {a : Applicant} {replies : Replies} {members : List Address} {expected actual root : Hash}
  {proof : List Hash} {remaining : Option UInt64}

/-! ## Roots of lists -/

/-- The root of the tree over a list of addresses. -/
def listRoot? (members : List Address) : Option Hash :=
  Allowlist.root? Keccak.hash (members.map leaf)

/-- The list has the root that is configured, if there is one. -/
def IsRightList (a : Applicant) (members : List Address) : Prop :=
  ∀ root, a.minter.merkleRoot = some root → listRoot? members = some root

/-- The check goes on with the list: the configured root and that of the list, where there are both,
are the same. -/
def Passes (a : Applicant) (members : List Address) : Prop :=
  ∀ expected actual, a.minter.merkleRoot = some expected → listRoot? members = some actual →
    expected = actual

theorem listRoot?_eq_none_iff : listRoot? members = none ↔ members = [] := by
  constructor
  · intro hnone
    by_contra hne
    obtain ⟨root, hroot⟩ :=
      Allowlist.exists_root? Keccak.hash (members.map leaf) (by simpa using hne)
    rw [listRoot?, hroot] at hnone
    cases hnone
  · rintro rfl
    simp [listRoot?, Allowlist.root?]

theorem IsRightList.passes (h : a.IsRightList members) : a.Passes members := by
  intro expected actual hexpected hactual
  have hroot := h expected hexpected
  rw [hactual] at hroot
  exact (Option.some.inj hroot).symm

theorem Passes.isRightList (h : a.Passes members) (hne : members ≠ []) : a.IsRightList members := by
  intro root hroot
  cases hactual : listRoot? members with
  | none => exact absurd (listRoot?_eq_none_iff.mp hactual) hne
  | some actual => rw [h root actual hroot hactual]

/-- Addresses that are on a list have their leaf in its tree, and no others as long as two addresses
have different leaves. -/
theorem leaf_mem_iff
    (hfree : Allowlist.IsCollisionFree Keccak.hash ((a.account :: members).map Octets.toList)) :
    leaf a.account ∈ members.map leaf ↔ a.account ∈ members := by
  refine ⟨fun h => ?_, List.mem_map_of_mem⟩
  obtain ⟨m, hm, hleaf⟩ := List.mem_map.mp h
  have hsame : m.toList = a.account.toList :=
    hfree _ (List.mem_map_of_mem (List.mem_cons_of_mem _ hm)) _ (by simp) hleaf
  rwa [← Octets.eq_of_toList_eq hsame]

/-! ## What the check comes to -/

/-- A list with another root ends the check. -/
theorem comesTo_mismatch (hmembers : replies (.allowlist a.project) = .ok members)
    (hexpected : a.minter.merkleRoot = some expected) (hactual : listRoot? members = some actual)
    (hne : expected ≠ actual) :
    (a.check .merkle).ComesTo replies [.allowlist a.project] (.error .allowlistRootMismatch) := by
  refine Program.ComesTo.call_bind hmembers ?_
  rw [listRoot?] at hactual
  simp only [hexpected, hactual, if_pos hne]
  exact Program.comesTo_fail _

/-- What is left of the check when the list has passed. -/
def checkEntry (a : Applicant) (members : List Address) : Program Eligibility :=
  match Allowlist.proof? Keccak.hash (members.map leaf) (leaf a.account) with
  | none => return .ineligible "Connected wallet is not on the allowlist for this project"
  | some proof => do
    let remaining : Option UInt64 ← Program.call (.mintsRemaining a.chain a.project a.account)
    if remaining = some 0 then
      return .ineligible "Connected wallet has no allowlist mints remaining"
    return .eligible (.allowlisted proof remaining)

theorem comesTo_of_passes (hmembers : replies (.allowlist a.project) = .ok members)
    (hpasses : a.Passes members) {asked : List Call} {result : Except Fault Eligibility}
    (h : (a.checkEntry members).ComesTo replies asked result) :
    (a.check .merkle).ComesTo replies (.allowlist a.project :: asked) result := by
  refine Program.ComesTo.call_bind hmembers ?_
  dsimp only
  split
  · next expected actual hexpected hactual =>
    rw [if_neg (not_not.mpr (hpasses expected actual hexpected hactual))]
    exact h
  · exact h

/-- A wallet that is not on the list is turned away. -/
theorem comesTo_stranger (hmembers : replies (.allowlist a.project) = .ok members)
    (hpasses : a.Passes members) (hleaf : leaf a.account ∉ members.map leaf) :
    (a.check .merkle).ComesTo replies [.allowlist a.project]
      (.ok (.ineligible "Connected wallet is not on the allowlist for this project")) := by
  refine comesTo_of_passes hmembers hpasses ?_
  rw [checkEntry, Allowlist.proof?_eq_none_iff.mpr hleaf]
  exact Program.comesTo_pure _

/-- For a wallet that is on the list the chain is asked how many mints are left. -/
theorem comesTo_member (hmembers : replies (.allowlist a.project) = .ok members)
    (hpasses : a.Passes members)
    (hproof : Allowlist.proof? Keccak.hash (members.map leaf) (leaf a.account) = some proof)
    (hremaining : replies (.mintsRemaining a.chain a.project a.account) = .ok remaining) :
    (a.check .merkle).ComesTo replies
      [.allowlist a.project, .mintsRemaining a.chain a.project a.account]
      (.ok (if remaining = some 0 then
          .ineligible "Connected wallet has no allowlist mints remaining"
        else .eligible (.allowlisted proof remaining))) := by
  refine comesTo_of_passes hmembers hpasses ?_
  rw [checkEntry, hproof]
  refine Program.ComesTo.call_bind hremaining ?_
  split <;> exact Program.comesTo_pure _

/-! ## Exactness -/

/-- The ways in which a check can go, with what it asks and what it results in: the list is not the
right one, the wallet is not on it, the wallet has no mints left, or it is eligible. -/
inductive Judged (a : Applicant) (members : List Address) (remaining : Option UInt64) :
    List Call → Except Fault Eligibility → Prop where
  | mismatch (h : ¬ a.Passes members) :
      Judged a members remaining [.allowlist a.project] (.error .allowlistRootMismatch)
  | stranger (hpasses : a.Passes members) (h : a.account ∉ members) :
      Judged a members remaining [.allowlist a.project]
        (.ok (.ineligible "Connected wallet is not on the allowlist for this project"))
  | exhausted (hpasses : a.Passes members) (h : a.account ∈ members) (hzero : remaining = some 0) :
      Judged a members remaining
        [.allowlist a.project, .mintsRemaining a.chain a.project a.account]
        (.ok (.ineligible "Connected wallet has no allowlist mints remaining"))
  | eligible (hpasses : a.Passes members) (h : a.account ∈ members) (hleft : remaining ≠ some 0)
      {proof : List Hash} {root : Hash} (hroot : listRoot? members = some root)
      (hproof : Allowlist.verify Keccak.hash proof root (leaf a.account) = true) :
      Judged a members remaining
        [.allowlist a.project, .mintsRemaining a.chain a.project a.account]
        (.ok (.eligible (.allowlisted proof remaining)))

theorem exists_judged (hmembers : replies (.allowlist a.project) = .ok members)
    (hremaining : replies (.mintsRemaining a.chain a.project a.account) = .ok remaining)
    (hfree : Allowlist.IsCollisionFree Keccak.hash ((a.account :: members).map Octets.toList)) :
    ∃ asked result, (a.check .merkle).ComesTo replies asked result ∧
      a.Judged members remaining asked result := by
  by_cases hpasses : a.Passes members
  · by_cases haccount : a.account ∈ members
    · have hleaf := (leaf_mem_iff hfree).mpr haccount
      obtain ⟨layers, hlayers⟩ := Allowlist.exists_stacks Keccak.hash (members.map leaf)
      obtain ⟨index, hindex, hproof⟩ := Allowlist.exists_proof? Keccak.hash hleaf
      have hroot := hlayers.root?_of_getElem? hindex
      have hcomes := comesTo_member hmembers hpasses hproof hremaining
      by_cases hzero : remaining = some 0
      · rw [if_pos hzero] at hcomes
        exact ⟨_, _, hcomes, .exhausted hpasses haccount hzero⟩
      · rw [if_neg hzero] at hcomes
        exact ⟨_, _, hcomes,
          .eligible hpasses haccount hzero hroot (Allowlist.verify_iff.mpr rfl)⟩
    · have hleaf := mt (leaf_mem_iff hfree).mp haccount
      exact ⟨_, _, comesTo_stranger hmembers hpasses hleaf, .stranger hpasses haccount⟩
  · have hmismatch := hpasses
    simp only [Passes, not_forall] at hmismatch
    obtain ⟨expected, actual, hexpected, hactual, hne⟩ := hmismatch
    exact ⟨_, _, comesTo_mismatch hmembers hexpected hactual hne, .mismatch hpasses⟩

variable {asked : List Call} {result : Except Fault Eligibility}

theorem Judged.eligible_iff (h : a.Judged members remaining asked result) :
    (∃ details, result = .ok (.eligible details)) ↔
      a.account ∈ members ∧ a.IsRightList members ∧ remaining ≠ some 0 := by
  constructor
  · rintro ⟨details, rfl⟩
    cases h with
    | eligible hpasses haccount hleft =>
        exact ⟨haccount, hpasses.isRightList (List.ne_nil_of_mem haccount), hleft⟩
  · rintro ⟨haccount, hright, hleft⟩
    cases h with
    | mismatch h => exact absurd hright.passes h
    | stranger _ h => exact absurd haccount h
    | exhausted _ _ hzero => exact absurd hzero hleft
    | eligible => exact ⟨_, rfl⟩

/-- The proof leads to the root of the list, and so to the configured one. -/
theorem Judged.proves {details : EligibilityDetails}
    (h : a.Judged members remaining asked (.ok (.eligible details))) :
    ∃ proof root, details = .allowlisted proof remaining ∧ listRoot? members = some root ∧
      Allowlist.verify Keccak.hash proof root (leaf a.account) = true ∧
      ∀ configured, a.minter.merkleRoot = some configured →
        Allowlist.verify Keccak.hash proof configured (leaf a.account) = true := by
  cases h with
  | @eligible hpasses haccount hleft proof root hroot hproof =>
      refine ⟨proof, root, rfl, hroot, hproof, fun configured hconfigured => ?_⟩
      have hright := hpasses.isRightList (List.ne_nil_of_mem haccount) configured hconfigured
      obtain rfl : root = configured := Option.some.inj (hroot.symm.trans hright)
      exact hproof

theorem Judged.asks_iff (h : a.Judged members remaining asked result) :
    .mintsRemaining a.chain a.project a.account ∈ asked ↔
      a.Passes members ∧ a.account ∈ members := by
  cases h with
  | mismatch h => simp [h]
  | stranger _ h => simp [h]
  | exhausted hpasses h => simp [hpasses, h]
  | eligible hpasses h => simp [hpasses, h]

/-- What a check of an account against a list is worth. -/
structure IsExact (a : Applicant) (replies : Replies) (members : List Address)
    (remaining : Option UInt64) : Prop where
  eligible_iff : (∃ details, (a.check .merkle).outcome replies = .ok (.eligible details)) ↔
    a.account ∈ members ∧ a.IsRightList members ∧ remaining ≠ some 0
  proves : ∀ details, (a.check .merkle).outcome replies = .ok (.eligible details) →
    ∃ proof root, details = .allowlisted proof remaining ∧ listRoot? members = some root ∧
      Allowlist.verify Keccak.hash proof root (leaf a.account) = true ∧
      (∀ configured, a.minter.merkleRoot = some configured →
        Allowlist.verify Keccak.hash proof configured (leaf a.account) = true) ∧
      ∀ p : Purchase, p.details = details → p.SendsProof proof
  asks_iff : .mintsRemaining a.chain a.project a.account ∈ (a.check .merkle).questions replies ↔
    a.Passes members ∧ a.account ∈ members

/-- Whenever the list and the number of mints are answered and the addresses have different leaves,
a wallet is found eligible exactly if it is on a list with the right root and has mints left. Its
proof then leads to that root and is what its purchase carries. Mints are only asked about for a
wallet on a list that has passed. -/
theorem check_isExact (a : Applicant) (replies : Replies) (members : List Address)
    (remaining : Option UInt64) (hmembers : replies (.allowlist a.project) = .ok members)
    (hremaining : replies (.mintsRemaining a.chain a.project a.account) = .ok remaining)
    (hfree : Allowlist.IsCollisionFree Keccak.hash ((a.account :: members).map Octets.toList)) :
    a.IsExact replies members remaining := by
  obtain ⟨asked, result, hcomes, hjudged⟩ := exists_judged hmembers hremaining hfree
  constructor
  · rw [hcomes.outcome_eq]
    exact hjudged.eligible_iff
  · rw [hcomes.outcome_eq]
    rintro details rfl
    obtain ⟨proof, root, rfl, hroot, hproof, hconfigured⟩ := hjudged.proves
    exact ⟨proof, root, rfl, hroot, hproof, hconfigured, fun p hp => Purchase.sendsProof hp⟩
  · rw [hcomes.questions_eq]
    exact hjudged.asks_iff

namespace Sample

def minter : MinterConfiguration where
  address := .replicate 20 0xbb
  minterType := "MinterSetPriceMerkleV5"
  merkleRoot := none
  allowlistedProjects := []

def project : Project where
  id := "proj-1"
  index := 1
  core := .replicate 20 0xaa
  artist := .replicate 20 0xa1
  name := "Fidenza"
  complete := false
  startTime := none
  endTime := none
  currency := .native
  minter := some minter

def first : Address := .replicate 20 1

def second : Address := .replicate 20 2

/-- The second of two addresses, on a list with the configured root. -/
def applicant : Applicant where
  project := project
  minter := { minter with merkleRoot := listRoot? [first, second] }
  account := second
  price := none
  chain := ⟨"chain"⟩

/-- A source with this list, and a chain on which two mints are left. -/
def listing (members : List Address) : Replies
  | .allowlist _ => .ok members
  | .mintsRemaining .. => .ok (some 2)
  | _ => .error .transport

theorem isCollisionFree :
    Allowlist.IsCollisionFree Keccak.hash ([second, first, second].map Octets.toList) := by
  have hne : Keccak.hash first.toList ≠ Keccak.hash second.toList := by
    intro hsame
    have hdigests := congrArg Octets.toList hsame
    rw [Keccak.toList_hash_of_lt (by decide), Keccak.toList_hash_of_lt (by decide)] at hdigests
    exact absurd hdigests (by decide +kernel)
  have htwo : ∀ s ∈ [second, first, second].map Octets.toList,
      s = first.toList ∨ s = second.toList := by
    decide
  intro s hs t ht hsame
  rcases htwo s hs with rfl | rfl <;> rcases htwo t ht with rfl | rfl
  · rfl
  · exact absurd hsame hne
  · exact absurd hsame.symm hne
  · rfl

end Sample

/-- The second of two members is eligible. -/
theorem check_isExact_second :
    Sample.listing [Sample.first, Sample.second] (.allowlist Sample.project) =
        .ok [Sample.first, Sample.second] ∧
      Sample.listing [Sample.first, Sample.second]
        (.mintsRemaining ⟨"chain"⟩ Sample.project Sample.second) = .ok (some 2) ∧
      Allowlist.IsCollisionFree Keccak.hash
        ([Sample.second, Sample.first, Sample.second].map Octets.toList) ∧
      Sample.applicant.IsExact (Sample.listing [Sample.first, Sample.second])
        [Sample.first, Sample.second] (some 2) ∧
      ∃ details, (Sample.applicant.check .merkle).outcome
        (Sample.listing [Sample.first, Sample.second]) = .ok (.eligible details) := by
  have hexact := check_isExact Sample.applicant (Sample.listing [Sample.first, Sample.second])
    [Sample.first, Sample.second] (some 2) rfl rfl Sample.isCollisionFree
  refine ⟨rfl, rfl, Sample.isCollisionFree, hexact, hexact.eligible_iff.mpr ⟨?_, ?_, ?_⟩⟩
  · simp [Sample.applicant]
  · exact fun root hroot => hroot
  · decide

/-! ## Lists that are refused -/

theorem passes_nil (a : Applicant) : a.Passes [] := by
  intro expected actual _ hactual
  rw [listRoot?_eq_none_iff.mpr rfl] at hactual
  cases hactual

/-- Without any address on the list every wallet is turned away. -/
theorem comesTo_nil (hmembers : replies (.allowlist a.project) = .ok []) :
    (a.check .merkle).ComesTo replies [.allowlist a.project]
      (.ok (.ineligible "Connected wallet is not on the allowlist for this project")) :=
  comesTo_stranger hmembers a.passes_nil (by simp)

/-- That a list without the configured root is refused, and the wallet not judged by it, is true of
all lists but the empty one. By that one the wallet is judged. -/
theorem check_refuses_iff (a : Applicant) (root : Hash) (hroot : a.minter.merkleRoot = some root)
    (replies : Replies) (members : List Address)
    (hmembers : replies (.allowlist a.project) = .ok members) :
    ((listRoot? members ≠ some root → (a.check .merkle).ComesTo replies [.allowlist a.project]
        (.error .allowlistRootMismatch)) ↔ members ≠ []) ∧
      (members = [] → (a.check .merkle).ComesTo replies [.allowlist a.project]
        (.ok (.ineligible "Connected wallet is not on the allowlist for this project"))) := by
  refine ⟨⟨?_, ?_⟩, ?_⟩
  · rintro hrefuses rfl
    have hrefused := hrefuses (by simp [listRoot?_eq_none_iff.mpr rfl])
    have hjudged := (comesTo_nil hmembers).outcome_eq
    rw [hrefused.outcome_eq] at hjudged
    cases hjudged
  · intro hne hwrong
    obtain ⟨actual, hactual⟩ := Option.ne_none_iff_exists'.mp (mt listRoot?_eq_none_iff.mp hne)
    refine comesTo_mismatch hmembers hroot hactual ?_
    rintro rfl
    exact hwrong hactual
  · rintro rfl
    exact comesTo_nil hmembers

/-- A sale that has the root of some other list configured. -/
def Sample.guarded : Applicant :=
  { applicant with minter := { minter with merkleRoot := some (.replicate 32 1) } }

theorem Sample.listRoot?_ne :
    listRoot? [Sample.first, Sample.second] ≠ some (.replicate 32 1) := by
  have hroot : listRoot? [Sample.first, Sample.second] =
      some (Allowlist.pair Keccak.hash (leaf Sample.first) (leaf Sample.second)) := by
    simp [listRoot?, Allowlist.root?, Allowlist.above]
  have hfirst : (leaf Sample.first).toList = Keccak.shortDigest Sample.first.toList :=
    Keccak.toList_hash_of_lt (by decide)
  have hsecond : (leaf Sample.second).toList = Keccak.shortDigest Sample.second.toList :=
    Keccak.toList_hash_of_lt (by decide)
  intro hsame
  rw [hroot, Allowlist.pair_eq] at hsame
  have hbytes := congrArg Octets.toList (Option.some.inj hsame)
  rw [Keccak.toList_hash_of_lt (by rw [Allowlist.length_pairBytes]; decide), Allowlist.pairBytes,
    hfirst, hsecond] at hbytes
  -- Whichever leaf comes first, the digest is another one.
  split at hbytes
  · exact absurd hbytes (by decide +kernel)
  · exact absurd hbytes (by decide +kernel)

/-- A list of two addresses does not have that root, and is refused. -/
theorem check_refuses_iff_two :
    Sample.guarded.minter.merkleRoot = some (.replicate 32 1) ∧
      Sample.listing [Sample.first, Sample.second] (.allowlist Sample.project) =
        .ok [Sample.first, Sample.second] ∧
      listRoot? [Sample.first, Sample.second] ≠ some (.replicate 32 1) ∧
      (Sample.guarded.check .merkle).ComesTo (Sample.listing [Sample.first, Sample.second])
        [.allowlist Sample.project] (.error .allowlistRootMismatch) := by
  have hrefuses := (check_refuses_iff Sample.guarded (.replicate 32 1) rfl
    (Sample.listing [Sample.first, Sample.second]) [Sample.first, Sample.second] rfl).1.mpr
    (by simp)
  exact ⟨rfl, rfl, Sample.listRoot?_ne, hrefuses Sample.listRoot?_ne⟩

/-- With no address at all the list does not have the root either, and yet the wallet is judged. -/
theorem check_judges_by_empty :
    Sample.guarded.minter.merkleRoot = some (.replicate 32 1) ∧
      Sample.listing [] (.allowlist Sample.project) = .ok [] ∧
      listRoot? [] ≠ some (.replicate 32 1) ∧
      (Sample.guarded.check .merkle).outcome (Sample.listing []) =
        .ok (.ineligible "Connected wallet is not on the allowlist for this project") ∧
      (Sample.guarded.check .merkle).outcome (Sample.listing []) ≠
        .error .allowlistRootMismatch := by
  have hcomes : (Sample.guarded.check .merkle).ComesTo (Sample.listing []) _ _ := comesTo_nil rfl
  refine ⟨rfl, rfl, by simp [listRoot?_eq_none_iff.mpr rfl], hcomes.outcome_eq, ?_⟩
  rw [hcomes.outcome_eq]
  simp

end Applicant

end MintSale
