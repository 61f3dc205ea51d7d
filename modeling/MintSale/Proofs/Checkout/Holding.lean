import Mathlib.Data.List.Perm.Lattice
import MintSale.Proofs.Checkout.Listing
import MintSale.Proofs.Checkout.Submission

/-!
# Tokens that let their holders mint

A check of a holder finds the tokens of the account and of its vaults, its own ones first. A
purchase is made with one of the tokens found, and with the vault that this token was found with:
a request can choose among them, but whatever it says of vaults is ignored.
-/

namespace MintSale

variable {account : Address} {vaults : List Address} {owned : List OwnedToken}
  {tokens : List HolderToken}

/-! ## What a check finds -/

/-- The token as an account can mint with it: without a vault if the account itself holds it. -/
def OwnedToken.heldFor (account : Address) (token : OwnedToken) : HolderToken where
  contract := token.contract
  tokenId := token.tokenId
  vault := if token.owner = account then none else some token.owner

@[simp] theorem OwnedToken.isNone_vault_heldFor (account : Address) (token : OwnedToken) :
    (token.heldFor account).vault.isNone = decide (token.owner = account) := by
  unfold heldFor
  split <;> simp_all

@[simp] theorem OwnedToken.isSome_vault_heldFor (account : Address) (token : OwnedToken) :
    (token.heldFor account).vault.isSome = !decide (token.owner = account) := by
  rw [← Option.not_isNone, isNone_vault_heldFor]

/-- Among the tokens of an account and its vaults, the account's own. -/
theorem filter_own (account : Address) (vaults : List Address) (owned : List OwnedToken) :
    (owned.filter fun token => token.owner = account ∨ token.owner ∈ vaults).filter
        (fun token => token.owner = account) =
      owned.filter fun token => token.owner = account := by
  rw [List.filter_filter]
  refine List.filter_congr fun token _ => ?_
  by_cases h : token.owner = account <;> simp [h]

/-- Among the tokens of an account and its vaults, those that are not the account's own. -/
theorem filter_lent (account : Address) (vaults : List Address) (owned : List OwnedToken) :
    (owned.filter fun token => token.owner = account ∨ token.owner ∈ vaults).filter
        (fun token => !decide (token.owner = account)) =
      owned.filter fun token => token.owner ≠ account ∧ token.owner ∈ vaults := by
  rw [List.filter_filter]
  refine List.filter_congr fun token _ => ?_
  by_cases h : token.owner = account <;> simp [h]

namespace Applicant

variable {a : Applicant} {replies : Replies}

@[simp] theorem mem_owners_iff {owner : Address} :
    owner ∈ a.owners vaults ↔ owner = a.account ∨ owner ∈ vaults := by
  by_cases h : owner = a.account <;> simp [owners, h]

/-- What is found: the account's own tokens, and then those of its vaults. -/
theorem holderTokens_eq (a : Applicant) (vaults : List Address) (owned : List OwnedToken) :
    a.holderTokens (a.owners vaults) owned =
      (owned.filter fun token => token.owner = a.account).map (OwnedToken.heldFor a.account) ++
        (owned.filter fun token => token.owner ≠ a.account ∧ token.owner ∈ vaults).map
          (OwnedToken.heldFor a.account) := by
  have hheld : a.holderTokens (a.owners vaults) owned =
      ((owned.filter fun token => token.owner ∈ a.owners vaults).map
          (OwnedToken.heldFor a.account)).filter (fun token => token.vault.isNone) ++
        ((owned.filter fun token => token.owner ∈ a.owners vaults).map
          (OwnedToken.heldFor a.account)).filter (fun token => token.vault.isSome) := rfl
  simp only [hheld, mem_owners_iff, List.filter_map, Function.comp_def,
    OwnedToken.isNone_vault_heldFor, OwnedToken.isSome_vault_heldFor, filter_own, filter_lent]

/-- These are all the tokens of the account and of its vaults, each as often as it is listed. -/
theorem holderTokens_perm (a : Applicant) (vaults : List Address) (owned : List OwnedToken) :
    (a.holderTokens (a.owners vaults) owned).Perm
      ((owned.filter fun token => token.owner = a.account ∨ token.owner ∈ vaults).map
        (OwnedToken.heldFor a.account)) := by
  rw [holderTokens_eq, ← List.map_append, ← filter_own a.account vaults, ← filter_lent]
  exact (List.filter_append_perm _ _).map _

theorem holderTokens_eq_nil_iff : a.holderTokens (a.owners vaults) owned = [] ↔
    ∀ token ∈ owned, token.owner ≠ a.account ∧ token.owner ∉ vaults := by
  rw [← List.perm_nil, (holderTokens_perm a vaults owned).congr_left, List.perm_nil,
    List.map_eq_nil_iff, List.filter_eq_nil_iff]
  simp

/-- What the check asks, and what it comes to. -/
theorem comesTo_tokens (hprojects : a.minter.allowlistedProjects ≠ [])
    (hvaults : replies (.vaults a.account) = .ok vaults)
    (howned : replies (.ownedTokens (a.account :: vaults.filter (· ≠ a.account))
      a.minter.allowlistedProjects) = .ok owned) :
    (a.check .holder).ComesTo replies
      [.vaults a.account, .ownedTokens (a.account :: vaults.filter (· ≠ a.account))
        a.minter.allowlistedProjects]
      (.ok (if a.holderTokens (a.owners vaults) owned = [] then
          .ineligible "Connected wallet does not hold a token from an allowlisted project"
        else .eligible (.holder (a.holderTokens (a.owners vaults) owned)))) := by
  rw [check, checkHolder, if_neg (by simpa using hprojects)]
  refine Program.ComesTo.call_bind hvaults ?_
  refine Program.ComesTo.call_bind howned ?_
  simp only [List.isEmpty_iff]
  split <;> exact Program.comesTo_pure _

/-- The check asks for the tokens of the account and of all vaults that are not the account. It
finds those that are theirs, each as often as it is listed, first the account's own and then the
others, as they are listed; without any of them, and only then, the wallet is turned away. -/
theorem check_findsTokens (a : Applicant) (replies : Replies) (vaults : List Address)
    (owned : List OwnedToken) (hprojects : a.minter.allowlistedProjects ≠ [])
    (hvaults : replies (.vaults a.account) = .ok vaults)
    (howned : replies (.ownedTokens (a.account :: vaults.filter (· ≠ a.account))
      a.minter.allowlistedProjects) = .ok owned) :
    (a.check .holder).questions replies =
        [.vaults a.account, .ownedTokens (a.account :: vaults.filter (· ≠ a.account))
          a.minter.allowlistedProjects] ∧
      ((∃ reason, (a.check .holder).outcome replies = .ok (.ineligible reason)) ↔
        ∀ token ∈ owned, token.owner ≠ a.account ∧ token.owner ∉ vaults) ∧
      ((∃ token ∈ owned, token.owner = a.account ∨ token.owner ∈ vaults) →
        ∃ tokens, (a.check .holder).outcome replies = .ok (.eligible (.holder tokens)) ∧
          tokens.Perm ((owned.filter fun token => token.owner = a.account ∨
            token.owner ∈ vaults).map (OwnedToken.heldFor a.account)) ∧
          tokens = (owned.filter fun token => token.owner = a.account).map
              (OwnedToken.heldFor a.account) ++
            (owned.filter fun token => token.owner ≠ a.account ∧ token.owner ∈ vaults).map
              (OwnedToken.heldFor a.account)) := by
  have hcomes := comesTo_tokens hprojects hvaults howned
  have hnil : a.holderTokens (a.owners vaults) owned = [] ↔ _ := holderTokens_eq_nil_iff
  refine ⟨hcomes.questions_eq, ?_, ?_⟩
  · rw [hcomes.outcome_eq, ← hnil]
    split <;> simp_all
  · rintro ⟨token, htoken, howner⟩
    have hsome : a.holderTokens (a.owners vaults) owned ≠ [] := by
      intro h
      obtain ⟨hother, hforeign⟩ := hnil.mp h token htoken
      exact howner.elim hother hforeign
    rw [if_neg hsome] at hcomes
    exact ⟨_, hcomes.outcome_eq, holderTokens_perm a vaults owned, holderTokens_eq a vaults owned⟩

namespace Sample

def vault : Address := .replicate 20 3

/-- A token of the project whose holders may mint. -/
def token (tokenId : UInt64) (owner : Address) : OwnedToken :=
  ⟨.replicate 20 0xc0, .ofUInt64 tokenId, owner, "proj-0"⟩

def holder : Applicant :=
  { applicant with minter := { minter with allowlistedProjects := ["proj-0"] } }

/-- A source that lists two vaults for the wallet, one of them the wallet itself, and tokens of
three owners, one of them twice and one of a stranger. -/
def holding : Replies
  | .vaults _ => .ok [vault, second]
  | .ownedTokens .. => .ok [token 7 vault, token 8 first, token 9 second, token 7 vault]
  | _ => .error .transport

end Sample

/-- The account's own token comes first, then that of its vault, twice. -/
theorem check_findsTokens_two :
    Sample.holder.minter.allowlistedProjects ≠ [] ∧
      Sample.holding (.vaults Sample.second) = .ok [Sample.vault, Sample.second] ∧
      Sample.holding (.ownedTokens [Sample.second, Sample.vault] ["proj-0"]) =
        .ok [Sample.token 7 Sample.vault, Sample.token 8 Sample.first,
          Sample.token 9 Sample.second, Sample.token 7 Sample.vault] ∧
      (Sample.holder.check .holder).questions Sample.holding =
        [.vaults Sample.second, .ownedTokens [Sample.second, Sample.vault] ["proj-0"]] ∧
      (Sample.holder.check .holder).outcome Sample.holding = .ok (.eligible (.holder
        [⟨.replicate 20 0xc0, .ofUInt64 9, none⟩,
          ⟨.replicate 20 0xc0, .ofUInt64 7, some Sample.vault⟩,
          ⟨.replicate 20 0xc0, .ofUInt64 7, some Sample.vault⟩])) := by
  obtain ⟨hquestions, -, hfound⟩ := check_findsTokens Sample.holder Sample.holding
    [Sample.vault, Sample.second]
    [Sample.token 7 Sample.vault, Sample.token 8 Sample.first, Sample.token 9 Sample.second,
      Sample.token 7 Sample.vault] (by decide) rfl rfl
  obtain ⟨tokens, houtcome, -, rfl⟩ := hfound
    ⟨Sample.token 9 Sample.second, by simp, .inl rfl⟩
  refine ⟨by decide, rfl, rfl, ?_, ?_⟩
  · rw [hquestions]
    decide
  · rw [houtcome]
    decide

end Applicant

/-! ## What a purchase is made with -/

/-- The token that a request chooses, with the vault that it claims for it. -/
def PurchaseRequest.token? (request : PurchaseRequest) : Option HolderToken :=
  request.additional.bind (·.holderToken)

/-- The token with nothing said of a vault. -/
def HolderToken.withoutVault (token : HolderToken) : HolderToken :=
  { token with vault := none }

/-- The request with nothing said of a vault. -/
def PurchaseRequest.withoutVault (request : PurchaseRequest) : PurchaseRequest :=
  { request with
    additional := request.additional.map fun more =>
      ⟨more.holderToken.map HolderToken.withoutVault⟩ }

theorem PurchaseRequest.token?_withoutVault (request : PurchaseRequest) :
    request.withoutVault.token? = request.token?.map HolderToken.withoutVault := by
  unfold withoutVault token?
  cases request.additional <;> rfl

/-- The same token, whatever is said of its vault. -/
def HolderToken.Matches (token chosen : HolderToken) : Prop :=
  token.contract = chosen.contract ∧ token.tokenId = chosen.tokenId

instance (token chosen : HolderToken) : Decidable (token.Matches chosen) :=
  inferInstanceAs (Decidable (_ ∧ _))

/-- The token that a choice settles on: the first one that was found, or, if one is chosen, the
first that is the same. -/
inductive SettlesOn : List HolderToken → Option HolderToken → HolderToken → Prop where
  | first (token : HolderToken) (rest : List HolderToken) : SettlesOn (token :: rest) none token
  | chosen {before : List HolderToken} {token : HolderToken} (after : List HolderToken)
      {chosen : HolderToken} (hmatches : token.Matches chosen)
      (hbefore : ∀ earlier ∈ before, ¬ earlier.Matches chosen) :
      SettlesOn (before ++ token :: after) (some chosen) token

theorem SettlesOn.matches {token chosen : HolderToken}
    (h : SettlesOn tokens (some chosen) token) : token ∈ tokens ∧ token.Matches chosen := by
  cases h with
  | chosen after hmatches hbefore => exact ⟨by simp, hmatches⟩

theorem settlesOn_chosen_iff {token chosen : HolderToken} :
    SettlesOn tokens (some chosen) token ↔
      (tokens.find? fun token =>
        token.contract = chosen.contract ∧ token.tokenId = chosen.tokenId) = some token := by
  rw [List.find?_eq_some_iff_append]
  constructor
  · intro h
    cases h with
    | @chosen before token after chosen hmatches hbefore =>
        refine ⟨decide_eq_true hmatches, before, after, rfl, fun earlier hearlier => ?_⟩
        simpa using not_and_or.mp (hbefore earlier hearlier)
  · rintro ⟨hmatches, before, after, rfl, hbefore⟩
    refine .chosen after (of_decide_eq_true hmatches) fun earlier hearlier => ?_
    exact not_and_or.mpr (by simpa using hbefore earlier hearlier)

/-- A purchase settles on a token that was found, or what is chosen is none of those. -/
theorem Purchase.holderToken_cases (p : Purchase) {choice : Option HolderToken}
    (hdetails : p.details = .holder tokens) (hne : tokens ≠ [])
    (hselected : p.selectedToken = choice.or tokens.head?) :
    (∃ token, SettlesOn tokens choice token ∧ p.holderToken = .ok token) ∨
      ∃ chosen, choice = some chosen ∧ (∀ token ∈ tokens, ¬ token.Matches chosen) ∧
        p.holderToken = .error (.tokenNotEligible chosen.contract chosen.tokenId) := by
  unfold holderToken
  rw [hdetails, hselected]
  cases choice with
  | none =>
      obtain ⟨first, rest, rfl⟩ := List.exists_cons_of_ne_nil hne
      exact .inl ⟨first, .first first rest, by simp⟩
  | some chosen =>
      simp only [Option.some_or]
      cases hfind : tokens.find? fun token =>
          token.contract = chosen.contract ∧ token.tokenId = chosen.tokenId with
      | none =>
          refine .inr ⟨chosen, rfl, fun token htoken hmatches => ?_, rfl⟩
          exact List.find?_eq_none.mp hfind token htoken (decide_eq_true hmatches)
      | some token => exact .inl ⟨token, settlesOn_chosen_iff.mpr hfind, rfl⟩

/-- A purchase of a token fails only for a choice that is none of those found. -/
theorem Purchase.holderToken_eq_error_iff (p : Purchase) {choice : Option HolderToken}
    (hdetails : p.details = .holder tokens) (hne : tokens ≠ [])
    (hselected : p.selectedToken = choice.or tokens.head?) {fault : Fault} :
    p.holderToken = .error fault ↔
      ∃ chosen, choice = some chosen ∧ (∀ token ∈ tokens, ¬ token.Matches chosen) ∧
        fault = .tokenNotEligible chosen.contract chosen.tokenId := by
  rcases p.holderToken_cases hdetails hne hselected with
    ⟨token, hsettles, htoken⟩ | ⟨chosen, hchosen, hnone, htoken⟩
  · constructor
    · intro h
      rw [htoken] at h
      cases h
    · rintro ⟨chosen, rfl, hnone, -⟩
      obtain ⟨hmem, hmatches⟩ := hsettles.matches
      exact absurd hmatches (hnone token hmem)
  · constructor
    · intro h
      rw [htoken] at h
      exact ⟨chosen, hchosen, hnone, (Except.error.inj h).symm⟩
    · rintro ⟨other, hsame, -, rfl⟩
      obtain rfl : chosen = other := Option.some.inj (hchosen.symm.trans hsame)
      exact htoken

/-- A transaction calls a minter with a token: with six arguments if the token has a vault, which is
then the last of them, and else with five. -/
structure Transaction.MintsWith (tx : Transaction) (project : Project)
    (minter : MinterConfiguration) (payer destination : Address) (price : Amount)
    (token : HolderToken) : Prop where
  sender_eq : tx.sender = payer
  recipient_eq : tx.recipient = minter.address
  value_eq : tx.value = price
  carries : tx.Carries (if token.vault.isSome then .purchaseForVault else .purchaseAsHolder)
    ([Argument.addressWord destination, Octets.ofNat 32 project.index.toNat,
      Argument.addressWord project.core, Argument.addressWord token.contract,
      Octets.ofNat 32 token.tokenId.toNat] ++ (token.vault.map Argument.addressWord).toList)

theorem Purchase.holderTransaction_mintsWith (p : Purchase) (token : HolderToken) :
    (p.holderTransaction token).MintsWith p.project p.minter p.account p.purchaseTo p.price
      token := by
  unfold holderTransaction
  cases hvault : token.vault with
  | none =>
      refine ⟨rfl, rfl, rfl, ?_⟩
      rw [hvault]
      exact p.carries_toMinter _ _ _
  | some vault =>
      refine ⟨rfl, rfl, rfl, ?_⟩
      rw [hvault]
      exact p.carries_toMinter _ _ _

namespace Checkout

variable {s : Setup}

theorem sendAll_singleton (wallet : WalletClient) (last : Option Hash) (tx : Transaction) :
    sendAll wallet last [tx] = Program.call (.send wallet tx) := by
  change (Program.call (.send wallet tx)).bind (fun txHash => sendAll wallet (some txHash) []) = _
  rw [Program.call, Program.bind]
  congr 1
  funext answers
  rcases answers with fault | ⟨txHash, ⟨⟩⟩ <;> rfl

/-- The submission of a purchase with a token sends one transaction, and none without a token. -/
theorem submit_holder (hkind : s.kind = .holder) (p : Purchase) :
    submit s (.ok p) = match p.holderToken with
      | .ok token => Program.call (.send s.wallet (p.holderTransaction token))
      | .error fault => Program.fail fault := by
  change (p.transactions s.kind >>= sendAll s.wallet none) = _
  rw [hkind, Purchase.transactions]
  cases p.holderToken with
  | error fault => rfl
  | ok token => exact sendAll_singleton s.wallet none (p.holderTransaction token)

theorem submit_eq_fail_iff (hkind : s.kind = .holder) (p : Purchase) {fault : Fault} :
    submit s (.ok p) = Program.fail fault ↔ p.holderToken = .error fault := by
  rw [submit_holder hkind]
  cases p.holderToken with
  | error other => simp [Program.fail]
  | ok token => simp [Program.call, Program.fail]

/-- The submission that a request comes to in some state, given the account when the request
arrives, the one that pays, and the price. -/
def submissionFor (s : Setup) (state : PurchaseState) (account payer : Address) (price : Amount)
    (request : PurchaseRequest) : Program Hash :=
  submissionProgram s (state.begin account request) (some payer) (some price)

/-- The purchase that a request comes to when these tokens have been found. -/
def holderPurchase (s : Setup) (minter : MinterConfiguration) (tokens : List HolderToken)
    (account payer : Address) (price : Amount) (request : PurchaseRequest) : Purchase where
  project := s.project
  minter := minter
  account := payer
  purchaseTo := request.purchaseTo.getD account
  price := price
  details := .holder tokens
  selectedToken := request.token?.or tokens.head?
  chain := s.chain

theorem submissionFor_eq {minter : MinterConfiguration} (hminter : s.project.minter = some minter)
    {state : PurchaseState} (hfound : state.eligibility = some (.holder tokens))
    (account payer : Address) (price : Amount) (request : PurchaseRequest) :
    submissionFor s state account payer price request =
      submit s (.ok (holderPurchase s minter tokens account payer price request)) := by
  have hbegun : (state.begin account request).eligibility = some (.holder tokens) := hfound
  rw [submissionFor, submissionProgram_eq rfl rfl hbegun]
  unfold purchaseFor
  rw [hminter]
  rfl

/-- A purchase does not mind which vault is claimed for the token that it chooses. -/
theorem submissionFor_withoutVault (hkind : s.kind = .holder) {minter : MinterConfiguration}
    (hminter : s.project.minter = some minter) {state : PurchaseState}
    (hfound : state.eligibility = some (.holder tokens)) (account payer : Address) (price : Amount)
    (request : PurchaseRequest) :
    submissionFor s state account payer price request.withoutVault =
      submissionFor s state account payer price request := by
  rw [submissionFor_eq hminter hfound, submissionFor_eq hminter hfound, submit_holder hkind,
    submit_holder hkind, holderPurchase, holderPurchase, request.token?_withoutVault]
  cases request.token? with
  | none => rfl
  | some chosen => rfl

/-- With tokens that were found, a submission makes the wallet send one transaction, which calls the
minter with the token that the request settles on and with the vault that this token was found with.
If the request chooses none of the tokens found, then and only then the submission fails for it and
nothing is sent. What the request claims of a vault makes no difference. -/
theorem submission_mintsWithFound (s : Setup) (minter : MinterConfiguration)
    (tokens : List HolderToken) (hkind : s.kind = .holder)
    (hminter : s.project.minter = some minter) (hne : tokens ≠ []) (state : PurchaseState)
    (hfound : state.eligibility = some (.holder tokens)) (account payer : Address)
    (price : Amount) (request : PurchaseRequest) :
    ((∃ token tx, SettlesOn tokens request.token? token ∧
        tx.MintsWith s.project minter payer (request.purchaseTo.getD account) price token ∧
        submissionFor s state account payer price request = Program.call (.send s.wallet tx)) ∨
      ∃ chosen, request.token? = some chosen ∧ (∀ token ∈ tokens, ¬ token.Matches chosen) ∧
        submissionFor s state account payer price request =
          Program.fail (.tokenNotEligible chosen.contract chosen.tokenId)) ∧
      (∀ fault, submissionFor s state account payer price request = Program.fail fault ↔
        ∃ chosen, request.token? = some chosen ∧ (∀ token ∈ tokens, ¬ token.Matches chosen) ∧
          fault = .tokenNotEligible chosen.contract chosen.tokenId) ∧
      ∀ other : PurchaseRequest, other.withoutVault = request.withoutVault →
        submissionFor s state account payer price other =
          submissionFor s state account payer price request := by
  have hsubmission := submissionFor_eq hminter hfound account payer price request
  refine ⟨?_, fun fault => ?_, fun other hother => ?_⟩
  · rw [hsubmission, submit_holder hkind]
    rcases (holderPurchase s minter tokens account payer price request).holderToken_cases rfl hne
      rfl with ⟨token, hsettles, htoken⟩ | ⟨chosen, hchosen, hnone, htoken⟩
    · rw [htoken]
      exact .inl ⟨token, _, hsettles, Purchase.holderTransaction_mintsWith _ token, rfl⟩
    · rw [htoken]
      exact .inr ⟨chosen, hchosen, hnone, rfl⟩
  · rw [hsubmission, submit_eq_fail_iff hkind]
    exact Purchase.holderToken_eq_error_iff _ rfl hne rfl
  · rw [← submissionFor_withoutVault hkind hminter hfound, hother,
      submissionFor_withoutVault hkind hminter hfound]

namespace Sample

open Applicant.Sample (second vault)

def setup : Setup where
  project := Applicant.Sample.project
  kind := .holder
  chain := ⟨"chain"⟩
  wallet := ⟨"wallet"⟩

/-- One token that was found with two vaults. -/
def found : List HolderToken :=
  [⟨.replicate 20 0xc0, .ofUInt64 7, some vault⟩, ⟨.replicate 20 0xc0, .ofUInt64 7, none⟩]

/-- Chooses the token, and claims that the wallet itself holds it. -/
def request : PurchaseRequest :=
  ⟨none, some ⟨some ⟨.replicate 20 0xc0, .ofUInt64 7, none⟩⟩⟩

def ready : PurchaseState :=
  { PurchaseState.initial with eligibility := some (.holder found), phase := .readyForPurchase }

end Sample

/-- The token is minted with the vault that it was first found with. -/
theorem submission_mintsWithFound_vault :
    Sample.setup.kind = .holder ∧
      Sample.setup.project.minter = some Applicant.Sample.minter ∧ Sample.found ≠ [] ∧
      Sample.ready.eligibility = some (.holder Sample.found) ∧
      ∃ tx, tx.MintsWith Applicant.Sample.project Applicant.Sample.minter Applicant.Sample.second
          Applicant.Sample.second (.ofUInt64 100)
          ⟨.replicate 20 0xc0, .ofUInt64 7, some Applicant.Sample.vault⟩ ∧
        submissionFor Sample.setup Sample.ready Applicant.Sample.second Applicant.Sample.second
          (.ofUInt64 100) Sample.request = Program.call (.send ⟨"wallet"⟩ tx) := by
  obtain ⟨hcases, -⟩ := submission_mintsWithFound Sample.setup Applicant.Sample.minter Sample.found
    rfl rfl (by decide) Sample.ready rfl Applicant.Sample.second Applicant.Sample.second
    (.ofUInt64 100) Sample.request
  refine ⟨rfl, rfl, by decide, rfl, ?_⟩
  rcases hcases with ⟨token, tx, hsettles, hmints, hsubmission⟩ | ⟨chosen, hchosen, hnone, -⟩
  · obtain rfl : _ = token := Option.some.inj (settlesOn_chosen_iff.mp hsettles)
    exact ⟨tx, hmints, hsubmission⟩
  · obtain rfl : _ = chosen := Option.some.inj hchosen
    exact absurd (by decide) (hnone _ List.mem_cons_self)

end Checkout

end MintSale
