import MintSale.Checkout.Machine
import MintSale.Proofs.Collaborator.Candor

/-!
# What a checkout can fail with

Checks and submissions are candid. Each fault of their own has its cause: something that was missing
when they began, or, for a few of them, what was found out or asked for.
-/

namespace MintSale

/-! ## Details and minters -/

/-- What a minter of a kind needs to have been found out about a wallet. -/
def MinterKind.IsServed : MinterKind → EligibilityDetails → Prop
  | .merkle, .allowlisted .. => True
  | .holder, .holder tokens => tokens ≠ []
  | .setPriceErc20, .erc20 .. => True
  | .merkle, _ | .holder, _ | .setPriceErc20, _ => False
  | .setPrice, _ | .daExp, _ | .daLin, _ | .daExpSettlement, _ => True

/-- A minter of a kind is served by whatever makes a wallet eligible. -/
def MinterKind.Serves (kind : MinterKind) (eligibility : Eligibility) : Prop :=
  ∀ details, eligibility = .eligible details → kind.IsServed details

theorem MinterKind.serves_eligible {kind : MinterKind} {details : EligibilityDetails}
    (h : kind.IsServed details) : kind.Serves (.eligible details) := by
  rintro found ⟨⟩
  exact h

theorem MinterKind.serves_ineligible (kind : MinterKind) (reason : String) :
    kind.Serves (.ineligible reason) := by
  simp [MinterKind.Serves]

namespace Checkout

/-! ## Faults of a check -/

/-- What a check fails with on its own, and why. -/
inductive CheckFault (s : Setup) (account : Option Address) (price : Option Amount) :
    Fault → Prop where
  | noMinter (h : s.project.minter = none) : CheckFault s account price .noMinter
  | noAccount (h : account = none) : CheckFault s account price (.missing .walletAccount)
  | noPrice (h : price = none) : CheckFault s account price .liveDataUnavailable
  | rootMismatch {minter : MinterConfiguration} {root : Hash} (hkind : s.kind = .merkle)
      (hminter : s.project.minter = some minter) (hroot : minter.merkleRoot = some root) :
      CheckFault s account price .allowlistRootMismatch
  | noCurrency (hkind : s.kind = .setPriceErc20) (h : s.project.currency.contract = none) :
      CheckFault s account price (.missing .currencyAddress)

end Checkout

namespace Applicant

variable {own : Fault → Prop}

theorem checkAllowlist_candid (a : Applicant)
    (hmismatch : ∀ root, a.minter.merkleRoot = some root → own .allowlistRootMismatch) :
    a.checkAllowlist.Candid own MinterKind.merkle.Serves := by
  unfold checkAllowlist
  refine Program.Candid.call_bind fun members => ?_
  dsimp only
  have hrest (proof : List Hash) (remaining : Option UInt64) :
      (if remaining = some 0 then
          pure (.ineligible "Connected wallet has no allowlist mints remaining")
        else pure (.eligible (.allowlisted proof remaining)) : Program Eligibility).Candid own
          MinterKind.merkle.Serves := by
    split
    · exact Program.candid_pure (MinterKind.serves_ineligible _ _)
    · exact Program.candid_pure (MinterKind.serves_eligible trivial)
  split
  · next expected root hexpected _ =>
    split
    · exact hmismatch expected hexpected
    · split
      · exact Program.candid_pure (MinterKind.serves_ineligible _ _)
      · exact Program.Candid.call_bind fun remaining => hrest _ remaining
  · split
    · exact Program.candid_pure (MinterKind.serves_ineligible _ _)
    · exact Program.Candid.call_bind fun remaining => hrest _ remaining

theorem checkHolder_candid (a : Applicant) :
    a.checkHolder.Candid own MinterKind.holder.Serves := by
  unfold checkHolder
  split
  · exact Program.candid_pure (MinterKind.serves_ineligible _ _)
  · refine Program.Candid.call_bind fun vaults => ?_
    refine Program.Candid.call_bind fun owned => ?_
    dsimp only
    split
    · exact Program.candid_pure (MinterKind.serves_ineligible _ _)
    · next htokens =>
      refine Program.candid_pure (MinterKind.serves_eligible ?_)
      simpa [MinterKind.IsServed] using htokens

theorem checkCurrency_candid (a : Applicant)
    (hcurrency : a.project.currency.contract = none → own (.missing .currencyAddress))
    (hprice : a.price = none → own .liveDataUnavailable) :
    a.checkCurrency.Candid own MinterKind.setPriceErc20.Serves := by
  unfold checkCurrency
  refine Program.Candid.require_bind (fun currency _ => ?_) hcurrency
  refine Program.Candid.require_bind (fun price _ => ?_) hprice
  refine (Program.candid_calls _).bind ?_
  rintro ⟨balance, allowance, decimals, ⟨⟩⟩ -
  dsimp only
  split
  · exact Program.candid_pure (MinterKind.serves_ineligible _ _)
  · exact Program.candid_pure (MinterKind.serves_eligible trivial)

end Applicant

namespace Checkout

/-- A check is candid, and what it finds out is what the minter needs. -/
theorem checkProgram_candid (s : Setup) (account : Option Address) (price : Option Amount) :
    (checkProgram s account price).Candid (CheckFault s account price) s.kind.Serves := by
  unfold checkProgram
  refine Program.Candid.require_bind (fun minter hminter => ?_) .noMinter
  refine Program.Candid.require_bind (fun a _ => ?_) .noAccount
  unfold Applicant.check
  cases hkind : s.kind with
  | merkle => exact Applicant.checkAllowlist_candid _ fun _ => .rootMismatch hkind hminter
  | holder => exact Applicant.checkHolder_candid _
  | setPriceErc20 => exact Applicant.checkCurrency_candid _ (.noCurrency hkind) .noPrice
  | setPrice | daExp | daLin | daExpSettlement =>
      exact Program.candid_pure (MinterKind.serves_eligible trivial)

/-! ## Faults of a submission -/

/-- The token that has been chosen is none of those that the check has found. -/
structure Ineligible (state : PurchaseState) (chosen : HolderToken) : Prop where
  chosen_eq : state.additional.bind (·.holderToken) = some chosen
  not_found : ∃ tokens, state.eligibility = some (.holder tokens) ∧
    ∀ token ∈ tokens, ¬ (token.contract = chosen.contract ∧ token.tokenId = chosen.tokenId)

/-- What a submission fails with on its own, and why. -/
inductive SubmissionFault (s : Setup) (state : PurchaseState) (account : Option Address)
    (price : Option Amount) : Fault → Prop where
  | noMinter (h : s.project.minter = none) : SubmissionFault s state account price .noMinter
  | noAccount (h : account = none) :
      SubmissionFault s state account price (.missing .walletAccount)
  | noPrice (h : price = none) : SubmissionFault s state account price .liveDataUnavailable
  | notEligible {chosen : HolderToken} (hkind : s.kind = .holder) (h : Ineligible state chosen) :
      SubmissionFault s state account price (.tokenNotEligible chosen.contract chosen.tokenId)

variable {own : Fault → Prop}

theorem holderToken_error {p : Purchase} {tokens : List HolderToken} (htokens : tokens ≠ [])
    (hdetails : p.details = .holder tokens) {fault : Fault} (h : p.holderToken = .error fault) :
    ∃ chosen, p.selectedToken = some chosen ∧
      fault = .tokenNotEligible chosen.contract chosen.tokenId ∧
      ∀ token ∈ tokens, ¬ (token.contract = chosen.contract ∧ token.tokenId = chosen.tokenId) := by
  unfold Purchase.holderToken at h
  rw [hdetails] at h
  dsimp only at h
  cases hselected : p.selectedToken with
  | none =>
      obtain ⟨token, rest, rfl⟩ := List.exists_cons_of_ne_nil htokens
      simp [hselected] at h
  | some chosen =>
      rw [hselected] at h
      dsimp only at h
      split at h
      · simp at h
      · next hnone =>
        obtain rfl := Except.error.inj h
        refine ⟨chosen, rfl, rfl, fun token htoken => ?_⟩
        simpa using List.find?_eq_none.mp hnone token htoken

/-- With what the minter needs, a purchase comes to some transactions, unless a token has been
chosen that is none of those found. -/
theorem transactions_candid {p : Purchase} {kind : MinterKind} (hserved : kind.IsServed p.details)
    (hown : ∀ fault, kind = .holder → p.holderToken = .error fault → own fault) :
    (p.transactions kind).Candid own (· ≠ []) := by
  cases kind with
  | merkle =>
      cases hdetails : p.details with
      | allowlisted proof remaining =>
          rw [Purchase.transactions, Purchase.allowlistTransaction, hdetails]
          exact Program.candid_pure (List.cons_ne_nil _ _)
      | «open» | holder | erc20 => simp [hdetails, MinterKind.IsServed] at hserved
  | holder =>
      cases htoken : p.holderToken with
      | error fault =>
          refine Program.candid_ofExcept (by simp [htoken, Except.map]) fun fault' h => ?_
          obtain rfl : fault = fault' := by simpa [htoken, Except.map] using h
          exact hown fault rfl htoken
      | ok token =>
          refine Program.candid_ofExcept ?_ (by simp [htoken, Except.map])
          intro txs h
          obtain rfl : [p.holderTransaction token] = txs := by
            simpa [htoken, Except.map] using h
          simp
  | setPriceErc20 =>
      rw [Purchase.transactions, Purchase.currencyTransactions]
      split
      · exact Program.Candid.call_bind fun allowance => Program.candid_pure (by simp)
      · next hother =>
        cases hdetails : p.details with
        | erc20 currency balance allowance decimals =>
            exact absurd hdetails (hother currency balance allowance decimals)
        | «open» | allowlisted | holder => simp [hdetails, MinterKind.IsServed] at hserved
  | setPrice | daExp | daLin | daExpSettlement => exact Program.candid_pure (by simp)

theorem sendAll_candid (wallet : WalletClient) (last : Option Hash) (txs : List Transaction)
    (h : last = none → txs ≠ []) : (sendAll wallet last txs).Candid own fun _ => True := by
  induction txs generalizing last with
  | nil =>
      cases last with
      | none => exact absurd rfl (h rfl)
      | some txHash => trivial
  | cons tx rest ih =>
      exact Program.Candid.call_bind fun txHash => ih (some txHash) (by simp)

/-- A submission is candid if the check has found out what the minter needs. -/
theorem submissionProgram_candid {s : Setup} {state : PurchaseState} {details : EligibilityDetails}
    (hdetails : state.eligibility = some details) (hserved : s.kind.IsServed details)
    (account : Option Address) (price : Option Amount) :
    (submissionProgram s state account price).Candid (SubmissionFault s state account price)
      fun _ => True := by
  unfold submissionProgram
  refine Program.Candid.require_bind (fun a _ => ?_) .noAccount
  refine Program.Candid.require_bind (fun p _ => ?_) .noPrice
  refine Program.Candid.require_bind (fun minter _ => ?_) .noMinter
  refine Program.Candid.require_bind (fun found hfound => ?_) (by simp [hdetails])
  obtain rfl : details = found := Option.some.inj (hdetails.symm.trans hfound)
  refine Program.Candid.bind (transactions_candid hserved ?_) fun txs htxs =>
    sendAll_candid s.wallet none txs fun _ => htxs
  intro fault hkind hfault
  rw [hkind] at hserved
  cases details with
  | holder tokens =>
      obtain ⟨chosen, hselected, rfl, hnot⟩ := holderToken_error hserved rfl hfault
      refine .notEligible hkind ⟨?_, tokens, hdetails, hnot⟩
      -- A token that nobody has chosen is the first of those found.
      cases hadditional : state.additional.bind (·.holderToken) with
      | some token => simpa [selectedToken, hadditional] using hselected
      | none =>
          have hhead : tokens.head? = some chosen := by
            simpa [selectedToken, hadditional, hdetails] using hselected
          exact absurd ⟨rfl, rfl⟩ (hnot chosen (List.mem_of_head? hhead))
  | «open» | allowlisted | erc20 => exact hserved.elim

end Checkout

end MintSale
