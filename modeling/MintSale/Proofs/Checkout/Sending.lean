import MintSale.Checkout.Machine
import MintSale.Proofs.Collaborator.Conduct

/-!
# What a checkout asks of a wallet

A check asks nothing of a wallet. A submission asks the checkout's own wallet to send transactions
of one purchase, with the account and the price that it began with.
-/

namespace MintSale

/-! ## Transactions of a purchase -/

namespace Purchase

/-- A transaction is one of those that a purchase consists of, given some answers. -/
def Builds (p : Purchase) (kind : MinterKind) (tx : Transaction) : Prop :=
  ∃ txs, (p.transactions kind).Yields txs ∧ tx ∈ txs

/-- Finding out the transactions sends nothing, and the purchase's account is to send them all. -/
theorem transactions_within (p : Purchase) (kind : MinterKind) :
    (p.transactions kind).Within (¬ ·.IsSend) fun result =>
      ∀ txs, result = .ok txs → ∀ tx ∈ txs, tx.sender = p.account := by
  cases kind with
  | merkle =>
      rintro txs htxs tx htx
      unfold allowlistTransaction at htxs
      split at htxs
      · obtain rfl : [_] = txs := by simpa [Except.map] using htxs
        simp_all [toMinter]
      · simp [Except.map] at htxs
  | holder =>
      rintro txs htxs tx htx
      cases htoken : p.holderToken with
      | error fault => simp [htoken, Except.map] at htxs
      | ok token =>
          obtain rfl : [p.holderTransaction token] = txs := by
            simpa [htoken, Except.map] using htxs
          obtain rfl := List.mem_singleton.mp htx
          unfold holderTransaction
          split <;> rfl
  | setPriceErc20 =>
      rw [transactions, currencyTransactions]
      split
      · refine Program.Within.call_bind id (fun allowance => ?_) (by simp)
        rintro txs ⟨⟩ tx htx
        rcases List.mem_append.mp htx with htx | htx
        · split at htx
          · obtain rfl := List.mem_singleton.mp htx
            rfl
          · simp at htx
        · obtain rfl := List.mem_singleton.mp htx
          rfl
      · simp
  | setPrice | daExp | daLin | daExpSettlement =>
      rintro txs ⟨⟩ tx htx
      obtain rfl := List.mem_singleton.mp htx
      unfold openTransaction
      split <;> rfl

/-- If the transactions are found out, there are some. -/
theorem transactions_ne_nil (p : Purchase) (kind : MinterKind) :
    (p.transactions kind).Within (¬ ·.IsSend) fun result =>
      ∀ txs, result = .ok txs → txs ≠ [] := by
  cases kind with
  | merkle =>
      rintro txs htxs rfl
      cases htransaction : p.allowlistTransaction <;> simp [htransaction, Except.map] at htxs
  | holder =>
      rintro txs htxs rfl
      cases htoken : p.holderToken <;> simp [htoken, Except.map] at htxs
  | setPriceErc20 =>
      rw [transactions, currencyTransactions]
      split
      · refine Program.Within.call_bind id (fun allowance => ?_) (by simp)
        rintro txs ⟨⟩
        simp
      · simp
  | setPrice | daExp | daLin | daExpSettlement =>
      rintro txs ⟨⟩
      simp

theorem Builds.sender_eq {p : Purchase} {kind : MinterKind} {tx : Transaction}
    (h : p.Builds kind tx) : tx.sender = p.account := by
  obtain ⟨txs, htxs, htx⟩ := h
  exact htxs.ends (p.transactions_within kind) txs rfl tx htx

end Purchase

/-! ## Checks of a wallet -/

namespace Applicant

theorem checkAllowlist_within (a : Applicant) :
    a.checkAllowlist.Within (¬ ·.IsSend) fun _ => True := by
  unfold checkAllowlist
  refine Program.Within.call_bind id (fun members => ?_) fun _ => trivial
  dsimp only
  have hrest (remaining : Option UInt64) (proof : List Hash) :
      (if remaining = some 0 then
          pure (.ineligible "Connected wallet has no allowlist mints remaining")
        else pure (.eligible (.allowlisted proof remaining)) : Program Eligibility).Within
          (¬ ·.IsSend) fun _ => True := by
    split <;> trivial
  split
  · split
    · trivial
    · split
      · trivial
      · exact Program.Within.call_bind id (fun remaining => hrest remaining _) fun _ => trivial
  · split
    · trivial
    · exact Program.Within.call_bind id (fun remaining => hrest remaining _) fun _ => trivial

theorem checkHolder_within (a : Applicant) : a.checkHolder.Within (¬ ·.IsSend) fun _ => True := by
  unfold checkHolder
  split
  · trivial
  · refine Program.Within.call_bind id (fun vaults => ?_) fun _ => trivial
    refine Program.Within.call_bind id (fun owned => ?_) fun _ => trivial
    dsimp only
    split <;> trivial

theorem checkCurrency_within (a : Applicant) :
    a.checkCurrency.Within (¬ ·.IsSend) fun _ => True := by
  unfold checkCurrency
  refine Program.Within.require_bind (fun currency _ => ?_) trivial
  refine Program.Within.require_bind (fun price _ => ?_) trivial
  refine (Program.within_bind _ _ _ _).mpr ⟨by simp [Call.IsSend], ?_⟩
  rintro (fault | ⟨balance, allowance, decimals, ⟨⟩⟩)
  · trivial
  · simp only [Program.Within, Program.andThen]
    split <;> trivial

/-- A check of a wallet sends nothing. -/
theorem check_within (kind : MinterKind) (a : Applicant) :
    (a.check kind).Within (¬ ·.IsSend) fun _ => True := by
  cases kind with
  | merkle => exact a.checkAllowlist_within
  | holder => exact a.checkHolder_within
  | setPriceErc20 => exact a.checkCurrency_within
  | setPrice | daExp | daLin | daExpSettlement => trivial

end Applicant

namespace Checkout

/-- A check sends nothing, and only a wallet with an account passes it. -/
theorem checkProgram_within (s : Setup) (account : Option Address) (price : Option Amount) :
    (checkProgram s account price).Within (¬ ·.IsSend) fun result =>
      ∀ details, result = .ok (.eligible details) → account.isSome := by
  unfold checkProgram
  refine Program.Within.require_bind (fun minter _ => ?_) (by simp)
  refine Program.Within.require_bind (fun a ha => ?_) (by simp)
  subst ha
  refine (Applicant.check_within s.kind _).mono (fun _ => id) fun _ _ _ _ => rfl

/-! ## Submissions -/

/-- A transaction belongs to a purchase that a checkout makes for an account at a price. -/
def Sells (s : Setup) (account : Address) (price : Amount) (tx : Transaction) : Prop :=
  ∃ p : Purchase, p.project = s.project ∧ s.project.minter = some p.minter ∧ p.chain = s.chain ∧
    p.account = account ∧ p.price = price ∧ p.Builds s.kind tx

/-- What a submission may ask: its wallet only sends what it sells. -/
def Submits (s : Setup) (account : Option Address) (price : Option Amount) (call : Call) : Prop :=
  ∀ wallet tx, call = .send wallet tx →
    wallet = s.wallet ∧ ∃ a p, account = some a ∧ price = some p ∧ Sells s a p tx

theorem sendAll_within {asks : Call → Prop} {wallet : WalletClient} {txs : List Transaction}
    (htxs : ∀ tx ∈ txs, asks (.send wallet tx)) (last : Option Hash) :
    (sendAll wallet last txs).Within asks fun _ => True := by
  induction txs generalizing last with
  | nil => simp [sendAll]
  | cons tx rest ih =>
      have hrest : ∀ other ∈ rest, asks (.send wallet other) := fun other hother =>
        htxs other (List.mem_cons_of_mem tx hother)
      exact Program.Within.call_bind (htxs tx List.mem_cons_self)
        (fun txHash => ih hrest (some txHash)) fun _ => trivial

/-- Sending a purchase asks nothing of a wallet but to send what the purchase consists of. -/
theorem sending_within {asks : Call → Prop} {p : Purchase} {kind : MinterKind}
    {wallet : WalletClient} (hsends : ∀ tx, p.Builds kind tx → asks (.send wallet tx))
    (hothers : ∀ call, ¬ call.IsSend → asks call) :
    (p.transactions kind >>= sendAll wallet none).Within asks fun _ => True := by
  refine (Program.within_bind _ _ _ _).mpr ?_
  refine (p.transactions_within kind).yields.mono hothers ?_
  rintro (fault | txs) ⟨-, hyields⟩
  · trivial
  · exact sendAll_within (fun tx htx => hsends tx ⟨txs, hyields txs rfl, htx⟩) none

theorem submissionProgram_within (s : Setup) (state : PurchaseState) (account : Option Address)
    (price : Option Amount) :
    (submissionProgram s state account price).Within (Submits s account price) fun _ => True := by
  unfold submissionProgram
  refine Program.Within.require_bind (fun a ha => ?_) trivial
  refine Program.Within.require_bind (fun p hp => ?_) trivial
  refine Program.Within.require_bind (fun minter hminter => ?_) trivial
  refine Program.Within.require_bind (fun details _ => ?_) trivial
  apply sending_within
  · rintro tx hbuilds wallet tx' ⟨⟩
    exact ⟨rfl, a, p, ha, hp, _, rfl, hminter, rfl, rfl, rfl, hbuilds⟩
  · rintro call hcall wallet tx rfl
    exact absurd trivial hcall

/-! ## Transactions before they are sent -/

/-- The part of a submission that finds out which transactions there are to send. -/
def preparation (s : Setup) (state : PurchaseState) (account : Option Address)
    (price : Option Amount) : Program (List Transaction) := do
  let account ← Program.require (.missing .walletAccount) account
  let price ← Program.require .liveDataUnavailable price
  let minter ← Program.require .noMinter s.project.minter
  let details ← Program.require (.missing .eligibilityDetails) state.eligibility
  Purchase.transactions s.kind {
    project := s.project
    minter
    account
    purchaseTo := state.purchaseTo.getD account
    price
    details
    selectedToken := selectedToken state
    chain := s.chain }

theorem submissionProgram_eq_bind (s : Setup) (state : PurchaseState) (account : Option Address)
    (price : Option Amount) :
    submissionProgram s state account price =
      preparation s state account price >>= sendAll s.wallet none := by
  unfold submissionProgram preparation
  rcases account with - | account
  · rfl
  rcases price with - | price
  · rfl
  rcases s.project.minter with - | minter
  · rfl
  rcases state.eligibility with - | details <;> rfl

theorem preparation_within (s : Setup) (state : PurchaseState) (account : Option Address)
    (price : Option Amount) :
    (preparation s state account price).Within (¬ ·.IsSend) fun result =>
      ∀ txs, result = .ok txs → txs ≠ [] := by
  unfold preparation
  refine Program.Within.require_bind (fun account _ => ?_) nofun
  refine Program.Within.require_bind (fun price _ => ?_) nofun
  refine Program.Within.require_bind (fun minter _ => ?_) nofun
  refine Program.Within.require_bind (fun details _ => ?_) nofun
  exact Purchase.transactions_ne_nil _ s.kind

end Checkout

end MintSale
