import MintSale.Proofs.Calldata.Signatures
import MintSale.Proofs.Checkout.Faults
import MintSale.Proofs.Checkout.Listing

/-!
# What transactions mean

A transaction of a purchase can be read by anyone who knows the signatures of the methods that
purchases call. What they read is what the purchase is about: who gets the token, which project of
which contract it is from, and what the minter of this kind needs besides.
-/

namespace MintSale

open Calldata

/-! ## Meanings -/

/-- What a transaction says: which contract it calls and what it pays, and the signature and the
arguments of the call. -/
structure Meaning where
  recipient : Address
  value : Amount
  signature : String
  arguments : List Argument

/-- The transaction of an account is read as this meaning. -/
structure Transaction.Says (tx : Transaction) (account : Address) (m : Meaning) : Prop where
  sender_eq : tx.sender = account
  recipient_eq : tx.recipient = m.recipient
  value_eq : tx.value = m.value
  data_eq : tx.data = selector m.signature ++ encode m.arguments
  read_eq : readCall? tx.data = some (m.signature, m.arguments)
  types_eq : typesOf? m.signature = some (m.arguments.map Argument.type)

/-- A call of a method with arguments of its types says that it is one. -/
theorem Transaction.says_call {tx : Transaction} {m : Method} (hm : m ∈ purchaseMethods)
    {signature : String} (hsignature : m.signature = signature) {args : List Argument}
    (hdata : tx.data = m.call args) (htypes : args.map Argument.type = m.types)
    (hfits : (encode args).length < 256 ^ 32) :
    tx.Says tx.sender ⟨tx.recipient, tx.value, signature, args⟩ := by
  subst hsignature
  refine ⟨rfl, rfl, rfl, hdata, ?_, ?_⟩
  · rw [hdata]
    exact readCall?_call hm htypes hfits
  · rw [htypes]
    exact (signature_mem m hm).2

/-- A few arguments that are no arrays can be counted. -/
theorem Transaction.says_call_of_flat {tx : Transaction} {m : Method} (hm : m ∈ purchaseMethods)
    {signature : String} (hsignature : m.signature = signature) {args : List Argument}
    (hdata : tx.data = m.call args) (htypes : args.map Argument.type = m.types)
    (hflat : args.filterMap Argument.items? = []) (hfew : args.length ≤ 6) :
    tx.Says tx.sender ⟨tx.recipient, tx.value, signature, args⟩ := by
  refine says_call hm hsignature hdata htypes ?_
  rw [length_encode, hflat]
  simp only [List.map_nil, List.sum_nil]
  omega

/-- A minter that sells to everyone. -/
def MinterKind.IsOpen : MinterKind → Prop
  | .setPrice | .daExp | .daLin | .daExpSettlement => True
  | .merkle | .holder | .setPriceErc20 => False

namespace Purchase

variable {replies : Replies}

/-- What the chain says about how much the minter may spend. -/
def allowanceIn (p : Purchase) (replies : Replies) (currency : Address) : Except Fault Amount :=
  replies (.allowance p.chain currency p.account p.minter.address)

/-- What the transactions of a purchase from a minter of some kind have to say, in order. -/
inductive Means (p : Purchase) (replies : Replies) : MinterKind → List Meaning → Prop where
  | own {kind : MinterKind} (hkind : kind.IsOpen) (hto : p.purchaseTo = p.account) :
      Means p replies kind [⟨p.minter.address, p.price, "purchase(uint256,address)",
        [.uint (.ofUInt64 p.project.index), .address p.project.core]⟩]
  | gift {kind : MinterKind} (hkind : kind.IsOpen) (hto : p.purchaseTo ≠ p.account) :
      Means p replies kind [⟨p.minter.address, p.price, "purchaseTo(address,uint256,address)",
        [.address p.purchaseTo, .uint (.ofUInt64 p.project.index), .address p.project.core]⟩]
  | listed {proof : List Hash} {remaining : Option UInt64}
      (hdetails : p.details = .allowlisted proof remaining) :
      Means p replies .merkle [⟨p.minter.address, p.price,
        "purchaseTo(address,uint256,address,bytes32[])",
        [.address p.purchaseTo, .uint (.ofUInt64 p.project.index), .address p.project.core,
          .hashes proof]⟩]
  | held {token : HolderToken} (htoken : p.holderToken = .ok token) (hvault : token.vault = none) :
      Means p replies .holder [⟨p.minter.address, p.price,
        "purchaseTo(address,uint256,address,address,uint256)",
        [.address p.purchaseTo, .uint (.ofUInt64 p.project.index), .address p.project.core,
          .address token.contract, .uint token.tokenId]⟩]
  | lent {token : HolderToken} {vault : Address} (htoken : p.holderToken = .ok token)
      (hvault : token.vault = some vault) :
      Means p replies .holder [⟨p.minter.address, p.price,
        "purchaseTo(address,uint256,address,address,uint256,address)",
        [.address p.purchaseTo, .uint (.ofUInt64 p.project.index), .address p.project.core,
          .address token.contract, .uint token.tokenId, .address vault]⟩]
  | covered {currency : Address} {balance recorded allowance : Amount} {decimals : UInt8}
      (hdetails : p.details = .erc20 currency balance recorded decimals)
      (hallowance : p.allowanceIn replies currency = .ok allowance)
      (hcovered : ¬ allowance < p.price) :
      Means p replies .setPriceErc20 [⟨p.minter.address, .zero,
        "purchaseTo(address,uint256,address,uint256,address)",
        [.address p.purchaseTo, .uint (.ofUInt64 p.project.index), .address p.project.core,
          .uint p.price, .address currency]⟩]
  | uncovered {currency : Address} {balance recorded allowance : Amount} {decimals : UInt8}
      (hdetails : p.details = .erc20 currency balance recorded decimals)
      (hallowance : p.allowanceIn replies currency = .ok allowance)
      (huncovered : allowance < p.price) :
      Means p replies .setPriceErc20
        [⟨currency, .zero, "approve(address,uint256)",
          [.address p.minter.address, .uint p.price]⟩,
        ⟨p.minter.address, .zero, "purchaseTo(address,uint256,address,uint256,address)",
          [.address p.purchaseTo, .uint (.ofUInt64 p.project.index), .address p.project.core,
            .uint p.price, .address currency]⟩]

/-- Why a purchase from a minter of some kind has no transactions: the wallet's details are not what
the minter needs, none of the wallet's tokens is the one that was chosen, or the chain does not tell
what the minter may spend. -/
inductive Lacks (p : Purchase) (replies : Replies) : MinterKind → Fault → Prop where
  | details {kind : MinterKind} (h : ¬ kind.IsServed p.details) (fault : Fault) :
      Lacks p replies kind fault
  | token {fault : Fault} (h : p.holderToken = .error fault) : Lacks p replies .holder fault
  | allowance {currency : Address} {balance recorded : Amount} {decimals : UInt8} {fault : Fault}
      (hdetails : p.details = .erc20 currency balance recorded decimals)
      (h : p.allowanceIn replies currency = .error fault) : Lacks p replies .setPriceErc20 fault

/-! ## Reading -/

theorem transactions_open (p : Purchase) {kind : MinterKind} (hkind : kind.IsOpen) :
    p.transactions kind = pure [p.openTransaction] := by
  cases kind with
  | merkle | holder | setPriceErc20 => cases hkind
  | setPrice | daExp | daLin | daExpSettlement => rfl

theorem openTransaction_says (p : Purchase) {kind : MinterKind} (hkind : kind.IsOpen) :
    ∃ txs ms, (p.transactions kind).outcome replies = .ok txs ∧ p.Means replies kind ms ∧
      List.Forall₂ (fun tx m => tx.Says p.account m) txs ms := by
  refine ⟨[p.openTransaction], ?_⟩
  rw [p.transactions_open hkind, openTransaction]
  split
  · next hto =>
    exact ⟨_, rfl, .own hkind hto,
      .cons (Transaction.says_call_of_flat (by decide) (by decide) rfl rfl rfl (by simp)) .nil⟩
  · next hto =>
    exact ⟨_, rfl, .gift hkind hto,
      .cons (Transaction.says_call_of_flat (by decide) (by decide) rfl rfl rfl (by simp)) .nil⟩

theorem holderTransaction_says (p : Purchase) {token : HolderToken}
    (htoken : p.holderToken = .ok token) :
    ∃ m, p.Means replies .holder [m] ∧ (p.holderTransaction token).Says p.account m := by
  rw [holderTransaction]
  split
  · next vault hvault =>
    exact ⟨_, .lent htoken hvault,
      Transaction.says_call_of_flat (by decide) (by decide) rfl rfl rfl (by simp)⟩
  · next hvault =>
    exact ⟨_, .held htoken hvault,
      Transaction.says_call_of_flat (by decide) (by decide) rfl rfl rfl (by simp)⟩

/-- The words of a proof can be counted. -/
def ProofFits (p : Purchase) : Prop :=
  ∀ proof remaining, p.details = .allowlisted proof remaining →
    32 * (5 + proof.length) < 256 ^ 32

theorem allowlistTransaction_says (p : Purchase) (hfits : p.ProofFits) {tx : Transaction}
    (htx : p.allowlistTransaction = .ok tx) :
    ∃ m, p.Means replies .merkle [m] ∧ tx.Says p.account m := by
  unfold allowlistTransaction at htx
  split at htx
  · next proof remaining hdetails =>
    obtain rfl := Except.ok.inj htx
    refine ⟨_, .listed hdetails, Transaction.says_call (by decide) (by decide) rfl rfl ?_⟩
    have hproof := hfits proof remaining hdetails
    simp only [length_encode, List.filterMap, Argument.items?, List.map, List.sum_cons, List.sum_nil,
      List.length]
    omega
  · cases htx

theorem not_isServed_of_error (p : Purchase) {fault : Fault}
    (h : p.allowlistTransaction = .error fault) : ¬ MinterKind.merkle.IsServed p.details := by
  unfold allowlistTransaction at h
  split at h
  · cases h
  · next hother =>
    cases hdetails : p.details with
    | allowlisted proof remaining => exact absurd hdetails (hother proof remaining)
    | «open» | holder | erc20 => exact id

theorem approval_says (p : Purchase) (currency : Address) :
    (p.approval currency).Says p.account ⟨currency, .zero, "approve(address,uint256)",
      [.address p.minter.address, .uint p.price]⟩ :=
  Transaction.says_call_of_flat (by decide) (by decide) rfl rfl rfl (by simp)

theorem currencyTransaction_says (p : Purchase) (currency : Address) :
    (p.currencyTransaction currency).Says p.account ⟨p.minter.address, .zero,
      "purchaseTo(address,uint256,address,uint256,address)",
      [.address p.purchaseTo, .uint (.ofUInt64 p.project.index), .address p.project.core,
        .uint p.price, .address currency]⟩ :=
  Transaction.says_call_of_flat (by decide) (by decide) rfl rfl rfl (by simp)

/-! ## Purchases in a currency -/

variable {currency : Address} {balance recorded : Amount} {decimals : UInt8}

/-- The transactions with which a purchase goes on when the allowance is known. -/
def currencySteps (p : Purchase) (currency : Address) (allowance : Amount) : List Transaction :=
  (if allowance < p.price then [p.approval currency] else []) ++ [p.currencyTransaction currency]

theorem transactions_currency (p : Purchase)
    (hdetails : p.details = .erc20 currency balance recorded decimals) :
    p.transactions .setPriceErc20 =
      (Program.call (.allowance p.chain currency p.account p.minter.address) >>=
        fun allowance => pure (p.currencySteps currency allowance)) := by
  rw [transactions, currencyTransactions, hdetails]
  rfl

theorem outcome_currency (p : Purchase)
    (hdetails : p.details = .erc20 currency balance recorded decimals) :
    (p.transactions .setPriceErc20).outcome replies =
      (p.allowanceIn replies currency).map (p.currencySteps currency) := by
  rw [p.transactions_currency hdetails]
  cases hallowance : p.allowanceIn replies currency with
  | ok allowance =>
      exact (Program.ComesTo.call_bind (c := .allowance p.chain currency p.account p.minter.address)
        (f := fun a => pure (p.currencySteps currency a)) hallowance
        (Program.comesTo_pure _)).outcome_eq
  | error fault => exact (Program.ComesTo.call_bind_error hallowance).outcome_eq

theorem currencySteps_say (p : Purchase)
    (hdetails : p.details = .erc20 currency balance recorded decimals) {allowance : Amount}
    (hallowance : p.allowanceIn replies currency = .ok allowance) :
    ∃ ms, p.Means replies .setPriceErc20 ms ∧
      List.Forall₂ (fun tx m => tx.Says p.account m) (p.currencySteps currency allowance) ms := by
  rw [currencySteps]
  split
  · next hshort =>
    exact ⟨_, .uncovered hdetails hallowance hshort,
      .cons (p.approval_says currency) (.cons (p.currencyTransaction_says currency) .nil)⟩
  · next hcovered =>
    exact ⟨_, .covered hdetails hallowance hcovered,
      .cons (p.currencyTransaction_says currency) .nil⟩

/-! ## All kinds -/

/-- However a minter sells, what a purchase sends it says what the purchase is about: each
transaction can be read, and is one of those that the purchase needs, in order. There are none only
if something is lacking. -/
theorem transactions_mean (p : Purchase) (kind : MinterKind) (replies : Replies)
    (hfits : p.ProofFits) :
    (∃ txs ms, (p.transactions kind).outcome replies = .ok txs ∧ p.Means replies kind ms ∧
      List.Forall₂ (fun tx m => tx.Says p.account m) txs ms) ∨
    ∃ fault, (p.transactions kind).outcome replies = .error fault ∧
      p.Lacks replies kind fault := by
  cases kind with
  | merkle =>
      cases htx : p.allowlistTransaction with
      | ok tx =>
          obtain ⟨m, hmeans, hsays⟩ := p.allowlistTransaction_says hfits htx
          refine .inl ⟨[tx], [m], ?_, hmeans, .cons hsays .nil⟩
          rw [transactions, htx]
          rfl
      | error fault =>
          refine .inr ⟨fault, ?_, .details (p.not_isServed_of_error htx) fault⟩
          rw [transactions, htx]
          rfl
  | holder =>
      cases htoken : p.holderToken with
      | ok token =>
          obtain ⟨m, hmeans, hsays⟩ := p.holderTransaction_says htoken
          refine .inl ⟨[p.holderTransaction token], [m], ?_, hmeans, .cons hsays .nil⟩
          rw [transactions, htoken]
          rfl
      | error fault =>
          refine .inr ⟨fault, ?_, .token htoken⟩
          rw [transactions, htoken]
          rfl
  | setPriceErc20 =>
      cases hdetails : p.details with
      | erc20 currency balance recorded decimals =>
          rw [p.outcome_currency hdetails]
          cases hallowance : p.allowanceIn replies currency with
          | ok allowance =>
              obtain ⟨ms, hmeans, hsay⟩ := p.currencySteps_say hdetails hallowance
              exact .inl ⟨_, ms, rfl, hmeans, hsay⟩
          | error fault => exact .inr ⟨fault, rfl, .allowance hdetails hallowance⟩
      | «open» | allowlisted | holder =>
          refine .inr ⟨.missing .tokenDetails, ?_, .details ?_ _⟩
          · rw [transactions, currencyTransactions, hdetails]
            rfl
          · rw [hdetails]
            exact id
  | setPrice | daExp | daLin | daExpSettlement => exact .inl (p.openTransaction_says trivial)

/-- A purchase for someone else with a proof of two hashes. -/
def Sample.listed : Purchase where
  project := Applicant.Sample.project
  minter := Applicant.Sample.minter
  account := Applicant.Sample.first
  purchaseTo := Applicant.Sample.second
  price := .ofUInt64 100
  details := .allowlisted [.replicate 32 1, .replicate 32 2] (some 1)
  selectedToken := none
  chain := ⟨"chain"⟩

/-- The proof can be read in the transaction, and who gets the token. -/
theorem transactions_mean_listed :
    Sample.listed.ProofFits ∧
      ∃ tx, (Sample.listed.transactions .merkle).outcome (fun _ => .error .transport) = .ok [tx] ∧
        tx.Says Applicant.Sample.first ⟨.replicate 20 0xbb, .ofUInt64 100,
          "purchaseTo(address,uint256,address,bytes32[])",
          [.address Applicant.Sample.second, .uint (.ofUInt64 1), .address (.replicate 20 0xaa),
            .hashes [.replicate 32 1, .replicate 32 2]]⟩ := by
  have hfits : Sample.listed.ProofFits := by
    rintro proof remaining hdetails
    obtain ⟨rfl, -⟩ := EligibilityDetails.allowlisted.inj hdetails
    decide
  refine ⟨hfits, ?_⟩
  rcases transactions_mean Sample.listed .merkle (fun _ => .error .transport) hfits with
    ⟨txs, ms, houtcome, hmeans, hsays⟩ | ⟨fault, houtcome, -⟩
  · cases hmeans with
    | own hkind | gift hkind => cases hkind
    | listed hdetails =>
        obtain ⟨rfl, -⟩ := EligibilityDetails.allowlisted.inj hdetails
        obtain ⟨tx, rest, htx, hrest, rfl⟩ := List.forall₂_cons_right_iff.mp hsays
        obtain rfl := List.forall₂_nil_right_iff.mp hrest
        exact ⟨tx, houtcome, htx⟩
  · cases houtcome

end Purchase

end MintSale
