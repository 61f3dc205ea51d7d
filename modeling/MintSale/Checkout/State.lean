import MintSale.Amount
import MintSale.Octets

/-!
# Purchases

What a wallet's check for a sale finds, what a purchase is asked for with, and what it comes to.
-/

namespace MintSale

/-! ## Tokens -/

/-- A token that somebody owns. -/
structure OwnedToken where
  contract : Address
  tokenId : Amount
  owner : Address
  projectId : String
  deriving DecidableEq

/-- A token that lets its holder mint, and the vault that holds it unless the wallet itself does. -/
structure HolderToken where
  contract : Address
  tokenId : Amount
  vault : Option Address
  deriving DecidableEq

/-! ## Eligibility -/

/-- What was found out about an eligible wallet, as far as its purchases need it. -/
inductive EligibilityDetails where
  | open
  | allowlisted (proof : List Hash) (mintsRemaining : Option UInt64)
  | holder (tokens : List HolderToken)
  | erc20 (currency : Address) (balance allowance : Amount) (decimals : UInt8)
  deriving DecidableEq

/-- Whether a wallet may buy, or why not. -/
inductive Eligibility where
  | eligible (details : EligibilityDetails)
  | ineligible (reason : String)
  deriving DecidableEq

/-! ## Requests and transactions -/

/-- More that a purchase may be asked for with: the token that lets the wallet mint. -/
structure AdditionalPurchaseData where
  holderToken : Option HolderToken
  deriving DecidableEq

/-- A purchase that is asked for. Without a destination it goes to the wallet's account. -/
structure PurchaseRequest where
  purchaseTo : Option Address
  additional : Option AdditionalPurchaseData
  deriving DecidableEq

/-- A transaction for a wallet to sign and send. -/
structure Transaction where
  sender : Address
  recipient : Address
  data : List UInt8
  value : Amount
  deriving DecidableEq

/-- What became of a transaction. -/
structure Receipt where
  txHash : Hash
  blockNumber : UInt64
  success : Bool
  deriving DecidableEq

/-! ## The state of a checkout -/

/-- How far a checkout is. -/
inductive PurchasePhase where
  | checkingEligibility
  | readyForPurchase
  | initiatingPurchase
  | userIneligible
  | error
  deriving DecidableEq

/-- All that can be seen of a checkout. -/
structure PurchaseState where
  phase : PurchasePhase
  eligibility : Option EligibilityDetails
  ineligibleReason : Option String
  errorMessage : Option String
  purchaseTo : Option Address
  additional : Option AdditionalPurchaseData
  lastTxHash : Option Hash
  deriving DecidableEq

namespace PurchaseState

/-- The state of a checkout that has just begun. -/
def initial : PurchaseState :=
  ⟨.checkingEligibility, none, none, none, none, none, none⟩

/-- The state in which a requested purchase begins. -/
def begin (state : PurchaseState) (account : Address) (request : PurchaseRequest) :
    PurchaseState :=
  { state with
    purchaseTo := some (request.purchaseTo.getD account)
    additional := request.additional
    errorMessage := none
    phase := .initiatingPurchase }

/-- The state after a purchase has been sent. -/
def bought (state : PurchaseState) (txHash : Hash) : PurchaseState :=
  { state with
    purchaseTo := none
    additional := none
    errorMessage := none
    lastTxHash := some txHash
    phase := .readyForPurchase }

/-- The state after a failure. -/
def broken (state : PurchaseState) (message : String) : PurchaseState :=
  { state with errorMessage := some message, phase := .error }

end PurchaseState

end MintSale
