import MintSale.Checkout.State
import MintSale.Minter

/-!
# The state of a sale

What is known about a running sale, the phases it goes through, and what a host sees of both.
-/

namespace MintSale

/-! ## Clients -/

/-- A client that reads from a chain. Two clients are the same if they have the same name. -/
structure ChainClient where
  name : String
  deriving DecidableEq

/-- A wallet that sends transactions. Two wallets are the same if they have the same name. -/
structure WalletClient where
  name : String
  deriving DecidableEq

/-- The account that each wallet exposes at the moment, if any. -/
abbrev Accounts := WalletClient → Option Address

namespace Sale

/-! ## Phases -/

/-- A phase of a sale. -/
inductive Phase where
  | fetchingProjectData
  | idle
  | readyForSale
  | complete
  | error
  | ineligible
  deriving DecidableEq

/-- The name of a phase. -/
def Phase.name : Phase → String
  | .fetchingProjectData => "fetchingProjectData"
  | .idle => "idle"
  | .readyForSale => "readyForSale"
  | .complete => "projectSaleComplete"
  | .error => "error"
  | .ineligible => "projectIneligibleForPrimarySale"

/-- All phases. -/
def Phase.all : List Phase :=
  [.fetchingProjectData, .idle, .readyForSale, .complete, .error, .ineligible]

/-- Whether a sale in this phase is over. -/
def Phase.isTerminal : Phase → Bool
  | .complete | .error | .ineligible => true
  | _ => false

/-! ## The context -/

/-- Everything known about a sale. -/
structure Context where
  projectId : Option String
  chain : Option ChainClient
  wallet : Option WalletClient
  project : Option Project
  live : Option LiveSaleData
  error : Option String
  /-- Why the project cannot be sold. -/
  ineligibleReason : Option String
  deriving DecidableEq

namespace Context

/-- The account of the connected wallet. -/
def account (accounts : Accounts) (ctx : Context) : Option Address :=
  ctx.wallet.bind accounts

/-- Whether the connected wallet may buy now. -/
def isPurchasable (accounts : Accounts) (now : Timestamp) (ctx : Context) : Bool :=
  MintSale.isPurchasable ctx.project ctx.live (ctx.account accounts) now

end Context

/-! ## What a host sees -/

/-- A context without its clients; it only tells whether they are connected. -/
structure ContextView where
  projectId : Option String
  hasChain : Bool
  hasWallet : Bool
  project : Option Project
  live : Option LiveSaleData
  error : Option String
  ineligibleReason : Option String
  deriving DecidableEq

/-- The view of a context. -/
def Context.view (ctx : Context) : ContextView where
  projectId := ctx.projectId
  hasChain := ctx.chain.isSome
  hasWallet := ctx.wallet.isSome
  project := ctx.project
  live := ctx.live
  error := ctx.error
  ineligibleReason := ctx.ineligibleReason

/-- A sale as a host sees it. -/
structure Snapshot where
  phase : Phase
  context : ContextView
  purchase : Option PurchaseState
  deriving DecidableEq

end Sale

end MintSale
