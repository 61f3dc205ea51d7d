import MintSale.Amount
import MintSale.Octets

/-!
# What can go wrong

One type for every failure of a sale, each with the sentence that a host sees.
-/

namespace MintSale

/-- A piece of data that a purchase cannot do without. -/
inductive Requirement where
  | walletAccount
  | eligibilityDetails
  | allowlistProof
  | holderToken
  | tokenDetails
  | currencyAddress
  | transaction
  deriving DecidableEq

/-- How the data is named to a host. -/
def Requirement.name : Requirement → String
  | .walletAccount => "wallet account"
  | .eligibilityDetails => "eligibility details"
  | .allowlistProof => "allowlist proof"
  | .holderToken => "holder token"
  | .tokenDetails => "ERC-20 eligibility details"
  | .currencyAddress => "ERC-20 currency address"
  | .transaction => "purchase transaction"

/-- Why call data could not be read. -/
inductive AbiFault where
  /-- Fewer bytes than the words that were expected. -/
  | tooShort (words bytes : Nat)
  | over128Bits
  | over64Bits (value : Nat)
  | notFlag (value : Nat)
  | badDecimals (value : Nat)
  /-- A reason given by a collaborator. -/
  | reported (reason : String)
  deriving DecidableEq

/-- The reason in words. -/
def AbiFault.reason : AbiFault → String
  | .tooShort words bytes => s!"expected at least {words} words, got {bytes} bytes"
  | .over128Bits => "uint256 value does not fit in 128 bits"
  | .over64Bits value => s!"{value} does not fit in 64 bits"
  | .notFlag value => s!"invalid bool word {value}"
  | .badDecimals value => s!"invalid decimals {value}"
  | .reported reason => reason

/-- Why the catalogue of projects gave no usable answer. -/
inductive CatalogFault where
  | badProjectIndex (text : String)
  | badTokenId (text : String)
  | noData
  /-- The reasons that the catalogue gave. -/
  | reported (reason : String)
  deriving DecidableEq

/-- The reason in words. -/
def CatalogFault.reason : CatalogFault → String
  | .badProjectIndex text => s!"invalid project index {text}"
  | .badTokenId text => s!"invalid token id {text}"
  | .noData => "response carried no data"
  | .reported reason => reason

/-- A failure of a sale or of one of its collaborators. -/
inductive Fault where
  | noProjectId
  | projectNotFound (id : String)
  | noMinter
  /-- The owner of the wallet declined to sign. -/
  | userRejected
  /-- The chain node answered with an error. -/
  | node (code : Int) (message : String)
  | catalog (cause : CatalogFault)
  | abi (cause : AbiFault)
  | badHex (text : String)
  | liveDataUnavailable
  | allowlistRootMismatch
  | tokenNotEligible (contract : Address) (tokenId : Amount)
  | missing (what : Requirement)
  | storage
  /-- The tables of a ledger could not be set up. -/
  | migration
  | transport
  | json
  | settings (reason : String)
  deriving DecidableEq

/-- The sentence that a host sees. -/
def Fault.message : Fault → String
  | .noProjectId => "No project id was provided"
  | .projectNotFound id => s!"Project {id} was not found"
  | .noMinter => "Project has no minter configured"
  | .userRejected => "User rejected the request"
  | .node code message => s!"RPC error {code}: {message}"
  | .catalog cause => s!"GraphQL error: {cause.reason}"
  | .abi cause => s!"ABI error: {cause.reason}"
  | .badHex text => s!"Invalid hex value: {text}"
  | .liveDataUnavailable => "Live sale data is not available yet"
  | .allowlistRootMismatch => "Allowlist does not match the configured merkle root"
  | .tokenNotEligible contract tokenId =>
    s!"Token {contract.toText} #{tokenId.toText} does not make this wallet eligible"
  | .missing what => s!"Missing purchase data: {what.name}"
  | .storage => "Database error"
  | .migration => "Migration error"
  | .transport => "HTTP error"
  | .json => "JSON error"
  | .settings reason => s!"Configuration error: {reason}"

/-- Reads a fixed-length byte string, or names the text that is none. -/
def Octets.parse {n : Nat} (text : String) : Except Fault (Octets n) :=
  match Octets.ofText? text with
  | some x => .ok x
  | none => .error (.badHex text)

end MintSale
