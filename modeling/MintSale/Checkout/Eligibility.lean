import MintSale.Allowlist
import MintSale.Collaborator.Program
import MintSale.Keccak

/-!
# Eligibility of a wallet

Each kind of minter has its own condition on who may buy: to be on an allowlist, to hold a certain
token, to have enough of a currency, or none.
-/

namespace MintSale

/-- A wallet that wants to buy from the minter of a project. -/
structure Applicant where
  project : Project
  minter : MinterConfiguration
  account : Address
  /-- The price of the project, when it is known. -/
  price : Option Amount
  chain : ChainClient

namespace Applicant

/-- The leaf of an address in an allowlist's tree. -/
def leaf (a : Address) : Hash :=
  Allowlist.leaf Keccak.hash a

/-- A wallet on the allowlist may buy as long as it has mints left. A configured root must be the
root of the list's tree. -/
def checkAllowlist (a : Applicant) : Program Eligibility := do
  let members : List Address ← Program.call (.allowlist a.project)
  let leaves := members.map leaf
  match a.minter.merkleRoot, Allowlist.root? Keccak.hash leaves with
  | some expected, some root =>
    if expected ≠ root then Program.fail .allowlistRootMismatch
  | _, _ => pure ()
  match Allowlist.proof? Keccak.hash leaves (leaf a.account) with
  | none =>
    return .ineligible "Connected wallet is not on the allowlist for this project"
  | some proof =>
    let remaining : Option UInt64 ← Program.call (.mintsRemaining a.chain a.project a.account)
    if remaining = some 0 then
      return .ineligible "Connected wallet has no allowlist mints remaining"
    return .eligible (.allowlisted proof remaining)

/-- The account and the vaults that have delegated to it. -/
def owners (a : Applicant) (vaults : List Address) : List Address :=
  a.account :: vaults.filter (· ≠ a.account)

/-- The tokens of the owners; those that the account itself holds come first. -/
def holderTokens (a : Applicant) (owners : List Address) (tokens : List OwnedToken) :
    List HolderToken :=
  let held := (tokens.filter fun token => token.owner ∈ owners).map fun token =>
    { contract := token.contract
      tokenId := token.tokenId
      vault := if token.owner = a.account then none else some token.owner : HolderToken }
  held.filter (fun token => token.vault.isNone) ++ held.filter (fun token => token.vault.isSome)

/-- A wallet may buy if it, or a vault that has delegated to it, holds a token of one of the
allowlisted projects. -/
def checkHolder (a : Applicant) : Program Eligibility := do
  if a.minter.allowlistedProjects.isEmpty then
    return .ineligible "No projects are allowlisted for this holder minter"
  let vaults : List Address ← Program.call (.vaults a.account)
  let owners := a.owners vaults
  let owned : List OwnedToken ← Program.call (.ownedTokens owners a.minter.allowlistedProjects)
  let tokens := a.holderTokens owners owned
  if tokens.isEmpty then
    return .ineligible "Connected wallet does not hold a token from an allowlisted project"
  return .eligible (.holder tokens)

/-- A wallet may buy if it has the price in the project's currency. -/
def checkCurrency (a : Applicant) : Program Eligibility := do
  let currency ← Program.require (.missing .currencyAddress) a.project.currency.contract
  let price ← Program.require .liveDataUnavailable a.price
  let (balance, allowance, decimals, ()) ← Program.calls
    [.balance a.chain currency a.account,
     .allowance a.chain currency a.account a.minter.address,
     .decimals a.chain currency]
  let balance : Amount := balance
  if balance < price then
    let symbol := a.project.currency.symbol
    return .ineligible s!"Insufficient {symbol} balance"
  return .eligible (.erc20 currency balance allowance decimals)

/-- Whether a wallet may buy from a minter of a kind. -/
def check (kind : MinterKind) (a : Applicant) : Program Eligibility :=
  match kind with
  | .merkle => a.checkAllowlist
  | .holder => a.checkHolder
  | .setPriceErc20 => a.checkCurrency
  | .setPrice | .daExp | .daLin | .daExpSettlement => return .eligible .open

end Applicant

end MintSale
