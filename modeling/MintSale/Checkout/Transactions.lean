import MintSale.Calldata
import MintSale.Collaborator.Program

/-!
# Transactions of a purchase

What a wallet has to send, in order, to buy from a minter of each kind.
-/

namespace MintSale

/-- A purchase with all that is known about it. -/
structure Purchase where
  project : Project
  minter : MinterConfiguration
  account : Address
  /-- Who gets the token. -/
  purchaseTo : Address
  price : Amount
  details : EligibilityDetails
  /-- The token that was chosen to let the wallet mint. -/
  selectedToken : Option HolderToken
  chain : ChainClient

namespace Purchase

/-- The project's number as an argument. -/
def indexArgument (p : Purchase) : Argument :=
  .uint (Amount.ofUInt64 p.project.index)

/-- The project's core contract as an argument. -/
def coreArgument (p : Purchase) : Argument :=
  .address p.project.core

/-- A call of the minter that pays a value. -/
def toMinter (p : Purchase) (method : Method) (args : List Argument) (value : Amount) :
    Transaction where
  sender := p.account
  recipient := p.minter.address
  data := method.call args
  value := value

/-- The purchase of a minter without conditions. -/
def openTransaction (p : Purchase) : Transaction :=
  if p.purchaseTo = p.account then
    p.toMinter .purchase [p.indexArgument, p.coreArgument] p.price
  else
    p.toMinter .purchaseTo [.address p.purchaseTo, p.indexArgument, p.coreArgument] p.price

/-- The purchase with the proof that the check has found. -/
def allowlistTransaction (p : Purchase) : Except Fault Transaction :=
  match p.details with
  | .allowlisted proof _ =>
    .ok (p.toMinter .purchaseWithProof
      [.address p.purchaseTo, p.indexArgument, p.coreArgument, .hashes proof] p.price)
  | _ => .error (.missing .allowlistProof)

/-- The token to buy with: of those that the check has found, the one that was chosen or else the
first. The vault is that of the token found, whatever was chosen. -/
def holderToken (p : Purchase) : Except Fault HolderToken :=
  match p.details with
  | .holder tokens =>
    match p.selectedToken with
    | some chosen =>
      let found := tokens.find? fun token =>
        token.contract = chosen.contract ∧ token.tokenId = chosen.tokenId
      match found with
      | some token => .ok token
      | none => .error (.tokenNotEligible chosen.contract chosen.tokenId)
    | none =>
      match tokens.head? with
      | some token => .ok token
      | none => .error (.missing .holderToken)
  | _ => .error (.missing .holderToken)

/-- The purchase with a token. -/
def holderTransaction (p : Purchase) (token : HolderToken) : Transaction :=
  let args := [.address p.purchaseTo, p.indexArgument, p.coreArgument, .address token.contract,
    .uint token.tokenId]
  match token.vault with
  | some vault => p.toMinter .purchaseForVault (args ++ [.address vault]) p.price
  | none => p.toMinter .purchaseAsHolder args p.price

/-- Lets the minter spend the price. -/
def approval (p : Purchase) (currency : Address) : Transaction where
  sender := p.account
  recipient := currency
  data := Method.approve.call [.address p.minter.address, .uint p.price]
  value := .zero

/-- The purchase in a currency, which pays nothing of the chain's own. -/
def currencyTransaction (p : Purchase) (currency : Address) : Transaction :=
  p.toMinter .purchaseInCurrency
    [.address p.purchaseTo, p.indexArgument, p.coreArgument, .uint p.price, .address currency]
    .zero

/-- An approval, if the minter may not spend the price yet, and the purchase. What the minter may
spend is asked again, for earlier purchases have used it up. -/
def currencyTransactions (p : Purchase) : Program (List Transaction) :=
  match p.details with
  | .erc20 currency _ _ _ => do
    let allowance : Amount ←
      Program.call (.allowance p.chain currency p.account p.minter.address)
    let approvals := if allowance < p.price then [p.approval currency] else []
    return approvals ++ [p.currencyTransaction currency]
  | _ => Program.fail (.missing .tokenDetails)

/-- The transactions for a minter of a kind. -/
def transactions (kind : MinterKind) (p : Purchase) : Program (List Transaction) :=
  match kind with
  | .merkle => Program.ofExcept (p.allowlistTransaction.map fun tx => [tx])
  | .holder => Program.ofExcept (p.holderToken.map fun token => [p.holderTransaction token])
  | .setPriceErc20 => p.currencyTransactions
  | .setPrice | .daExp | .daLin | .daExpSettlement => return [p.openTransaction]

end Purchase

end MintSale
