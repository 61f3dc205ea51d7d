import MintSale.Fault
import MintSale.Sale.Context

/-!
# Collaborators and programs

A sale works with others: clients that read from a chain, wallets, and a source of metadata. What is
asked of them is a call. A program is the way to a result by calls; calls that do not wait for each
other are asked as one group, and a group fails with the first of its calls that does.
-/

namespace MintSale

/-! ## Calls -/

/-- Something asked of a collaborator. -/
inductive Call where
  | priceInfo (chain : ChainClient) (project : Project)
  | projectState (chain : ChainClient) (project : Project)
  | mintsRemaining (chain : ChainClient) (project : Project) (account : Address)
  | balance (chain : ChainClient) (token owner : Address)
  | allowance (chain : ChainClient) (token owner spender : Address)
  | decimals (chain : ChainClient) (token : Address)
  | receipt (chain : ChainClient) (txHash : Hash)
  | send (wallet : WalletClient) (tx : Transaction)
  | project (id : String)
  | allowlist (project : Project)
  | ownedTokens (owners : List Address) (projectIds : List String)
  | vaults (delegate : Address)
  deriving DecidableEq

namespace Call

/-- The type of the answer to a call. -/
def Answer : Call → Type
  | .priceInfo .. => PriceInfo
  | .projectState .. => ProjectState
  | .mintsRemaining .. => Option UInt64
  | .balance .. => Amount
  | .allowance .. => Amount
  | .decimals .. => UInt8
  | .receipt .. => Option Receipt
  | .send .. => Hash
  | .project .. => Project
  | .allowlist .. => List Address
  | .ownedTokens .. => List OwnedToken
  | .vaults .. => List Address

/-- What a call asks for, by name. -/
def name : Call → String
  | .priceInfo .. => "price_info"
  | .projectState .. => "project_state"
  | .mintsRemaining .. => "merkle_mints_remaining"
  | .balance .. => "erc20_balance"
  | .allowance .. => "erc20_allowance"
  | .decimals .. => "erc20_decimals"
  | .receipt .. => "transaction_receipt"
  | .send .. => "send_transaction"
  | .project .. => "fetch_project"
  | .allowlist .. => "fetch_allowlist"
  | .ownedTokens .. => "fetch_owned_tokens"
  | .vaults .. => "fetch_delegation_vaults"

end Call

/-- The answers to a group of calls. -/
def Answers : List Call → Type
  | [] => Unit
  | call :: calls => call.Answer × Answers calls

/-! ## Programs -/

/-- A way to a result: it is there, or it depends on the answers to a group of calls. -/
inductive Program (α : Type) where
  | done (result : Except Fault α)
  | ask (calls : List Call) (next : Except Fault (Answers calls) → Program α)

namespace Program

variable {α β : Type}

/-- Goes on with the result of a program, unless it failed. -/
def bind : Program α → (α → Program β) → Program β
  | .done (.ok a), f => f a
  | .done (.error fault), _ => .done (.error fault)
  | .ask calls next, f => .ask calls fun answers => (next answers).bind f

instance : Monad Program where
  pure a := .done (.ok a)
  bind := bind

/-- The program that fails. -/
def fail (fault : Fault) : Program α :=
  .done (.error fault)

/-- The program with a result that is there. -/
def ofExcept (result : Except Fault α) : Program α :=
  .done result

/-- The value that must be there. -/
def require (fault : Fault) : Option α → Program α
  | some a => .done (.ok a)
  | none => .done (.error fault)

/-- Asks one call. -/
def call (c : Call) : Program c.Answer :=
  .ask [c] fun
    | .ok (answer, ()) => .done (.ok answer)
    | .error fault => .done (.error fault)

/-- Asks a group of calls. -/
def calls (cs : List Call) : Program (Answers cs) :=
  .ask cs .done

/-- The program whose result tells how another one ended. -/
def attempt : Program α → Program (Except Fault α)
  | .done result => .done (.ok result)
  | .ask calls next => .ask calls fun answers => (next answers).attempt

end Program

end MintSale
