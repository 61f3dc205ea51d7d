import MintSale.Amount
import MintSale.Project

/-!
# Live sale data

What the chain says about a running sale, and when a wallet may buy in it.
-/

namespace MintSale

/-- What the minter contract says about the price. -/
structure PriceInfo where
  isConfigured : Bool
  price : Amount
  deriving DecidableEq

/-- What the core contract says about a project. -/
structure ProjectState where
  invocations : UInt64
  maxInvocations : UInt64
  active : Bool
  paused : Bool
  completedAt : Option UInt64
  deriving DecidableEq

/-- Both answers of one round of reading. -/
structure LiveSaleData where
  isConfigured : Bool
  price : Amount
  invocations : UInt64
  maxInvocations : UInt64
  active : Bool
  paused : Bool
  completedAt : Option UInt64
  deriving DecidableEq

/-- Joins the two answers. -/
def LiveSaleData.ofReads (price : PriceInfo) (state : ProjectState) : LiveSaleData where
  isConfigured := price.isConfigured
  price := price.price
  invocations := state.invocations
  maxInvocations := state.maxInvocations
  active := state.active
  paused := state.paused
  completedAt := state.completedAt

end MintSale
