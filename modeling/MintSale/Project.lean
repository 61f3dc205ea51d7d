import MintSale.Octets
import MintSale.Timestamp.Basic

/-!
# Projects

What is known about a project before anybody looks at the chain.
-/

namespace MintSale

/-- The currency a project is priced in; the chain's own currency has no contract. -/
structure Currency where
  symbol : String
  contract : Option Address
  deriving DecidableEq

/-- The chain's own currency. -/
def Currency.native : Currency :=
  ⟨"ETH", none⟩

/-- The minter contract that sells a project. -/
structure MinterConfiguration where
  address : Address
  /-- The name of the minter's type, with its version. -/
  minterType : String
  merkleRoot : Option Hash
  /-- The projects whose tokens let their holders mint. -/
  allowlistedProjects : List String
  deriving DecidableEq

/-- A project and how it is sold. -/
structure Project where
  id : String
  /-- The project's number on its core contract. -/
  index : UInt64
  core : Address
  artist : Address
  name : String
  complete : Bool
  startTime : Option Timestamp
  endTime : Option Timestamp
  currency : Currency
  minter : Option MinterConfiguration
  deriving DecidableEq

end MintSale
