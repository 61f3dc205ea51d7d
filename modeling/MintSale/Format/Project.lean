import MintSale.Format.Scalars
import MintSale.LiveSale

/-!
# Written forms of projects and live sale data
-/

namespace MintSale

/-- Currencies as records. -/
def Currency.codec : Codec Currency :=
  Fields.codec
    (.cons (.required "symbol" .string) <| .cons (.optional "address" Octets.codec) .nil)
    (fun c => (c.symbol, c.contract, ()))
    (fun (symbol, contract, ()) => ⟨symbol, contract⟩)

/-- Minter configurations as records; a missing list of projects is empty. -/
def MinterConfiguration.codec : Codec MinterConfiguration :=
  Fields.codec
    (.cons (.required "address" Octets.codec) <|
      .cons (.required "minterType" .string) <|
      .cons (.withDefault "merkleRoot" Octets.codec.option none) <|
      .cons (.withDefault "allowlistedProjects" Codec.string.list []) .nil)
    (fun m => (m.address, m.minterType, m.merkleRoot, m.allowlistedProjects, ()))
    (fun (address, minterType, merkleRoot, allowlistedProjects, ()) =>
      ⟨address, minterType, merkleRoot, allowlistedProjects⟩)

/-- Projects as records; a missing currency is the chain's own. -/
def Project.codec : Codec Project :=
  Fields.codec
    (.cons (.required "id" .string) <|
      .cons (.required "projectIndex" .uint64) <|
      .cons (.required "coreContract" Octets.codec) <|
      .cons (.required "artistAddress" Octets.codec) <|
      .cons (.required "name" .string) <|
      .cons (.required "complete" .bool) <|
      .cons (.optional "auctionStartTime" Timestamp.codec) <|
      .cons (.optional "auctionEndTime" Timestamp.codec) <|
      .cons (.withDefault "currency" Currency.codec Currency.native) <|
      .cons (.optional "minter" MinterConfiguration.codec) .nil)
    (fun p => (p.id, p.index, p.core, p.artist, p.name, p.complete, p.startTime, p.endTime,
      p.currency, p.minter, ()))
    (fun (id, index, core, artist, name, complete, startTime, endTime, currency, minter, ()) =>
      ⟨id, index, core, artist, name, complete, startTime, endTime, currency, minter⟩)

/-- Live sale data as records. -/
def LiveSaleData.codec : Codec LiveSaleData :=
  Fields.codec
    (.cons (.required "isConfigured" .bool) <|
      .cons (.required "tokenPriceInWei" Amount.codec) <|
      .cons (.required "invocations" .uint64) <|
      .cons (.required "maxInvocations" .uint64) <|
      .cons (.required "active" .bool) <|
      .cons (.required "paused" .bool) <|
      .cons (.optional "completedTimestamp" .uint64) .nil)
    (fun d => (d.isConfigured, d.price, d.invocations, d.maxInvocations, d.active, d.paused,
      d.completedAt, ()))
    (fun (isConfigured, price, invocations, maxInvocations, active, paused, completedAt, ()) =>
      ⟨isConfigured, price, invocations, maxInvocations, active, paused, completedAt⟩)

end MintSale
