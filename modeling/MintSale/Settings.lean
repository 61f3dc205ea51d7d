import MintSale.Fault
import MintSale.Text.Blank

/-!
# Settings

What a sale is run with, as named texts that may be missing. The first setting that is wrong, in
the order of the fields, is the one reported.
-/

namespace MintSale

/-- The settings of a running sale. -/
structure Settings where
  nodeUrl : String
  catalogUrl : String
  catalogKey : Option String
  projectId : Option String
  wallet : Option Address
  databaseUrl : String
  apiPort : UInt16
  /-- Seconds between two readings of live sale data. -/
  liveSeconds : UInt64
  /-- Seconds between two rounds of asking for receipts. -/
  receiptSeconds : UInt64
  deriving DecidableEq

namespace Settings

/-- The texts that settings are read from. -/
abbrev Source := String → Option String

/-- A number of seconds above zero, which blanks may surround. -/
def seconds (source : Source) (key : String) (default : UInt64) : Except Fault UInt64 := do
  let n ←
    match source key with
    | none => .ok default.toNat
    | some text =>
      match Numeral.decimal? UInt64.size (Blank.trim text.toList) with
      | some n => .ok n
      | none => .error (.settings s!"Invalid {key}")
  if n = 0 then .error (.settings s!"{key} must be greater than zero")
  else .ok (UInt64.ofNat n)

/-- Reads the settings. -/
def read (source : Source) : Except Fault Settings := do
  let catalogUrl ←
    match source "GRAPHQL_URL" with
    | some url => .ok url
    | none => .error (.settings "GRAPHQL_URL environment variable is required")
  let wallet ←
    match source "WALLET_ADDRESS" with
    | none => .ok none
    | some text =>
      match Octets.ofText? text with
      | some address => .ok (some address)
      | none => .error (.settings "Invalid WALLET_ADDRESS")
  let apiPort ←
    match Numeral.decimal? UInt16.size ((source "API_PORT").getD "3002").toList with
    | some n => .ok (UInt16.ofNat n)
    | none => .error (.settings "Invalid API_PORT")
  let liveSeconds ← seconds source "LIVE_SALE_POLL_INTERVAL_SECS" 10
  let receiptSeconds ← seconds source "RECEIPT_POLL_INTERVAL_SECS" 4
  .ok {
    nodeUrl := (source "RPC_URL").getD "http://127.0.0.1:8545"
    catalogUrl
    catalogKey := source "GRAPHQL_API_KEY"
    projectId := (source "PROJECT_ID").filter fun id => !(Blank.trim id.toList).isEmpty
    wallet
    databaseUrl := (source "DATABASE_URL").getD "sqlite:./primary_sale.db"
    apiPort
    liveSeconds
    receiptSeconds }

end Settings

end MintSale
