import MintSale.Format.Checkout
import MintSale.Format.Project
import MintSale.Json.Access
import MintSale.Sale.Director

/-!
# Journals

What happened in a rehearsal, in writing: calls to collaborators, messages of workers and notices of
purchases.
-/

namespace MintSale.Rehearsal

/-- A byte string. -/
def writeOctets {n : Nat} : Octets n → Json :=
  Octets.codec.write

/-- A transaction. -/
def writeTransaction (tx : Transaction) : Json :=
  .record
    [("from", writeOctets tx.sender),
     ("to", writeOctets tx.recipient),
     ("data", .text (String.ofList (Hex.marked tx.data))),
     ("value", Amount.codec.write tx.value)]

/-- Who is asked: a chain, a wallet or the source. -/
def addressee : Call → String
  | .priceInfo chain _ | .projectState chain _ | .mintsRemaining chain _ _ | .balance chain _ _
  | .allowance chain _ _ _ | .decimals chain _ | .receipt chain _ => "chain:" ++ chain.name
  | .send wallet _ => "wallet:" ++ wallet.name
  | .project _ | .allowlist _ | .ownedTokens _ _ | .vaults _ => "source"

/-- What is asked about. -/
def particulars : Call → List (String × Json)
  | .priceInfo _ project | .projectState _ project => [("project", .text project.id)]
  | .mintsRemaining _ project account =>
    [("project", .text project.id), ("account", writeOctets account)]
  | .balance _ token owner => [("token", writeOctets token), ("owner", writeOctets owner)]
  | .allowance _ token owner spender =>
    [("token", writeOctets token), ("owner", writeOctets owner), ("spender", writeOctets spender)]
  | .decimals _ token => [("token", writeOctets token)]
  | .receipt _ txHash => [("txHash", writeOctets txHash)]
  | .send _ tx => [("tx", writeTransaction tx)]
  | .project id => [("id", .text id)]
  | .allowlist project => [("project", .text project.id)]
  | .ownedTokens owners projectIds =>
    [("owners", .array (owners.map writeOctets)),
     ("projectIds", .array (projectIds.map .text))]
  | .vaults delegate => [("delegate", writeOctets delegate)]

/-- Calls, in order. -/
def writeCalls (calls : List Call) : Json :=
  .array (calls.map fun call =>
    .record (("on", .text (addressee call)) :: ("call", .text call.name) :: particulars call))

/-- What a worker is for. -/
def roleName : Role → String
  | .feed => "liveSaleDataPolling"
  | .checkout => "purchaseInitiation"

/-- What a report is called. -/
def reportName : Report → String
  | .liveData _ => "liveSaleDataFetched"
  | .failed _ => "externalError"
  | .purchaseState _ => "purchaseStateChanged"
  | .submitted _ _ => "purchaseSubmitted"

/-- What a report says. -/
def reportContent : Report → List (String × Json)
  | .liveData data => [("data", LiveSaleData.codec.write data)]
  | .failed message => [("message", .text message)]
  | .purchaseState state => [("snapshot", PurchaseState.codec.write state)]
  | .submitted txHash purchaseTo =>
    [("txHash", writeOctets txHash), ("purchaseTo", writeOctets purchaseTo)]

/-- Messages, in order. -/
def writeMessages (messages : List Message) : Json :=
  .array (messages.map fun m =>
    .record
      (("event", .text (reportName m.report)) :: ("slot", .text (roleName m.role)) ::
        ("generation", .nat m.generation) :: reportContent m.report))

/-- Notices, in order. -/
def writeNotices (notices : List Notice) : Json :=
  .array (notices.map fun n =>
    .record
      [("projectId", .text n.projectId),
       ("txHash", writeOctets n.txHash),
       ("purchaseTo", writeOctets n.purchaseTo)])

end MintSale.Rehearsal
