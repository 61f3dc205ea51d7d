import MintSale.Collaborator.Job
import MintSale.Wire.Catalog
import MintSale.Wire.Node

/-!
# Collaborators over the wire

All calls of a sale, answered by a chain node and a catalogue. The wallet is an account that the
node manages.
-/

namespace MintSale.Wire

/-- Connections to a node and to a catalogue. -/
structure Clients where
  node : Node.Session
  catalog : Peer
  apiKey : Option String
  /-- The account that the node manages. -/
  account : Option Address

namespace Clients

/-- An answer of the node. -/
def ofNode {α : Type} (ask : Node.Session → Except Fault α × Node.Session) (c : Clients) :
    Except Fault α × Clients :=
  let (answer, node) := ask c.node
  (answer, { c with node := node })

/-- An answer of the catalogue. -/
def ofCatalog {α : Type} (ask : Option String → Peer → Except Fault α × Peer) (c : Clients) :
    Except Fault α × Clients :=
  let (answer, catalog) := ask c.apiKey c.catalog
  (answer, { c with catalog := catalog })

/-- The answer to a call. -/
def answer (call : Call) (c : Clients) : Except Fault call.Answer × Clients :=
  match call with
  | .priceInfo _ project => ofNode (Node.priceInfo project) c
  | .projectState _ project => ofNode (Node.projectState project) c
  | .mintsRemaining _ project account => ofNode (Node.mintsRemaining project account) c
  | .balance _ token owner => ofNode (Node.balance token owner) c
  | .allowance _ token owner spender => ofNode (Node.allowance token owner spender) c
  | .decimals _ token => ofNode (Node.decimals token) c
  | .receipt _ txHash => ofNode (Node.receipt txHash) c
  | .send _ tx => ofNode (Node.send tx) c
  | .project id => ofCatalog (fun key => Catalog.project key id) c
  | .allowlist project => ofCatalog (fun key => Catalog.allowlist key project) c
  | .ownedTokens owners projectIds =>
    ofCatalog (fun key => Catalog.ownedTokens key owners projectIds) c
  | .vaults delegate => ofCatalog (fun key => Catalog.vaults key delegate) c

end Clients

/-- The clients as an environment: every call is answered before the next. -/
def environment : Environment Clients where
  account c _ := c.account
  ask call c :=
    let (answer, c) := c.answer call
    (.now answer, c)
  collect _ _ c := (none, c)
  abandon _ c := c

end MintSale.Wire
