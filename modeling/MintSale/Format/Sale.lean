import MintSale.Format.Checkout
import MintSale.Format.Project
import MintSale.Sale.Context

/-!
# Written forms of sales

A client is written as `null` while it is connected, and its key is left out while it is not.
-/

namespace MintSale

/-- Kinds of minters as names. -/
def MinterKind.codec : Codec MinterKind :=
  .name
    [(.setPrice, "setPrice"),
     (.setPriceErc20, "setPriceErc20"),
     (.daExp, "daExp"),
     (.daLin, "daLin"),
     (.daExpSettlement, "daExpSettlement"),
     (.merkle, "merkle"),
     (.holder, "holder")]

namespace Sale

/-- Phases as names. -/
def Phase.codec : Codec Phase :=
  .name (Phase.all.map fun phase => (phase, phase.name))

/-- Contexts as records. -/
def ContextView.codec : Codec ContextView :=
  Fields.codec
    (.cons (.optional "projectId" .string) <|
      .cons (.presence "chainReadClient") <|
      .cons (.presence "walletClient") <|
      .cons (.optional "project" Project.codec) <|
      .cons (.optional "liveSaleData" LiveSaleData.codec) <|
      .cons (.optional "errorMessage" .string) <|
      .cons (.optional "projectIneligibleReason" .string) .nil)
    (fun c => (c.projectId, c.hasChain, c.hasWallet, c.project, c.live, c.error,
      c.ineligibleReason, ()))
    (fun (projectId, hasChain, hasWallet, project, live, error, ineligibleReason, ()) =>
      ⟨projectId, hasChain, hasWallet, project, live, error, ineligibleReason⟩)

/-- Snapshots as records. -/
def Snapshot.codec : Codec Snapshot :=
  Fields.codec
    (.cons (.required "phase" Phase.codec) <|
      .cons (.required "context" ContextView.codec) <|
      .cons (.optional "purchase" PurchaseState.codec) .nil)
    (fun s => (s.phase, s.context, s.purchase, ()))
    (fun (phase, context, purchase, ()) => ⟨phase, context, purchase⟩)

end Sale

end MintSale
