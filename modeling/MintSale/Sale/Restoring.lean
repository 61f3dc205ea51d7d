import MintSale.Fault
import MintSale.Format.Sale

/-!
# Restoring a sale

A sale is stored as the text of its snapshot. Clients are not stored; the clients of the running
process take the place of those that the stored sale had.
-/

namespace MintSale.Sale

/-- What a sale starts with. -/
structure Start where
  projectId : Option String
  chain : Option ChainClient
  wallet : Option WalletClient
  /-- The project, if there is no need to ask for it. -/
  project : Option Project
  /-- What to fall back on when the project cannot be asked for. -/
  storedProject : Option Project
  deriving DecidableEq

/-- A sale that was stored, with clients attached again. -/
structure Hydrated where
  phase : Phase
  context : Context
  purchase : Option PurchaseState
  deriving DecidableEq

/-- The text of a snapshot. -/
def dehydrate (snapshot : Snapshot) : String :=
  Snapshot.codec.encode snapshot

/-- Reads a stored snapshot. A client is attached where the stored sale had one. -/
def hydrate (text : String) (chain : Option ChainClient) (wallet : Option WalletClient) :
    Except Fault Hydrated :=
  match Snapshot.codec.decode text with
  | .error _ => .error .json
  | .ok s => .ok {
      phase := s.phase
      context := {
        projectId := s.context.projectId
        chain := if s.context.hasChain then chain else none
        wallet := if s.context.hasWallet then wallet else none
        project := s.context.project
        live := s.context.live
        error := s.context.error
        ineligibleReason := s.context.ineligibleReason }
      purchase := s.purchase }

namespace Hydrated

/-- The snapshot of a hydrated sale. -/
def snapshot (h : Hydrated) : Snapshot :=
  ⟨h.phase, h.context.view, h.purchase⟩

/-- What a new sale starts with. The project is asked for again; the stored one is only for when
that fails, and is not kept of a sale that was over. -/
def toStart (h : Hydrated) : Start where
  projectId := h.context.projectId
  chain := h.context.chain
  wallet := h.context.wallet
  project := none
  storedProject := if h.phase.isTerminal then none else h.context.project

end Hydrated

/-- What a sale of a project starts with, given the stored text, if there is one. The clients are
those of the running process, whatever was stored. -/
def restore (stored : Option String) (projectId : Option String) (chain : Option ChainClient)
    (wallet : Option WalletClient) : Start :=
  let fresh : Start := ⟨projectId, chain, wallet, none, none⟩
  match projectId, stored with
  | some _, some text =>
    match hydrate text chain wallet with
    | .ok h => { fresh with storedProject := h.toStart.storedProject }
    | .error _ => fresh
  | _, _ => fresh

end MintSale.Sale
