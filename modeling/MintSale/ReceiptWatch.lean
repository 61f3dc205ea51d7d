import MintSale.Ledger
import MintSale.Sale.Director

/-!
# Following purchases

A watch records the purchases it is told of and asks for the receipts of all that it follows, round
by round, until there is one.
-/

namespace MintSale

/-- The transactions that are followed, oldest first. -/
structure ReceiptWatch where
  pending : List Hash
  deriving DecidableEq

namespace ReceiptWatch

/-- A watch over what the ledger has open. Open transactions that cannot be read are not followed,
and neither are the others then. -/
def resume (l : Ledger) : ReceiptWatch :=
  match l.pending with
  | .ok pending => ⟨pending⟩
  | .error _ => ⟨[]⟩

/-- Takes a notice: a purchase that is new is recorded and followed. -/
def record (w : ReceiptWatch) (now : Timestamp) (notice : Notice) (l : Ledger) :
    ReceiptWatch × Ledger :=
  match l.insert now notice.projectId notice.txHash notice.purchaseTo with
  | (true, l) => (⟨w.pending ++ [notice.txHash]⟩, l)
  | (false, l) => (w, l)

/-- The answer about a transaction, and the time at which it is there. -/
structure Answer where
  receipt : Except Fault (Option Receipt)
  time : Timestamp

/-- Settles one transaction, given the answer for it: whether it has to be followed further. -/
def settle (txHash : Hash) (answer : Answer) (l : Ledger) : Bool × Ledger :=
  match answer.receipt with
  | .ok (some receipt) =>
    let status := if receipt.success then PurchaseStatus.confirmed else .reverted
    (false, l.mark answer.time txHash status receipt.blockNumber)
  | .ok none => (true, l)
  | .error _ => (true, l)

/-- A round over transactions, in order. -/
def roundOver (lookup : Hash → Answer) : List Hash → Ledger → List Hash × Ledger
  | [], l => ([], l)
  | txHash :: rest, l =>
    let (further, l) := settle txHash (lookup txHash) l
    let (pending, l) := roundOver lookup rest l
    (if further then txHash :: pending else pending, l)

/-- A round over all that is followed. -/
def round (w : ReceiptWatch) (lookup : Hash → Answer) (l : Ledger) : ReceiptWatch × Ledger :=
  let (pending, l) := roundOver lookup w.pending l
  (⟨pending⟩, l)

end ReceiptWatch

end MintSale
