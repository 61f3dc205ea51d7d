import MintSale.Checkout.State
import MintSale.Fault
import MintSale.Ledger.Url
import MintSale.Timestamp.Text

/-!
# The ledger

Where purchases are recorded, each transaction once, and the last snapshot of each sale is kept.
Every attempt to record a purchase uses up a number, also one that records nothing. The time of every
change to a purchase is noted.
-/

namespace MintSale

/-- What is known about a purchase that was sent. -/
inductive PurchaseStatus where
  | submitted
  | confirmed
  | reverted
  deriving DecidableEq

/-- The name of a status. -/
def PurchaseStatus.name : PurchaseStatus → String
  | .submitted => "submitted"
  | .confirmed => "confirmed"
  | .reverted => "reverted"

/-- A recorded purchase. -/
structure PurchaseRow where
  id : Nat
  projectId : String
  txHash : String
  purchaseTo : String
  status : PurchaseStatus
  blockNumber : Option Int64
  /-- When it was recorded. -/
  createdAt : String
  /-- When it was recorded, or last marked since. -/
  updatedAt : String
  deriving DecidableEq

/-- Purchases, oldest first, and the snapshots of sales by project. -/
structure Ledger where
  rows : List PurchaseRow
  /-- The last number used up. -/
  lastId : Nat
  snapshots : List (String × String)
  deriving DecidableEq

namespace Ledger

/-- A ledger with nothing in it. -/
def empty : Ledger := ⟨[], 0, []⟩

/-- Opens the ledger under a URL. Only transient ledgers are at hand, and as a ledger sets up its
tables when it is opened, it has to be writable. -/
def open? (url : String) : Except Fault Ledger :=
  match LedgerUrl.ofText? url with
  | none => .error .storage
  | some url =>
    if !url.isTransient then .error .storage
    else if url.isReadOnly then .error .migration
    else .ok empty

/-! ## Purchases -/

/-- A time as it is noted, to the second. -/
def timeText (now : Timestamp) : String :=
  String.ofList (now.dateText ++ ' ' :: now.clockText)

/-- Records a purchase, spelled as given, unless its transaction is there already. -/
def insertText (l : Ledger) (now : Timestamp) (projectId txHash purchaseTo : String) :
    Bool × Ledger :=
  let l := { l with lastId := l.lastId + 1 }
  if l.rows.any fun row => row.txHash == txHash then (false, l)
  else
    let row : PurchaseRow := {
      id := l.lastId
      projectId := projectId
      txHash := txHash
      purchaseTo := purchaseTo
      status := .submitted
      blockNumber := none
      createdAt := timeText now
      updatedAt := timeText now }
    (true, { l with rows := l.rows ++ [row] })

/-- Records a purchase, unless its transaction is there already. -/
def insert (l : Ledger) (now : Timestamp) (projectId : String) (txHash : Hash)
    (purchaseTo : Address) : Bool × Ledger :=
  l.insertText now projectId txHash.toText purchaseTo.toText

/-- Notes what became of a purchase. Blocks are numbered with signed integers. -/
def mark (l : Ledger) (now : Timestamp) (txHash : Hash) (status : PurchaseStatus)
    (blockNumber : UInt64) : Ledger :=
  { l with rows := l.rows.map fun row =>
      if row.txHash = txHash.toText then
        { row with
          status := status
          blockNumber := some blockNumber.toInt64
          updatedAt := timeText now }
      else row }

/-- The purchases of a project, or all, newest first. -/
def purchases (l : Ledger) (projectId : Option String) : List PurchaseRow :=
  (l.rows.filter fun row => projectId.all (row.projectId == ·)).reverse

/-- The transactions of which nothing has become yet, oldest first. -/
def pending (l : Ledger) : Except Fault (List Hash) :=
  (l.rows.filter fun row => row.status = .submitted).mapM fun row => Octets.parse row.txHash

/-! ## Snapshots -/

/-- Keeps a text as the snapshot of a project's sale. -/
def save (l : Ledger) (projectId text : String) : Ledger :=
  { l with snapshots := (projectId, text) :: l.snapshots.filter fun entry => entry.1 != projectId }

/-- The text kept for a project. -/
def load (l : Ledger) (projectId : String) : Option String :=
  l.snapshots.lookup projectId

end Ledger

end MintSale
