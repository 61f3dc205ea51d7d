import MintSale.Checkout.State
import MintSale.LiveSale

/-!
# Reports of workers

A sale has two workers: a feed that keeps its live data fresh, and a checkout that sells. They
report on a line to the sale, which goes dead when the worker is stopped.
-/

namespace MintSale

/-- What a worker is for. -/
inductive Role where
  | feed
  | checkout
  deriving DecidableEq

/-- What a worker has to say. -/
inductive Report where
  | liveData (data : LiveSaleData)
  | failed (message : String)
  | purchaseState (state : PurchaseState)
  | submitted (txHash : Hash) (purchaseTo : Address)
  deriving DecidableEq

/-- A report with its sender. -/
structure Message where
  role : Role
  /-- The number of the worker among all that the sale has had. -/
  generation : Nat
  report : Report
  deriving DecidableEq

/-- The line from a worker to its sale. -/
structure Line where
  role : Role
  generation : Nat
  /-- Whether the worker has been stopped. -/
  isStopped : Bool
  /-- Whether there is still a sale at the other end. -/
  isHeard : Bool
  deriving DecidableEq

namespace Line

/-- The line of a worker that starts. -/
def fresh (role : Role) (generation : Nat) : Line :=
  ⟨role, generation, false, true⟩

/-- What arrives of a report, if anything does. -/
def post (line : Line) (report : Report) : Option Message :=
  if line.isStopped || !line.isHeard then none
  else some ⟨line.role, line.generation, report⟩

end Line

end MintSale
