import MintSale.ReceiptWatch

/-!
# The desk of a receipt watch

A watch at work: the ledger in front of it, notices on their way to it, and what it has been told.
The desk changes by acts. When the watch could do several things nothing says which it does first;
every list of acts is a run.
-/

namespace MintSale

/-- The desk of a receipt watch. -/
structure WatchDesk where
  ledger : Ledger
  /-- The watch on duty, until it leaves. -/
  watch : Option ReceiptWatch
  /-- Notices that it has not taken yet. -/
  inbox : List Notice
  /-- Whether it has been told to stop. -/
  isCancelled : Bool
  /-- Whether no more notices can come. -/
  isClosed : Bool
  deriving DecidableEq

namespace WatchDesk

/-- A desk with nobody at it. -/
def vacant (ledger : Ledger) : WatchDesk :=
  ⟨ledger, none, [], false, false⟩

/-- A watch comes to a vacant desk and goes on with what the ledger has open. -/
def start (d : WatchDesk) : WatchDesk :=
  match d.watch with
  | none => { vacant d.ledger with watch := some (.resume d.ledger) }
  | some _ => d

/-- Somebody sends a notice. It counts only while there is a watch to take it. -/
def post (d : WatchDesk) (notice : Notice) : WatchDesk :=
  if d.watch.isSome && !d.isClosed then { d with inbox := d.inbox ++ [notice] } else d

/-- The watch takes the first notice. -/
def take (d : WatchDesk) (now : Timestamp) : WatchDesk :=
  match d.watch, d.inbox with
  | some watch, notice :: inbox =>
    let (watch, ledger) := watch.record now notice d.ledger
    { d with watch := some watch, ledger := ledger, inbox := inbox }
  | _, _ => d

/-- The watch asks for the receipts of all that it follows. -/
def round (d : WatchDesk) (lookup : Hash → ReceiptWatch.Answer) : WatchDesk :=
  match d.watch with
  | some watch =>
    let (watch, ledger) := watch.round lookup d.ledger
    { d with watch := some watch, ledger := ledger }
  | none => d

/-- Whether the watch may leave: it has been told to, or nothing more will come. -/
def mayLeave (d : WatchDesk) : Bool :=
  d.isCancelled || (d.isClosed && d.inbox.isEmpty)

/-- The watch leaves, if it may. Notices that it has not taken are lost. -/
def leave (d : WatchDesk) : WatchDesk :=
  if d.mayLeave then { d with watch := none, inbox := [] } else d

/-! ## Runs -/

/-- One act at a desk. -/
inductive Act where
  | start
  | post (notice : Notice)
  | take (now : Timestamp)
  | round (lookup : Hash → ReceiptWatch.Answer)
  /-- The watch is told to stop. -/
  | cancel
  /-- No more notices will come. -/
  | close
  | leave

/-- The desk after an act. -/
def act (d : WatchDesk) : Act → WatchDesk
  | .start => d.start
  | .post notice => d.post notice
  | .take now => d.take now
  | .round lookup => d.round lookup
  | .cancel => { d with isCancelled := true }
  | .close => { d with isClosed := true }
  | .leave => d.leave

/-- The desk after a list of acts. -/
def run (d : WatchDesk) (acts : List Act) : WatchDesk :=
  acts.foldl act d

end WatchDesk

end MintSale
