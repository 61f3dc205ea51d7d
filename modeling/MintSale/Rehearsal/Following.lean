import MintSale.Rehearsal.World
import MintSale.WatchDesk

/-!
# Rehearsals of a receipt watch

A watch over receipts on a scripted chain. After each step it asks for the receipts of all that it
follows.
-/

namespace MintSale.Rehearsal

/-- A receipt watch in rehearsal. -/
structure WatchStage where
  desk : WatchDesk
  chain : ChainScript
  /-- The wall clock, which stands still. -/
  now : Timestamp

/-- A step of such a rehearsal. -/
inductive WatchStep where
  | record (notice : Notice)
  | script (chain : ChainScript)
  /-- The watch is told to stop. -/
  | stop
  /-- No more notices will come. -/
  | close
  /-- The watch is told to stop and another one comes. -/
  | restart

namespace WatchStage

/-- A watch that starts on a ledger. -/
def initial (ledger : Ledger) (chain : ChainScript) (now : Timestamp) : WatchStage :=
  ⟨(WatchDesk.vacant ledger).start, chain, now⟩

/-- The receipt of a transaction, as the script has it. -/
def receipt (s : WatchStage) (txHash : Hash) : ReceiptWatch.Answer :=
  let client : ChainClient := ⟨"a"⟩
  let world : World := ⟨[(client.name, s.chain)], [], .plain, [], 0⟩
  ⟨(world.answer (.receipt client txHash)).1, s.now⟩

/-- What is done at the desk. -/
def act (s : WatchStage) (acts : List WatchDesk.Act) : WatchStage :=
  { s with desk := s.desk.run acts }

/-- Asks for all receipts. -/
def look (s : WatchStage) : WatchStage :=
  s.act [.round s.receipt]

/-- Does a step. -/
def perform (s : WatchStage) : WatchStep → WatchStage
  | .record notice => s.act [.post notice, .take s.now]
  | .script chain => { s with chain := chain }
  | .stop => s.act [.cancel, .leave]
  | .close => s.act [.close, .leave]
  | .restart => s.act [.cancel, .leave, .start]

end WatchStage

end MintSale.Rehearsal
