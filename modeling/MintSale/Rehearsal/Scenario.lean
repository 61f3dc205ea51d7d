import MintSale.Rehearsal.Script
import MintSale.Rehearsal.Solo
import MintSale.Rehearsal.Stage

/-!
# Scenarios

The steps of rehearsals: what the host, the collaborators and the clock do, how a step is written,
and what it does to a stage.
-/

namespace MintSale.Rehearsal

open Json (readText readNat readOption readList)
open Sale

/-! ## Reading -/

/-- A command to a checkout. -/
def readCommand (j : Json) : Except Json.Fault Command := do
  match ← readText (j.field "do") with
  | "purchase" => do .ok (.purchase (← Json.readAs PurchaseRequest.codec (j.field "request")))
  | "reset" => .ok .reset
  | _ => .error .mismatch

/-- An event of the host. -/
def readEvent (j : Json) : Except Json.Fault Event := do
  match ← readText (j.field "do") with
  | "chain" => do
    match ← readOption readText (j.field "id") with
    | some id => .ok (.chainAvailable ⟨id⟩)
    | none => .ok .chainUnavailable
  | "wallet" => do
    match ← readOption readText (j.field "id") with
    | some id => .ok (.walletAvailable ⟨id⟩)
    | none => .ok .walletUnavailable
  | "live" => do .ok (.liveData (← Json.readAs LiveSaleData.codec (j.field "data")))
  | "error" => do .ok (.error (← readText (j.field "message")))
  | _ => do .ok (.command (← readCommand j))

/-- A request of somebody. -/
def readRequest (j : Json) : Except Json.Fault Host.Request := do
  .ok {
    method := ← readText (j.field "method")
    target := ← readText (j.field "path")
    contentType := ← readOption readText (j.field "contentType")
    body := (← readOption readText (j.field "body")).getD "" }

/-! ## Sales -/

/-- A step of a sale. -/
inductive Step where
  | script (change : World → Except Json.Fault World)
  | pass (milliseconds : Nat)
  | release (name : String) (permits : Nat)
  | send (events : List Event)
  | await (phase : Phase) (milliseconds : Nat)
  | request (r : Host.Request)
  | shutDown

/-- What a step shows of itself. -/
inductive Outcome where
  | nothing
  | sent (taken : List Bool)
  | awaited (phase : Option Phase)
  | answered (response : Host.Response)

/-- A step in writing. -/
def Step.read (j : Json) : Except Json.Fault Step := do
  match ← World.readChange j with
  | some change => .ok (.script change)
  | none =>
    match ← readText (j.field "do") with
    | "advance" => do .ok (.pass (← readNat (j.field "ms")))
    | "release" => do .ok (.release (← readText (j.field "method")) (← readNat (j.field "n")))
    | "batch" => do .ok (.send (← readList readEvent (j.field "events")))
    | "wait" => do
      .ok (.await (← Json.readAs Phase.codec (j.field "phase")) (← readNat (j.field "ms")))
    | "http" => do .ok (.request (← readRequest j))
    | "shutdown" => .ok .shutDown
    | _ => do .ok (.send [← readEvent j])

/-- Does a step, and whatever follows from it at once. -/
def Stage.perform (s : Stage) (step : Step) : Except Json.Fault (Outcome × Stage) := do
  let (outcome, s) : Outcome × Stage ←
    match step with
    | .script change => do
      let world ← change s.floor.world
      .ok (.nothing, s.change fun _ => world)
    | .pass milliseconds => .ok (.nothing, s.pass (fun _ => false) milliseconds)
    | .release name permits => .ok (.nothing, s.release name permits)
    | .send events =>
      let (taken, s) := s.send events
      .ok (.sent taken, s)
    | .await phase milliseconds =>
      let (reached, s) := s.await phase milliseconds
      .ok (.awaited reached, s)
    | .request r =>
      let (response, s) := s.request r
      .ok (.answered response, s)
    | .shutDown => .ok (.nothing, s.shutDown)
  .ok (outcome, s.run)

/-! ## Single workers -/

/-- A step of a feed in writing, and what it does. -/
def FeedStage.perform (s : FeedStage) (j : Json) : Except Json.Fault FeedStage := do
  match ← World.readChange j with
  | some change => do
    .ok { s with world := ← change s.world }.turn
  | none =>
    match ← readText (j.field "do") with
    | "advance" => do .ok (s.pass (← readNat (j.field "ms"))).turn
    | "release" => do
      let (_, world) := s.world.release (← readText (j.field "method")) (← readNat (j.field "n"))
      .ok { s with world := world }.turn
    | "stop" => .ok s.stop.turn
    | "drop_parent" => .ok s.hangUp.turn
    | _ => .error .mismatch

/-- A step of a checkout in writing, and what it does. The result also tells which commands
arrived. -/
def CheckoutStage.perform (s : CheckoutStage) (j : Json) :
    Except Json.Fault (List Bool × CheckoutStage) := do
  let (sent, s) : List Bool × CheckoutStage ←
    match ← World.readChange j with
    | some change => do
      let world ← change s.world
      .ok ([], { s with world := world })
    | none =>
      match ← readText (j.field "do") with
      | "release" => do
        let (_, world) := s.world.release (← readText (j.field "method")) (← readNat (j.field "n"))
        .ok ([], { s with world := world })
      | "advance" => .ok ([], s)
      | "live" => do
        let live ← readOption (Json.readAs LiveSaleData.codec) (j.field "data")
        .ok ([], { s with live := live })
      | "stop" => .ok ([], s.stop)
      | "close" => .ok ([], s.close)
      | "batch" => do .ok (s.send (← readList readCommand (j.field "commands")))
      | _ => do .ok (s.send [← readCommand j])
  .ok (sent, s.run)

end MintSale.Rehearsal
