import MintSale.Host
import MintSale.Rehearsal.World
import MintSale.Sale.Floor

/-!
# Rehearsals of a sale

A sale among scripted collaborators, with a clock of its own. Whoever is woken waits in a queue, and
the first in it takes a turn. Whose turn ends before everything is done rests until the queue is
empty, and nothing wakes a resting worker. Time passes only when nobody waits or rests.
-/

namespace MintSale.Rehearsal

open Sale

/-- A sale in rehearsal. -/
structure Stage where
  floor : Floor World
  queue : List Task
  /-- Those whose turn was too short, the last one first. -/
  resting : List Task
  /-- Whether a message wakes the director: none has come since it last found nothing to do. -/
  awaitsMessage : Bool
  /-- The wall clock, which stands still. -/
  now : Timestamp
  ledger : Ledger
  /-- The project whose purchases are listed. -/
  projectId : Option String

namespace Stage

/-- A sale that starts. Only the director is in the queue. -/
def initial (start : Start) (interval : Nat) (isTracked : Bool) (world : World)
    (now : Timestamp) : Stage where
  floor := .initial start interval isTracked world
  queue := [.director]
  resting := []
  awaitsMessage := false
  now := now
  ledger := .empty
  projectId := start.projectId

/-! ## The queue -/

/-- Puts somebody at the end of the queue who is not in it. -/
def wake (s : Stage) (task : Task) : Stage :=
  if task ∈ s.queue then s else { s with queue := s.queue ++ [task] }

/-- Wakes several, in order. -/
def wakeAll (s : Stage) (tasks : List Task) : Stage :=
  tasks.foldl wake s

/-- Lets somebody rest. -/
def rest (s : Stage) (task : Task) : Stage :=
  { s with resting := task :: s.resting }

/-- Wakes those who rest. -/
def wakeResting (s : Stage) : Stage :=
  { s with resting := [] }.wakeAll s.resting

/-- Whom an order concerns. -/
def addressee? : Order → Option Task
  | .openFeed slot => some (.feed slot.generation)
  | .closeFeed generation => some (.feed generation)
  | .openCheckout slot => some (.checkout slot.generation)
  | .closeCheckout generation => some (.checkout generation)
  | .command generation _ => some (.checkout generation)
  | .track _ => none

/-- Whoever waits for a ticket. -/
def holder? (s : Stage) (ticket : Ticket) : Option Task :=
  let isDirector := s.floor.metadata.any fun job => job.tickets.contains ticket
  let feed := s.floor.feeds.find? fun feed => feed.tickets.contains ticket
  let checkout := s.floor.checkouts.find? fun checkout => checkout.tickets.contains ticket
  (if isDirector then some .director else none)
    <|> feed.map (fun feed => Task.feed feed.line.generation)
    <|> checkout.map (fun checkout => Task.checkout checkout.line.generation)

/-! ## Turns -/

/-- The director takes one thing in, and those who do not rest hear its orders. -/
def takeIn (s : Stage) : Intake × Stage :=
  let (intake, orders, floor) := s.floor.directorTurn environment s.now
  let tasks := (orders.filterMap addressee?).filter fun task => task ∉ s.resting
  (intake, { s with floor := floor }.wakeAll tasks)

/-- The director takes in what was sent until nothing is left, or `n` things; then it rests. -/
def takeSent : (n : Nat) → Stage → Stage
  | 0, s => s.rest .director
  | n + 1, s =>
    match s.takeIn with
    | (.nothing, s) => { s with awaitsMessage := true }
    | (_, s) => takeSent n s

/-- The director's turn. The project does not count as sent. -/
def direct (s : Stage) : Stage :=
  match s.takeIn with
  | (.nothing, s) => { s with awaitsMessage := true }
  | (.project, s) => s.takeSent turnLimit
  | (.sent, s) => s.takeSent (turnLimit - 1)

/-- A worker's turn. Its messages wake the director if it awaits one. -/
def work (s : Stage) (floor : Floor World) : Stage :=
  let hasMessages := decide (s.floor.messages.length < floor.messages.length)
  let s := { s with floor := floor }
  if hasMessages && s.awaitsMessage then { s with awaitsMessage := false }.wake .director else s

/-- A turn of somebody. -/
def turn (s : Stage) : Task → Stage
  | .director => s.direct
  | .feed generation => s.work (s.floor.feedTurn environment generation)
  | .checkout generation =>
    let isOverrun := (s.floor.checkout? generation).any Checkout.overruns
    let s := s.work (s.floor.checkoutTurn environment generation)
    if isOverrun then s.rest (.checkout generation) else s

/-- Turns until the queue is empty and nobody rests, at most `n`. -/
def runWithin : (n : Nat) → Stage → Stage
  | 0, s => s
  | n + 1, s =>
    match s.queue, s.resting with
    | [], [] => s
    | [], _ => runWithin n s.wakeResting
    | task :: queue, _ => runWithin n ({ s with queue := queue }.turn task)

/-- More turns than a rehearsal ever takes between two moments. -/
def runLimit : Nat := 1000000

/-- Turns until nobody has anything to do. -/
def run (s : Stage) : Stage :=
  s.runWithin runLimit

/-! ## Time -/

/-- The next time at which a feed goes on by itself. -/
def nextDue? (s : Stage) : Option Nat :=
  (s.floor.feeds.filterMap LiveFeed.due?).min?

/-- Wakes the feeds that are due. -/
def wakeDue (s : Stage) : Stage :=
  let due := s.floor.feeds.filter fun feed => feed.due?.any (· ≤ s.floor.clock)
  s.wakeAll (due.map fun feed => .feed feed.line.generation)

/-- Sets the clock. -/
def setClock (s : Stage) (time : Nat) : Stage :=
  { s with floor := s.floor.wait (time - s.floor.clock) }

/-- Lets time pass until a moment, or until `isOver`, in at most `n` leaps. -/
def passWithin (isOver : Stage → Bool) (target : Nat) : (n : Nat) → Stage → Stage
  | 0, s => s
  | n + 1, s =>
    if isOver s then s
    else match s.nextDue? with
      | some due =>
        if due ≤ target then passWithin isOver target n ((s.setClock due).wakeDue.run)
        else s.setClock target
      | none => s.setClock target

/-- Lets time pass. Feeds rest at least a millisecond, so there is at most a leap a millisecond. -/
def pass (s : Stage) (isOver : Stage → Bool) (milliseconds : Nat) : Stage :=
  passWithin isOver (s.floor.clock + milliseconds) (milliseconds + 2) s

/-! ## What the host does -/

/-- Sends events back to back. The result also tells which of them the sale takes. -/
def send (s : Stage) (events : List Event) : List Bool × Stage :=
  let sent := events.map fun _ => s.floor.isOpen
  let s := { s with floor := events.foldl Floor.post s.floor }
  (sent, if s.floor.isOpen && !events.isEmpty then s.wake .director else s)

/-- Changes the scripts. -/
def change (s : Stage) (event : World → World) : Stage :=
  { s with floor := s.floor.change event }

/-- Gives `n` permits for calls that are held. -/
def release (s : Stage) (name : String) (n : Nat) : Stage :=
  let (tickets, world) := s.floor.world.release name n
  { s with floor := s.floor.change fun _ => world }.wakeAll (tickets.filterMap s.holder?)

/-- Shuts the sale down. -/
def shutDown (s : Stage) : Stage :=
  let feeds := s.floor.feeds.map fun feed => Task.feed feed.line.generation
  let checkouts := s.floor.checkouts.map fun checkout => Task.checkout checkout.line.generation
  { s with floor := s.floor.shutDown }.wakeAll (Task.director :: feeds ++ checkouts)

/-- Waits for a phase, at most some time; a sale that is over is not waited for. The host looks only
when nobody has anything to do. The result also tells in which phase the waiting ended, unless time
ran out. -/
def await (s : Stage) (phase : Phase) (milliseconds : Nat) : Option Phase × Stage :=
  let isOver (s : Stage) : Bool := s.floor.published.phase = phase || !s.floor.isOpen
  let s := s.pass isOver milliseconds
  (if isOver s then some s.floor.published.phase else none, s)

/-- What requests are answered from. -/
def view (s : Stage) : Host.View where
  snapshot := s.floor.published
  isOpen := s.floor.isOpen
  purchases := s.ledger.purchases s.projectId

/-- Answers a request. -/
def request (s : Stage) (r : Host.Request) : Host.Response × Stage :=
  let (response, event) := Host.respond s.view r
  (response, (s.send event.toList).2)

/-! ## What the host sees -/

/-- What happened since the last look. -/
structure Look where
  /-- The snapshot, if it has changed. -/
  snapshot : Option Snapshot
  asked : List Call
  tracked : List Notice

/-- What has happened since another stage. -/
def lookSince (before after : Stage) : Look where
  snapshot :=
    if after.floor.published = before.floor.published then none else some after.floor.published
  asked := after.floor.asked.drop before.floor.asked.length
  tracked := after.floor.tracked.drop before.floor.tracked.length

end Stage

end MintSale.Rehearsal
