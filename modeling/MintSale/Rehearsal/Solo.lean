import MintSale.Checkout.Machine
import MintSale.LiveFeed
import MintSale.Rehearsal.World

/-!
# Rehearsals of single workers

A feed or a checkout among scripted collaborators, with nobody but the host at the other end of its
line.
-/

namespace MintSale.Rehearsal

/-! ## A feed -/

/-- A feed in rehearsal. -/
structure FeedStage where
  feed : LiveFeed
  /-- Milliseconds since the start. -/
  clock : Nat
  world : World
  /-- All messages that have arrived. -/
  messages : List Message
  /-- All calls to collaborators. -/
  asked : List Call

namespace FeedStage

/-- A feed that starts. -/
def initial (setup : LiveFeed.Setup) (generation interval : Nat) (world : World) : FeedStage :=
  ⟨.fresh setup generation interval, 0, world, [], []⟩

/-- The feed's turn. -/
def turn (s : FeedStage) : FeedStage :=
  let (feed, messages, asked, world) := s.feed.turn environment s.clock s.world
  { s with
    feed := feed
    world := world
    messages := s.messages ++ messages
    asked := s.asked ++ asked }

/-- Lets time pass until a moment, in at most `n` leaps. -/
def passWithin (target : Nat) : (n : Nat) → FeedStage → FeedStage
  | 0, s => s
  | n + 1, s =>
    match s.feed.due? with
    | some due =>
      if due ≤ target then passWithin target n ({ s with clock := max s.clock due }.turn)
      else { s with clock := target }
    | none => { s with clock := target }

/-- Lets time pass. -/
def pass (s : FeedStage) (milliseconds : Nat) : FeedStage :=
  passWithin (s.clock + milliseconds) (milliseconds + 2) s

/-- Stops the feed. -/
def stop (s : FeedStage) : FeedStage :=
  { s with feed := s.feed.stop }

/-- Leaves the other end of the line. -/
def hangUp (s : FeedStage) : FeedStage :=
  { s with feed := { s.feed with line := { s.feed.line with isHeard := false } } }

end FeedStage

/-! ## A checkout -/

/-- A checkout in rehearsal. -/
structure CheckoutStage where
  checkout : Checkout
  /-- The live data on the board. -/
  live : Option LiveSaleData
  world : World
  /-- All messages that have arrived. -/
  messages : List Message
  /-- All calls to collaborators. -/
  asked : List Call

namespace CheckoutStage

/-- A checkout that starts. -/
def initial (setup : Checkout.Setup) (generation : Nat) (live : Option LiveSaleData)
    (world : World) : CheckoutStage :=
  ⟨.fresh setup generation, live, world, [], []⟩

/-- A turn of the checkout. -/
def turn (s : CheckoutStage) : CheckoutStage :=
  let (checkout, messages, asked, world) :=
    s.checkout.turn environment (s.live.map (·.price)) s.world
  { s with
    checkout := checkout
    world := world
    messages := s.messages ++ messages
    asked := s.asked ++ asked }

/-- Turns, at most `n`, until one is not overrun by commands. -/
def runWithin : (n : Nat) → CheckoutStage → CheckoutStage
  | 0, s => s
  | n + 1, s => if s.checkout.overruns then runWithin n s.turn else s.turn

/-- Turns until nothing is left. A turn that is overrun takes at least one command. -/
def run (s : CheckoutStage) : CheckoutStage :=
  s.runWithin (s.checkout.commands.length + 1)

/-- Sends commands back to back. The result also tells which of them can arrive. -/
def send (s : CheckoutStage) (commands : List Command) : List Bool × CheckoutStage :=
  let isOpen := !s.checkout.isClosed && !s.checkout.hasEnded
  let sent := commands.map fun _ => isOpen
  if isOpen then
    (sent, { s with
      checkout := { s.checkout with commands := s.checkout.commands ++ commands } })
  else (sent, s)

/-- Stops the checkout. -/
def stop (s : CheckoutStage) : CheckoutStage :=
  { s with checkout := s.checkout.stop }

/-- Says that no more commands will come. -/
def close (s : CheckoutStage) : CheckoutStage :=
  { s with checkout := { s.checkout with isClosed := true } }

end CheckoutStage

end MintSale.Rehearsal
