import MintSale.Sale.Director

/-!
# The floor of a sale

A director, its workers and everything on its way between them. The floor changes by acts: somebody
takes a turn, the host does something, time passes, or the world changes. Nothing here says in which
order; every list of acts is a run.
-/

namespace MintSale.Sale

/-- The floor of a sale, in a world of collaborators in state `σ`. -/
structure Floor (σ : Type) where
  director : Director
  /-- The way to the project, until it has been taken. -/
  metadata : Option (Job Project)
  /-- Whether the director still works. -/
  isOpen : Bool
  /-- Whether the sale has been told to shut down. -/
  isShutDown : Bool
  /-- Events of the host that the director has not taken yet. -/
  events : List Event
  /-- Messages of workers that the director has not taken yet. -/
  messages : List Message
  /-- All feeds that were ever opened. -/
  feeds : List LiveFeed
  /-- All checkouts that were ever opened. -/
  checkouts : List Checkout
  /-- Milliseconds between two rounds of a feed. -/
  interval : Nat
  /-- What the host sees. -/
  published : Snapshot
  /-- Milliseconds since the start. -/
  clock : Nat
  /-- Whether anybody follows the purchases. -/
  isTracked : Bool
  /-- What those have been told. -/
  tracked : List Notice
  /-- All calls to collaborators. -/
  asked : List Call
  world : σ

/-- Somebody who takes turns. -/
inductive Task where
  | director
  | feed (generation : Nat)
  | checkout (generation : Nat)
  deriving DecidableEq

/-- What a director has taken in. -/
inductive Intake where
  /-- There was nothing that it goes on after. -/
  | nothing
  | project
  /-- An event or a message. -/
  | sent
  deriving DecidableEq

namespace Floor

variable {σ : Type}

/-- The floor of a sale that starts. -/
def initial (start : Start) (interval : Nat) (isTracked : Bool) (world : σ) : Floor σ where
  director := .initial start
  metadata := some (.fresh (metadataProgram start))
  isOpen := true
  isShutDown := false
  events := []
  messages := []
  feeds := []
  checkouts := []
  interval := interval
  published := (Director.initial start).snapshot
  clock := 0
  isTracked := isTracked
  tracked := []
  asked := []
  world := world

/-! ## Workers by number -/

/-- The feed with a number. -/
def feed? (f : Floor σ) (generation : Nat) : Option LiveFeed :=
  f.feeds.find? fun feed => feed.line.generation = generation

/-- The checkout with a number. -/
def checkout? (f : Floor σ) (generation : Nat) : Option Checkout :=
  f.checkouts.find? fun checkout => checkout.line.generation = generation

/-- Changes the feed with a number. -/
def mapFeed (f : Floor σ) (generation : Nat) (change : LiveFeed → LiveFeed) : Floor σ :=
  { f with feeds := f.feeds.map fun feed =>
      if feed.line.generation = generation then change feed else feed }

/-- Changes the checkout with a number. -/
def mapCheckout (f : Floor σ) (generation : Nat) (change : Checkout → Checkout) : Floor σ :=
  { f with checkouts := f.checkouts.map fun checkout =>
      if checkout.line.generation = generation then change checkout else checkout }

/-! ## Turns of the director -/

/-- Carries an order out. -/
def carryOut (f : Floor σ) : Order → Floor σ
  | .openFeed slot =>
    { f with feeds := f.feeds ++ [.fresh slot.setup slot.generation f.interval] }
  | .closeFeed generation => f.mapFeed generation .stop
  | .openCheckout slot =>
    { f with checkouts := f.checkouts ++ [.fresh slot.setup slot.generation] }
  | .closeCheckout generation => f.mapCheckout generation .stop
  | .command generation command =>
    f.mapCheckout generation fun c => { c with commands := c.commands ++ [command] }
  | .track notice => if f.isTracked then { f with tracked := f.tracked ++ [notice] } else f

/-- Lets a director settle, carries its orders out and publishes. -/
def afterwards (env : Environment σ) (now : Timestamp) (f : Floor σ) (d : Director) :
    List Order × Floor σ :=
  let (orders, d) := (d.settle (env.account f.world) now).collect
  let f := { f with director := d, published := d.snapshot }
  (orders, orders.foldl carryOut f)

/-- Ends the sale: the director stops for good and its workers with it. -/
def close (env : Environment σ) (f : Floor σ) : List Order × Floor σ :=
  let (orders, d) := f.director.dispose.collect
  let world := (f.metadata.map fun job => job.abandon env f.world).getD f.world
  let f := { f with director := d, isOpen := false, metadata := none, world := world }
  (orders, orders.foldl carryOut f)

/-- Goes on with the way to the project. The result also tells how it ended, if it did. -/
def fetch (env : Environment σ) (f : Floor σ) : Option (Except Fault Project) × Floor σ :=
  match f.metadata with
  | none => (none, f)
  | some job =>
    let (progress, asked, world) := job.resume env f.world
    let f := { f with asked := f.asked ++ asked, world := world }
    match progress with
    | .finished result => (some result, { f with metadata := none })
    | .pending job => (none, { f with metadata := some job })

/-- The director takes one thing in: an order to shut down before the project, the project before
events, and events before messages. The result also tells what it was, and the orders. -/
def directorTurn (env : Environment σ) (now : Timestamp) (f : Floor σ) :
    Intake × List Order × Floor σ :=
  if !f.isOpen then (.nothing, [], f)
  else if f.isShutDown then (.nothing, f.close env)
  else
    let (result, f) := f.fetch env
    match result, f.events, f.messages with
    | some result, _, _ => (.project, f.afterwards env now (f.director.takeProject result))
    | none, event :: events, _ =>
      (.sent, { f with events := events }.afterwards env now (f.director.takeEvent event))
    | none, [], message :: messages =>
      (.sent, { f with messages := messages }.afterwards env now (f.director.takeMessage message))
    | none, [], [] => (.nothing, [], f)

/-! ## Turns of workers -/

/-- The price on the board. -/
def price (f : Floor σ) : Option Amount :=
  f.director.board.map (·.price)

/-- A feed's turn. -/
def feedTurn (env : Environment σ) (generation : Nat) (f : Floor σ) : Floor σ :=
  match f.feed? generation with
  | none => f
  | some feed =>
    let (feed, messages, asked, world) := feed.turn env f.clock f.world
    let f := f.mapFeed generation fun _ => feed
    { f with messages := f.messages ++ messages, asked := f.asked ++ asked, world := world }

/-- A checkout's turn. -/
def checkoutTurn (env : Environment σ) (generation : Nat) (f : Floor σ) : Floor σ :=
  match f.checkout? generation with
  | none => f
  | some checkout =>
    let (checkout, messages, asked, world) := checkout.turn env f.price f.world
    let f := f.mapCheckout generation fun _ => checkout
    { f with messages := f.messages ++ messages, asked := f.asked ++ asked, world := world }

/-! ## Acts of the host and the world -/

/-- The host sends an event. It counts only while the director works. -/
def post (f : Floor σ) (event : Event) : Floor σ :=
  if f.isOpen then { f with events := f.events ++ [event] } else f

/-- The host shuts the sale down, which stops all workers at once. -/
def shutDown (f : Floor σ) : Floor σ :=
  { f with
    isShutDown := true
    feeds := f.feeds.map .stop
    checkouts := f.checkouts.map .stop }

/-- Time passes. -/
def wait (f : Floor σ) (milliseconds : Nat) : Floor σ :=
  { f with clock := f.clock + milliseconds }

/-- Something happens in the world. -/
def change (f : Floor σ) (event : σ → σ) : Floor σ :=
  { f with world := event f.world }

/-! ## Runs -/

/-- One act. The director's wall clock may say anything. -/
inductive Act (σ : Type) where
  | director (now : Timestamp)
  | feed (generation : Nat)
  | checkout (generation : Nat)
  | post (event : Event)
  | shutDown
  | wait (milliseconds : Nat)
  | change (event : σ → σ)

/-- The floor after an act. -/
def act (env : Environment σ) (f : Floor σ) : Act σ → Floor σ
  | .director now => (f.directorTurn env now).2.2
  | .feed generation => f.feedTurn env generation
  | .checkout generation => f.checkoutTurn env generation
  | .post event => f.post event
  | .shutDown => f.shutDown
  | .wait milliseconds => f.wait milliseconds
  | .change event => f.change event

/-- The floor after a list of acts. -/
def run (env : Environment σ) (f : Floor σ) (acts : List (Act σ)) : Floor σ :=
  acts.foldl (act env) f

end Floor

end MintSale.Sale
