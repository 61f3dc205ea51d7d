import MintSale.Collaborator.Job
import MintSale.Sale.Report

/-!
# The feed of live sale data

A feed reads price and state of a project in rounds, an interval apart, and reports what it has
read. It ends with the first round that fails.
-/

namespace MintSale

/-- What a feed works with. -/
structure LiveFeed.Setup where
  project : Project
  chain : ChainClient
  deriving DecidableEq

/-- Why a feed ended. -/
inductive LiveFeed.Exit where
  | cancelled
  | failed
  deriving DecidableEq

/-- What a feed is doing. -/
inductive LiveFeed.Stage where
  | reading (job : Job LiveSaleData)
  /-- Waiting for the time at which the next round is due. -/
  | resting (due : Nat)
  | ended (exit : Exit)

/-- A feed of live sale data. -/
structure LiveFeed where
  setup : LiveFeed.Setup
  line : Line
  /-- Milliseconds between two rounds. -/
  interval : Nat
  stage : LiveFeed.Stage

namespace LiveFeed

/-- Milliseconds between two rounds, unless said otherwise. -/
def defaultInterval : Nat := 10000

/-- One round: price and state, asked together. -/
def round (s : Setup) : Program LiveSaleData := do
  let (price, state, ()) ← Program.calls
    [.priceInfo s.chain s.project, .projectState s.chain s.project]
  return .ofReads price state

/-- A feed that has not begun. -/
def fresh (setup : Setup) (generation interval : Nat) : LiveFeed where
  setup := setup
  line := .fresh .feed generation
  interval := interval
  stage := .reading (.fresh (round setup))

/-- Why the feed has ended, if it has. -/
def exit? (f : LiveFeed) : Option Exit :=
  match f.stage with
  | .ended exit => some exit
  | _ => none

/-- The time at which the feed goes on by itself. -/
def due? (f : LiveFeed) : Option Nat :=
  match f.stage with
  | .resting due => some due
  | _ => none

/-- The tickets that the feed waits for. -/
def tickets (f : LiveFeed) : List Ticket :=
  match f.stage with
  | .reading job => job.tickets
  | _ => []

/-- Stops the feed; it ends with its next turn. -/
def stop (f : LiveFeed) : LiveFeed :=
  { f with line := { f.line with isStopped := true } }

variable {σ : Type} (env : Environment σ)

/-- Goes on with a round at a time. Also tells what arrives of the feed's report and what it asks. -/
def read (now : Nat) (f : LiveFeed) (job : Job LiveSaleData) (world : σ) :
    LiveFeed × List Message × List Call × σ :=
  let (progress, asked, world) := job.resume env world
  match progress with
  | .pending job => ({ f with stage := .reading job }, [], asked, world)
  | .finished (.ok data) =>
    match f.line.post (.liveData data) with
    | some message =>
      ({ f with stage := .resting (now + f.interval) }, [message], asked, world)
    | none => ({ f with stage := .ended .cancelled }, [], asked, world)
  | .finished (.error fault) =>
    ({ f with stage := .ended .failed }, (f.line.post (.failed fault.message)).toList, asked, world)

/-- The feed's turn at a time: it goes on as far as possible without waiting. -/
def turn (now : Nat) (f : LiveFeed) (world : σ) : LiveFeed × List Message × List Call × σ :=
  match f.stage with
  | .ended _ => (f, [], [], world)
  | .reading job =>
    if f.line.isStopped then
      ({ f with stage := .ended .cancelled }, [], [], job.abandon env world)
    else f.read env now job world
  | .resting due =>
    if f.line.isStopped then ({ f with stage := .ended .cancelled }, [], [], world)
    else if now < due then (f, [], [], world)
    else f.read env now (.fresh (round f.setup)) world

end LiveFeed

end MintSale
