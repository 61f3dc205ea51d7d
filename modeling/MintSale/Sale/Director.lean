import MintSale.Checkout.Machine
import MintSale.LiveFeed
import MintSale.Sale.Restoring
import MintSale.Sale.Settling

/-!
# The director of a sale

The director takes what comes in, one thing at a time: the project, events of the host, and messages
of the workers. After each it settles the phase and keeps the workers in step with it. What it wants
done elsewhere goes to its outbox.
-/

namespace MintSale

/-- A purchase that has been sent, as it is told to whoever follows purchases. -/
structure Notice where
  projectId : String
  txHash : Hash
  purchaseTo : Address
  deriving DecidableEq

namespace Sale

/-! ## What comes in -/

/-- An event of the host. -/
inductive Event where
  | chainAvailable (client : ChainClient)
  | chainUnavailable
  | walletAvailable (client : WalletClient)
  | walletUnavailable
  | liveData (data : LiveSaleData)
  | error (message : String)
  | command (command : Command)
  deriving DecidableEq

/-! ## What goes out -/

/-- A feed that a director has opened. -/
structure FeedSlot where
  generation : Nat
  setup : LiveFeed.Setup
  deriving DecidableEq

/-- A checkout that a director has opened. -/
structure CheckoutSlot where
  generation : Nat
  setup : Checkout.Setup
  deriving DecidableEq

/-- Something that a director wants done. -/
inductive Order where
  | openFeed (slot : FeedSlot)
  | closeFeed (generation : Nat)
  | openCheckout (slot : CheckoutSlot)
  | closeCheckout (generation : Nat)
  | command (generation : Nat) (command : Command)
  | track (notice : Notice)
  deriving DecidableEq

/-- The director of a sale. -/
structure Director where
  phase : Phase
  context : Context
  feed : Option FeedSlot
  checkout : Option CheckoutSlot
  /-- The state of the running checkout, as far as reported. -/
  purchase : Option PurchaseState
  /-- How many workers have been opened so far. -/
  generation : Nat
  /-- The live data for the checkout to see. -/
  board : Option LiveSaleData
  outbox : List Order
  deriving DecidableEq

namespace Director

/-- The director of a sale that starts. -/
def initial (start : Start) : Director where
  phase := .fetchingProjectData
  context := ⟨start.projectId, start.chain, start.wallet, none, none, none, none⟩
  feed := none
  checkout := none
  purchase := none
  generation := 0
  board := none
  outbox := []

/-- What a host sees of the sale. -/
def snapshot (d : Director) : Snapshot :=
  ⟨d.phase, d.context.view, d.purchase⟩

/-- Puts an order into the outbox. -/
def order (d : Director) (o : Order) : Director :=
  { d with outbox := d.outbox ++ [o] }

/-! ## Workers -/

/-- Closes the feed, if there is one. -/
def closeFeed (d : Director) : Director :=
  match d.feed with
  | none => d
  | some slot => { d with feed := none }.order (.closeFeed slot.generation)

/-- Closes the checkout, if there is one; its state goes with it. -/
def closeCheckout (d : Director) : Director :=
  match d.checkout with
  | none => { d with purchase := none }
  | some slot =>
    { d with checkout := none, purchase := none }.order (.closeCheckout slot.generation)

/-- Opens a feed, unless there is one or it has nothing to work with. -/
def openFeed (d : Director) : Director :=
  match d.feed, d.context.project, d.context.chain with
  | none, some project, some chain =>
    let slot : FeedSlot := ⟨d.generation + 1, ⟨project, chain⟩⟩
    { d with feed := some slot, generation := d.generation + 1 }.order (.openFeed slot)
  | _, _, _ => d

/-- Opens a checkout, unless there is one or it has nothing to work with. -/
def openCheckout (d : Director) : Director :=
  match d.checkout, d.context.project, d.context.chain, d.context.wallet with
  | none, some project, some chain, some wallet =>
    match project.support with
    | .supported kind =>
      let slot : CheckoutSlot := ⟨d.generation + 1, ⟨project, kind, chain, wallet⟩⟩
      { d with
        checkout := some slot
        purchase := some .initial
        generation := d.generation + 1 }.order (.openCheckout slot)
    | _ => d
  | _, _, _, _ => d

/-- Forgets what the chain client has brought: the workers and the live data. -/
def dropChainState (d : Director) : Director :=
  let d := d.closeFeed.closeCheckout
  { d with context := { d.context with live := none }, board := none }

/-! ## Taking things in -/

/-- Takes live data. A price that is not configured rules the project out. -/
def takeLiveData (d : Director) (data : LiveSaleData) : Director :=
  let reason :=
    if !data.isConfigured && d.context.ineligibleReason.isNone then
      some "Project price is not configured on its minter"
    else d.context.ineligibleReason
  { d with
    context := { d.context with live := some data, ineligibleReason := reason }
    board := some data }

/-- Takes an error. The first one is kept. -/
def takeError (d : Director) (message : String) : Director :=
  { d with context := { d.context with error := d.context.error <|> some message } }

/-- Takes the project, or the reason why there is none. -/
def takeProject (d : Director) (result : Except Fault Project) : Director :=
  let context :=
    match result with
    | .ok project =>
      { d.context with
        projectId := d.context.projectId <|> some project.id
        project := some project }
    | .error .noProjectId =>
      { d.context with ineligibleReason := some Fault.noProjectId.message }
    | .error fault => { d.context with error := some fault.message }
  { d with context := context, phase := .idle }

/-- Takes an event of the host. A client that is there already changes nothing. -/
def takeEvent (d : Director) : Event → Director
  | .chainAvailable client =>
    if d.context.chain = some client then d
    else { d with context := { d.context with chain := some client } }.dropChainState
  | .chainUnavailable => { d with context := { d.context with chain := none } }.dropChainState
  | .walletAvailable client =>
    if d.context.wallet = some client then d
    else { d with context := { d.context with wallet := some client } }.closeCheckout
  | .walletUnavailable => { d with context := { d.context with wallet := none } }.closeCheckout
  | .liveData data => d.takeLiveData data
  | .error message => d.takeError message
  | .command command =>
    match d.checkout with
    | some slot => d.order (.command slot.generation command)
    | none => d

/-- The number of the worker that has a role now. -/
def current (d : Director) : Role → Option Nat
  | .feed => d.feed.map (·.generation)
  | .checkout => d.checkout.map (·.generation)

/-- The id under which purchases of the sale are followed. -/
def trackedId (d : Director) : String :=
  ((d.context.project.map (·.id)) <|> d.context.projectId).getD ""

/-- Takes a message of a worker. Those of former workers are thrown away. A feed that has failed is
over. -/
def takeMessage (d : Director) (m : Message) : Director :=
  if d.current m.role = some m.generation then
    match m.report with
    | .liveData data => d.takeLiveData data
    | .failed message =>
      let d := if m.role = .feed then { d with feed := none } else d
      d.takeError message
    | .purchaseState state => { d with purchase := some state }
    | .submitted txHash purchaseTo => d.order (.track ⟨d.trackedId, txHash, purchaseTo⟩)
  else d

/-! ## Settling -/

/-- Does what a decision asks for. -/
def apply (d : Director) : Action → Director
  | .startFeed => d.openFeed
  | .stopFeed => d.closeFeed
  | .startCheckout => d.openCheckout
  | .stopCheckout => d.closeCheckout
  | .recordIneligibility reason =>
    { d with context := { d.context with ineligibleReason := some reason } }

/-- Settles the phase. -/
def settle (accounts : Accounts) (now : Timestamp) (d : Director) : Director :=
  let decision := Sale.settle accounts now d.phase d.context
  { decision.actions.foldl apply d with phase := decision.phase }

/-- Takes the orders out of the outbox. -/
def collect (d : Director) : List Order × Director :=
  (d.outbox, { d with outbox := [] })

/-- The end of a sale: all workers are closed. -/
def dispose (d : Director) : Director :=
  d.closeFeed.closeCheckout

end Director

/-! ## The project -/

/-- The way to the project: it is given, or it is asked for by its id. If asking fails, but not
because there is no such project, a stored one with the same id will do. -/
def metadataProgram (start : Start) : Program Project :=
  match start.project, start.projectId with
  | some project, _ => return project
  | none, none => Program.fail .noProjectId
  | none, some id => do
    match ← (Program.call (.project id)).attempt with
    | .ok project => return project
    | .error (.projectNotFound missing) => Program.fail (.projectNotFound missing)
    | .error fault =>
      match start.storedProject with
      | some stored => if stored.id = id then return stored else Program.fail fault
      | none => Program.fail fault

end Sale

end MintSale
