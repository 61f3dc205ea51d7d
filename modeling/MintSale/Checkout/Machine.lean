import MintSale.Checkout.Eligibility
import MintSale.Checkout.Transactions
import MintSale.Collaborator.Job
import MintSale.Sale.Report
import MintSale.Sale.Turn

/-!
# The checkout

A checkout first finds out whether the connected wallet may buy. Then it waits for purchases and
sends their transactions, one purchase at a time. A reset takes it back to the beginning from
anywhere. Each change of its state is reported.
-/

namespace MintSale

/-- What a checkout can be told. -/
inductive Command where
  | purchase (request : PurchaseRequest)
  | reset
  deriving DecidableEq

/-- What a checkout works with. -/
structure Checkout.Setup where
  project : Project
  kind : MinterKind
  chain : ChainClient
  wallet : WalletClient
  deriving DecidableEq

/-- What a checkout is busy with. -/
inductive Checkout.Work where
  | check (job : Job Eligibility)
  | submission (job : Job Hash)

/-- A checkout. -/
structure Checkout where
  setup : Checkout.Setup
  line : Line
  state : PurchaseState
  /-- The state last reported. -/
  reported : Option PurchaseState
  work : Option Checkout.Work
  /-- Commands that it has not taken yet. -/
  commands : List Command
  /-- Whether no more commands can come. -/
  isClosed : Bool
  hasEnded : Bool

namespace Checkout

/-! ## What it works on -/

/-- The check of the wallet, given its account and the price. -/
def checkProgram (s : Setup) (account : Option Address) (price : Option Amount) :
    Program Eligibility := do
  let minter ← Program.require .noMinter s.project.minter
  let account ← Program.require (.missing .walletAccount) account
  Applicant.check s.kind ⟨s.project, minter, account, price, s.chain⟩

/-- Sends transactions one after the other. The last hash is that of the purchase. -/
def sendAll (wallet : WalletClient) : (last : Option Hash) → List Transaction → Program Hash
  | last, [] => Program.require (.missing .transaction) last
  | _, tx :: rest => do
    let txHash ← Program.call (.send wallet tx)
    sendAll wallet (some txHash) rest

/-- The token that a purchase is made with: the chosen one, or else the first that was found. -/
def selectedToken (state : PurchaseState) : Option HolderToken :=
  match state.additional.bind (·.holderToken), state.eligibility with
  | some token, _ => some token
  | none, some (.holder tokens) => tokens.head?
  | none, _ => none

/-- The submission of a purchase, given the account and the price. -/
def submissionProgram (s : Setup) (state : PurchaseState) (account : Option Address)
    (price : Option Amount) : Program Hash := do
  let account ← Program.require (.missing .walletAccount) account
  let price ← Program.require .liveDataUnavailable price
  let minter ← Program.require .noMinter s.project.minter
  let details ← Program.require (.missing .eligibilityDetails) state.eligibility
  let txs ← Purchase.transactions s.kind {
    project := s.project
    minter
    account
    purchaseTo := state.purchaseTo.getD account
    price
    details
    selectedToken := selectedToken state
    chain := s.chain }
  sendAll s.wallet none txs

/-! ## Its state -/

/-- A checkout that has not begun. -/
def fresh (setup : Setup) (generation : Nat) : Checkout where
  setup := setup
  line := .fresh .checkout generation
  state := .initial
  reported := none
  work := none
  commands := []
  isClosed := false
  hasEnded := false

/-- Stops the checkout; it ends with its next turn. -/
def stop (c : Checkout) : Checkout :=
  { c with line := { c.line with isStopped := true } }

/-- The tickets that the checkout waits for. -/
def tickets (c : Checkout) : List Ticket :=
  match c.work with
  | none => []
  | some (.check job) => job.tickets
  | some (.submission job) => job.tickets

/-- Reports the state, unless it is the one last reported. -/
def publish (c : Checkout) : Checkout × List Message :=
  if c.reported = some c.state then (c, [])
  else ({ c with reported := some c.state }, (c.line.post (.purchaseState c.state)).toList)

/-! ## Its turn -/

/-- The end of a check. Also tells what is reported on the way. -/
def checked (c : Checkout) : Except Fault Eligibility → Checkout × List Message
  | .ok (.eligible details) =>
    ({ c with
       work := none
       state := { c.state with eligibility := some details, phase := .readyForPurchase } }, [])
  | .ok (.ineligible reason) =>
    ({ c with
       work := none
       state := { c.state with ineligibleReason := some reason, phase := .userIneligible } }, [])
  | .error fault =>
    ({ c with work := none, state := c.state.broken fault.message },
      (c.line.post (.failed fault.message)).toList)

/-- The end of a submission. A purchase that the wallet's owner declined can be made again. -/
def submitted (account : Option Address) (c : Checkout) :
    Except Fault Hash → Checkout × List Message
  | .ok txHash =>
    let buyer := (c.state.purchaseTo <|> account).getD default
    ({ c with work := none, state := c.state.bought txHash },
      (c.line.post (.submitted txHash buyer)).toList)
  | .error .userRejected =>
    ({ c with work := none, state := { c.state with phase := .readyForPurchase } }, [])
  | .error fault =>
    ({ c with work := none, state := c.state.broken fault.message },
      (c.line.post (.failed fault.message)).toList)

variable {σ : Type} (env : Environment σ)

/-- Gives up what the checkout is busy with. -/
def drop (c : Checkout) (world : σ) : σ :=
  match c.work with
  | none => world
  | some (.check job) => job.abandon env world
  | some (.submission job) => job.abandon env world

/-- Takes a command. A purchase counts only while the checkout is ready for one and the wallet has
an account. -/
def take (c : Checkout) (command : Command) (world : σ) : Checkout × σ :=
  match command with
  | .reset => ({ c with state := .initial, work := none }, c.drop env world)
  | .purchase request =>
    if c.state.phase = .readyForPurchase then
      match env.account world c.setup.wallet with
      | some account => ({ c with state := c.state.begin account request }, world)
      | none => (c, world)
    else (c, world)

/-- Takes commands in order and reports what becomes of each. -/
def takeAll : List Command → Checkout → σ → Checkout × List Message × σ
  | [], c, world => (c, [], world)
  | command :: rest, c, world =>
    let (c, world) := c.take env command world
    let (c, messages) := c.publish
    let (c, more, world) := takeAll rest c world
    (c, messages ++ more, world)

/-- What the checkout should be busy with: what it is busy with already, or else, as the phase has
it, a check or a submission that begins now. -/
def workNow (price : Option Amount) (c : Checkout) (world : σ) : Option Work :=
  match c.state.phase, c.work with
  | .checkingEligibility, none =>
    some (.check (.fresh (checkProgram c.setup (env.account world c.setup.wallet) price)))
  | .initiatingPurchase, none =>
    some (.submission (.fresh
      (submissionProgram c.setup c.state (env.account world c.setup.wallet) price)))
  | _, work => work

/-- Goes on with the work as far as possible without waiting. -/
def advance (price : Option Amount) (c : Checkout) (world : σ) :
    Checkout × List Message × List Call × σ :=
  match c.workNow env price world with
  | none => (c, [], [], world)
  | some (.check job) =>
    match job.resume env world with
    | (.pending job, asked, world) => ({ c with work := some (.check job) }, [], asked, world)
    | (.finished result, asked, world) =>
      let (c, messages) := c.checked result
      (c, messages, asked, world)
  | some (.submission job) =>
    match job.resume env world with
    | (.pending job, asked, world) => ({ c with work := some (.submission job) }, [], asked, world)
    | (.finished result, asked, world) =>
      let (c, messages) := c.submitted (env.account world c.setup.wallet) result
      (c, messages, asked, world)

/-- Whether the commands that wait fill a whole turn, so that another one has to follow. -/
def overruns (c : Checkout) : Bool :=
  turnLimit ≤ c.commands.length

/-- The checkout's turn, given the price on the board: it reports its state if it has just begun,
takes the commands that fit into a turn, and, if there is room left, goes on with its work; else the
work only begins. It ends when it is stopped or, after the commands, when no more of them can come.
Also tells what arrives of its reports and what it asks. -/
def turn (price : Option Amount) (c : Checkout) (world : σ) :
    Checkout × List Message × List Call × σ :=
  if c.hasEnded then (c, [], [], world)
  else if c.line.isStopped then
    ({ c with hasEnded := true, work := none }, [], [], c.drop env world)
  else
    let isFull := c.overruns
    let (c, first) := c.publish
    let later := c.commands.drop turnLimit
    let (c, taken, world) :=
      takeAll env (c.commands.take turnLimit) { c with commands := later } world
    if isFull then
      ({ c with work := c.workNow env price world }, first ++ taken, [], world)
    else if c.isClosed then
      ({ c with hasEnded := true, work := none }, first ++ taken, [], c.drop env world)
    else
      let (c, worked, asked, world) := c.advance env price world
      let (c, last) := c.publish
      (c, first ++ taken ++ worked ++ last, asked, world)

end Checkout

end MintSale
