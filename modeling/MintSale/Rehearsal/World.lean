import MintSale.Collaborator.Job

/-!
# Scripted collaborators

Collaborators for rehearsals: each answers as its script says, and calls by a name that is held wait
for permits, first come, first served.
-/

namespace MintSale.Rehearsal

/-! ## Scripts -/

/-- Failures by the name of the call. -/
abbrev Faults := List (String × Fault)

/-- What a scripted chain says. -/
structure ChainScript where
  price : PriceInfo
  state : ProjectState
  mintsRemaining : Option UInt64
  balance : Amount
  allowance : Amount
  decimals : UInt8
  receipts : List Receipt
  faults : Faults

/-- What a scripted wallet says. -/
structure WalletScript where
  account : Option Address
  /-- What becomes of the next transactions. -/
  results : List (Except Fault Hash)
  /-- How many transactions have been answered. -/
  answered : Nat

/-- What a scripted source of metadata says. -/
structure SourceScript where
  project : Option Project
  allowlist : List Address
  ownedTokens : List OwnedToken
  vaults : List Address
  faults : Faults

/-- A name under which calls are held. -/
structure Gate where
  name : String
  /-- Permits that nobody has waited for. -/
  permits : Nat
  /-- Those who wait, first come first. -/
  waiting : List Ticket
  /-- Those who have got a permit and not yet their answer. -/
  admitted : List Ticket

/-- All scripted collaborators. -/
structure World where
  chains : List (String × ChainScript)
  wallets : List (String × WalletScript)
  source : SourceScript
  gates : List Gate
  nextTicket : Ticket

/-- A price that is configured. -/
def PriceInfo.plain : PriceInfo := ⟨true, .ofUInt64 100⟩

/-- A project of which a part has been sold. -/
def ProjectState.plain : ProjectState := ⟨10, 100, true, false, none⟩

/-- A chain without anything special. -/
def ChainScript.plain : ChainScript :=
  ⟨PriceInfo.plain, ProjectState.plain, none, .zero, .zero, 18, [], []⟩

/-- A wallet without an account. -/
def WalletScript.plain : WalletScript := ⟨none, [], 0⟩

/-- A source that knows nothing. -/
def SourceScript.plain : SourceScript := ⟨none, [], [], [], []⟩

namespace Gate

/-- Gives a permit to whoever waits, or keeps it. -/
def permit (g : Gate) : Gate :=
  match g.waiting with
  | ticket :: rest => { g with waiting := rest, admitted := g.admitted ++ [ticket] }
  | [] => { g with permits := g.permits + 1 }

/-- Takes back a ticket; a permit that it had got goes on. -/
def withdraw (ticket : Ticket) (g : Gate) : Gate :=
  if ticket ∈ g.admitted then { g with admitted := g.admitted.erase ticket }.permit
  else { g with waiting := g.waiting.erase ticket }

end Gate

/-- Puts a value under a name in place of what is there. -/
def replace {α : Type} (name : String) (value : α) : List (String × α) → List (String × α)
  | [] => [(name, value)]
  | entry :: rest =>
    if entry.1 = name then (name, value) :: rest else entry :: replace name value rest

namespace World

/-- The script of a chain. -/
def chain (w : World) (client : ChainClient) : ChainScript :=
  (w.chains.lookup client.name).getD .plain

/-- The script of a wallet. -/
def wallet (w : World) (client : WalletClient) : WalletScript :=
  (w.wallets.lookup client.name).getD .plain

/-! ## Answers -/

/-- What is said unless the script has a failure for the call. -/
def barring {α : Type} (faults : Faults) (name : String) (result : Except Fault α) :
    Except Fault α :=
  match faults.lookup name with
  | some fault => .error fault
  | none => result

/-- The answer of a chain. -/
def ofChain {α : Type} (w : World) (client : ChainClient) (name : String)
    (result : ChainScript → Except Fault α) : Except Fault α :=
  let script := w.chain client
  barring script.faults name (result script)

/-- The hash that a transaction gets when no result is scripted. -/
def hashOf (count : Nat) : Hash :=
  .replicate 32 (UInt8.ofNat count)

/-- A wallet answers with its next result. -/
def send (w : World) (client : WalletClient) : Except Fault Hash × World :=
  let script := w.wallet client
  let count := script.answered + 1
  let (result, results) : Except Fault Hash × List (Except Fault Hash) :=
    match script.results with
    | [] => (.ok (hashOf count), [])
    | result :: rest => (result, rest)
  let script := { script with results := results, answered := count }
  (result, { w with wallets := replace client.name script w.wallets })

/-- The answer to a call. -/
def answer (w : World) (call : Call) : Except Fault call.Answer × World :=
  let source := w.source
  match call with
  | .priceInfo client project =>
    (w.ofChain client "price_info" fun script =>
      if project.minter.isNone then .error .noMinter else .ok script.price, w)
  | .projectState client _ => (w.ofChain client "project_state" fun script => .ok script.state, w)
  | .mintsRemaining client _ _ =>
    (w.ofChain client "merkle_mints_remaining" fun script => .ok script.mintsRemaining, w)
  | .balance client _ _ => (w.ofChain client "erc20_balance" fun script => .ok script.balance, w)
  | .allowance client _ _ _ =>
    (w.ofChain client "erc20_allowance" fun script => .ok script.allowance, w)
  | .decimals client _ => (w.ofChain client "erc20_decimals" fun script => .ok script.decimals, w)
  | .receipt client txHash =>
    (w.ofChain client "transaction_receipt" fun script =>
      .ok (script.receipts.find? fun receipt => receipt.txHash = txHash), w)
  | .send client _ => w.send client
  | .project id =>
    (barring source.faults "fetch_project" <|
      match source.project with
      | some project => if project.id = id then .ok project else .error (.projectNotFound id)
      | none => .error (.projectNotFound id), w)
  | .allowlist _ => (barring source.faults "fetch_allowlist" (.ok source.allowlist), w)
  | .ownedTokens _ _ => (barring source.faults "fetch_owned_tokens" (.ok source.ownedTokens), w)
  | .vaults _ => (barring source.faults "fetch_delegation_vaults" (.ok source.vaults), w)

/-! ## Gates -/

/-- The gate for a name, if calls by it are held. -/
def gate? (w : World) (name : String) : Option Gate :=
  w.gates.find? fun gate => gate.name = name

/-- Changes the gate for a name. -/
def mapGate (w : World) (name : String) (change : Gate → Gate) : World :=
  { w with gates := w.gates.map fun gate => if gate.name = name then change gate else gate }

/-- Holds calls by a name from now on. -/
def hold (w : World) (name : String) : World :=
  if (w.gate? name).isSome then w else { w with gates := w.gates ++ [⟨name, 0, [], []⟩] }

/-- Gives `n` permits out. The result also tells who got one. -/
def release (w : World) (name : String) (n : Nat) : List Ticket × World :=
  match w.gate? name with
  | none => ([], w)
  | some gate => (gate.waiting.take n, w.mapGate name (Nat.repeat Gate.permit n))

/-- Asks a call. -/
def ask (call : Call) (w : World) : Reply call.Answer × World :=
  match w.gate? call.name with
  | none =>
    let (result, w) := w.answer call
    (.now result, w)
  | some gate =>
    if 0 < gate.permits then
      let (result, w) := (w.mapGate gate.name fun g => { g with permits := g.permits - 1 }).answer
        call
      (.now result, w)
    else
      let ticket := w.nextTicket
      let w := { w with nextTicket := ticket + 1 }
      (.later ticket, w.mapGate gate.name fun g => { g with waiting := g.waiting ++ [ticket] })

/-- The answer for a ticket, once it has a permit. -/
def collect (ticket : Ticket) (call : Call) (w : World) :
    Option (Except Fault call.Answer) × World :=
  match w.gate? call.name with
  | none => (none, w)
  | some gate =>
    if ticket ∈ gate.admitted then
      let (result, w) := (w.mapGate gate.name fun g =>
        { g with admitted := g.admitted.erase ticket }).answer call
      (some result, w)
    else (none, w)

/-- Takes back a ticket. -/
def abandon (ticket : Ticket) (w : World) : World :=
  { w with gates := w.gates.map (Gate.withdraw ticket) }

end World

/-- The scripted collaborators as an environment. -/
def environment : Environment World where
  account w client := (w.wallet client).account
  ask := World.ask
  collect := World.collect
  abandon := World.abandon

end MintSale.Rehearsal
