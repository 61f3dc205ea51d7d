import MintSale.Format.Checkout
import MintSale.Format.Project
import MintSale.Json.Access
import MintSale.Rehearsal.World

/-!
# Scripts in writing

A script is an object whose fields replace those of another script. What it leaves out stays.
-/

namespace MintSale.Rehearsal

open Json (Reader readText readBool readNat readUInt64 readOption readList readNamed readOver)

/-- A byte string. -/
def readOctets {n : Nat} : Reader (Octets n) :=
  Json.readAs Octets.codec

/-- An amount. -/
def readAmount : Reader Amount :=
  Json.readAs Amount.codec

/-- A failure, by its kind. Failures of an unknown kind are the node's. -/
def readFault (j : Json) : Except Json.Fault Fault := do
  let message := (← readOption readText (j.field "message")).getD ""
  let code : Int :=
    match j.field "code" with
    | .int n => n
    | _ => 0
  match ← readText (j.field "kind") with
  | "UserRejected" => .ok .userRejected
  | "NoMinterConfigured" => .ok .noMinter
  | "ProjectNotFound" => .ok (.projectNotFound message)
  | "NoProjectId" => .ok .noProjectId
  | "GraphQl" => .ok (.catalog (.reported message))
  | "Abi" => .ok (.abi (.reported message))
  | _ => .ok (.node code message)

/-! ## Chains -/

/-- What a chain says about a price. -/
def readPriceInfo (j : Json) : Except Json.Fault PriceInfo := do
  let plain := PriceInfo.plain
  .ok {
    isConfigured := ← readOver "isConfigured" plain.isConfigured readBool j
    price := ← readOver "tokenPriceInWei" plain.price readAmount j }

/-- What a chain says about a project. -/
def readProjectState (j : Json) : Except Json.Fault ProjectState := do
  let plain := ProjectState.plain
  .ok {
    invocations := ← readOver "invocations" plain.invocations readUInt64 j
    maxInvocations := ← readOver "maxInvocations" plain.maxInvocations readUInt64 j
    active := ← readOver "active" plain.active readBool j
    paused := ← readOver "paused" plain.paused readBool j
    completedAt := ← readOver "completedTimestamp" plain.completedAt (readOption readUInt64) j }

/-- Receipts by the hash of their transaction. -/
def readReceipts (j : Json) : Except Json.Fault (List Receipt) := do
  let named ← readNamed (fun value => .ok value) j
  named.mapM fun (key, value) => do
    .ok {
      txHash := ← readOctets (.text key)
      blockNumber := ← readUInt64 (value.field "blockNumber")
      success := ← readOver "success" true readBool value }

/-- What a chain says about a currency: a balance, an allowance and the decimals. -/
def readCurrency (j : Json) : Except Json.Fault (Amount × Amount × UInt8) := do
  let plain := ChainScript.plain
  let readDecimals : Reader UInt8 := fun n => do .ok (UInt8.ofNat (← readNat n))
  let balance ← readOver "balance" plain.balance readAmount j
  let allowance ← readOver "allowance" plain.allowance readAmount j
  let decimals ← readOver "decimals" plain.decimals readDecimals j
  .ok (balance, allowance, decimals)

/-- The script of a chain in place of another one. -/
def ChainScript.read (old : ChainScript) (j : Json) : Except Json.Fault ChainScript := do
  let (balance, allowance, decimals) ←
    readOver "erc20" (old.balance, old.allowance, old.decimals) readCurrency j
  .ok {
    price := ← readOver "price" old.price readPriceInfo j
    state := ← readOver "state" old.state readProjectState j
    mintsRemaining := ← readOver "merkleRemaining" old.mintsRemaining (readOption readUInt64) j
    balance
    allowance
    decimals
    receipts := ← readOver "receipts" old.receipts readReceipts j
    faults := ← readOver "errors" old.faults (readNamed readFault) j }

/-! ## Wallets and sources -/

/-- What becomes of a transaction. -/
def readResult (j : Json) : Except Json.Fault (Except Fault Hash) :=
  match j.member? "ok" with
  | some txHash => do .ok (.ok (← readOctets txHash))
  | none => do .ok (.error (← readFault (j.field "err")))

/-- The script of a wallet in place of another one. -/
def WalletScript.read (old : WalletScript) (j : Json) : Except Json.Fault WalletScript := do
  .ok {
    account := ← readOver "account" old.account (readOption readOctets) j
    results := ← readOver "results" old.results (readList readResult) j
    answered := old.answered }

/-- The script of a source in place of another one. -/
def SourceScript.read (old : SourceScript) (j : Json) : Except Json.Fault SourceScript := do
  .ok {
    project := ← readOver "project" old.project (readOption (Json.readAs Project.codec)) j
    allowlist := ← readOver "allowlist" old.allowlist (readList readOctets) j
    ownedTokens := ←
      readOver "ownedTokens" old.ownedTokens (readList (Json.readAs OwnedToken.codec)) j
    vaults := ← readOver "vaults" old.vaults (readList readOctets) j
    faults := ← readOver "errors" old.faults (readNamed readFault) j }

/-! ## Worlds -/

namespace World

/-- Collaborators by name, and the names of calls that are held from the start. -/
def read (j : Json) : Except Json.Fault World := do
  let world : World := {
    chains := ← readNamed (ChainScript.read .plain) (j.field "chains")
    wallets := ← readNamed (WalletScript.read .plain) (j.field "wallets")
    source := ← SourceScript.read .plain (j.field "source")
    gates := []
    nextTicket := 0 }
  let held ← readList readText (j.field "hold")
  .ok (held.foldl hold world)

/-- A chain by the name `a` and a source. -/
def readSingle (j : Json) : Except Json.Fault World := do
  .ok {
    chains := [("a", ← ChainScript.read .plain (j.field "chain"))]
    wallets := []
    source := ← SourceScript.read .plain (j.field "source")
    gates := []
    nextTicket := 0 }

/-- A change of scripts or a call held from now on, if a step is one. -/
def readChange (j : Json) : Except Json.Fault (Option (World → Except Json.Fault World)) := do
  let new := j.field "with"
  match ← readText (j.field "do") with
  | "set_chain" => do
    let id ← readText (j.field "id")
    .ok (some fun w => do
      let script ← (w.chain ⟨id⟩).read new
      .ok { w with chains := replace id script w.chains })
  | "set_wallet" => do
    let id ← readText (j.field "id")
    .ok (some fun w => do
      let script ← (w.wallet ⟨id⟩).read new
      .ok { w with wallets := replace id script w.wallets })
  | "set_source" =>
    .ok (some fun w => do .ok { w with source := ← w.source.read new })
  | "hold" => do
    let name ← readText (j.field "method")
    .ok (some fun w => .ok (w.hold name))
  | _ => .ok none

end World

end MintSale.Rehearsal
