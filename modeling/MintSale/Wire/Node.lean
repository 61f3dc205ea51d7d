import MintSale.Calldata
import MintSale.Format.Project
import MintSale.Checkout.State
import MintSale.ReturnData
import MintSale.Wire.Peer

/-!
# Chain nodes

What is asked of a node that speaks JSON-RPC. Reads of contracts are tried again after failures that
may pass, with pauses that double. Transactions are posted once.
-/

namespace MintSale.Wire.Node

/-! ## Quantities and data -/

/-- Bytes as a node has them. -/
def dataText (bytes : List UInt8) : String :=
  String.ofList (Hex.marked bytes)

/-- Reads bytes. -/
def readData (text : String) : Except Fault (List UInt8) :=
  match Hex.decode? (Hex.dropMark text.toList) with
  | some bytes => .ok bytes
  | none => .error (.badHex text)

/-- A number as a node has it. -/
def quantityText (a : Amount) : String :=
  String.ofList (Hex.quantity a.toNat)

/-- Reads a number below 2^64. -/
def readQuantity (text : String) : Except Fault UInt64 :=
  match Hex.quantity? UInt64.size text.toList with
  | some n => .ok (UInt64.ofNat n)
  | none => .error (.badHex text)

/-! ## Replies -/

/-- An error that a node reports. -/
structure NodeError where
  code : Int
  message : String

namespace NodeError

/-- The code for a wallet's owner who declines. -/
def rejected : Int := 4001

/-- Errors that will be the same again: malformed requests, unknown methods, reverts, rejections. -/
def isHard (e : NodeError) : Bool :=
  e.code ∈ [-32600, -32601, -32602, 3, rejected]

/-- The error as a failure. -/
def fault (e : NodeError) : Fault :=
  if e.code = rejected then .userRejected else .node e.code e.message

/-- Errors as records. -/
def codec : Codec NodeError :=
  Fields.codec
    (.cons (.required "code" (.int Int64.minValue.toInt Int64.maxValue.toInt)) <|
      .cons (.required "message" .string) .nil)
    (fun e => (e.code, e.message, ()))
    (fun (code, message, ()) => ⟨code, message⟩)

end NodeError

/-- A reply: a result, an error, both or neither. -/
structure Reply (α : Type) where
  result : Option α
  error : Option NodeError

/-- Replies as records. -/
def Reply.codec {α : Type} (c : Codec α) : Codec (Reply α) :=
  Fields.codec
    (.cons (.optional "result" c) <| .cons (.optional "error" NodeError.codec) .nil)
    (fun r => (r.result, r.error, ()))
    (fun (result, error, ()) => ⟨result, error⟩)

/-- Why a call failed, and whether it is worth another try. -/
structure Failure where
  fault : Fault
  isRetryable : Bool

/-- A failure on the way to the node or back. -/
def Failure.transport : Failure :=
  ⟨.transport, true⟩

/-- What an answer comes to. An error goes before a result; a reply with neither is final. -/
def interpret {α : Type} (c : Codec α) (method : String) :
    Option (Nat × String) → Except Failure α
  | none => .error .transport
  | some (status, body) =>
    if status = 429 then .error ⟨.node 429 "rate limited", true⟩
    else match (Reply.codec c).decode body with
      | .error _ => .error .transport
      | .ok ⟨_, some e⟩ => .error ⟨e.fault, !e.isHard⟩
      | .ok ⟨some a, none⟩ => .ok a
      | .ok ⟨none, none⟩ => .error ⟨.node 0 s!"Empty result from {method}", false⟩

/-! ## Calls -/

/-- The body of a call. -/
def callBody (method : String) (params : Json) : Json :=
  .record
    [("jsonrpc", .text "2.0"), ("id", .nat 1), ("method", .text method), ("params", params)]

/-- Posts a call once. -/
def callOnce {α : Type} (c : Codec α) (method : String) (params : Json) (p : Peer) :
    Except Failure α × Peer :=
  let (answer, p) := p.post ⟨none, callBody method params⟩
  (interpret c method answer, p)

/-- A connection to a peer, and the seconds spent in pauses. -/
structure Session where
  peer : Peer
  waited : Nat

/-- The first pause, in seconds. -/
def firstPause : Nat := 2

/-- The longest pause, in seconds. -/
def longestPause : Nat := 60

/-- How often a read is tried again. -/
def retries : Nat := 4

/-- Posts a call, and again while that may help: `more` times, with pauses that double. -/
def readWithin {α : Type} (c : Codec α) (method : String) (params : Json) :
    (more : Nat) → (pause : Nat) → Session → Except Fault α × Session
  | more, pause, s =>
    let (result, peer) := callOnce c method params s.peer
    let s := { s with peer := peer }
    match result, more with
    | .ok a, _ => (.ok a, s)
    | .error failure, 0 => (.error failure.fault, s)
    | .error failure, more + 1 =>
      if failure.isRetryable then
        readWithin c method params more (min (2 * pause) longestPause)
          { s with waited := s.waited + pause }
      else (.error failure.fault, s)

/-- Reads from a node. -/
def read {α : Type} (c : Codec α) (method : String) (params : Json) (s : Session) :
    Except Fault α × Session :=
  readWithin c method params retries firstPause s

/-- Calls a contract and reads its answer. -/
def contract {α : Type} (address : Address) (data : List UInt8)
    (decode : List UInt8 → Except AbiFault α) (s : Session) : Except Fault α × Session :=
  let call : Json := .record [("to", Octets.codec.write address), ("data", .text (dataText data))]
  let (result, s) := read .string "eth_call" (.array [call, .text "latest"]) s
  let answer : Except Fault α := do
    let bytes ← readData (← result)
    (decode bytes).mapError .abi
  (answer, s)

/-! ## Reads -/

/-- Reads from the minter of a project, which must have one. -/
def ofMinter {α : Type} (p : Project) (data : List UInt8)
    (decode : List UInt8 → Except AbiFault α) (s : Session) : Except Fault α × Session :=
  match p.minter with
  | none => (.error .noMinter, s)
  | some minter => contract minter.address data decode s

/-- The number of a project as an argument. -/
def indexArgument (p : Project) : Argument :=
  .uint (Amount.ofUInt64 p.index)

/-- The price of a project. -/
def priceInfo (p : Project) : Session → Except Fault PriceInfo × Session :=
  ofMinter p (Method.priceInfo.call [indexArgument p, .address p.core]) ReturnData.priceInfo

/-- The state of a project. -/
def projectState (p : Project) : Session → Except Fault ProjectState × Session :=
  contract p.core (Method.projectState.call [indexArgument p]) ReturnData.projectState

/-- How often an account may still mint, if that is limited. -/
def mintsRemaining (p : Project) (account : Address) :
    Session → Except Fault (Option UInt64) × Session :=
  ofMinter p (Method.mintsRemaining.call [indexArgument p, .address p.core, .address account])
    ReturnData.mintsRemaining

/-- A balance in a currency. -/
def balance (token owner : Address) : Session → Except Fault Amount × Session :=
  contract token (Method.balanceOf.call [.address owner]) (ReturnData.single ReturnData.amount)

/-- How much of an owner's balance somebody may spend. -/
def allowance (token owner spender : Address) : Session → Except Fault Amount × Session :=
  contract token (Method.allowance.call [.address owner, .address spender])
    (ReturnData.single ReturnData.amount)

/-- The number of decimals of a currency. -/
def decimals (token : Address) : Session → Except Fault UInt8 × Session :=
  contract token (Method.decimals.call []) (ReturnData.single ReturnData.decimals)

/-! ## Transactions -/

/-- A receipt as a node has it. -/
structure ReceiptRecord where
  txHash : Hash
  blockNumber : Option String
  status : Option String

/-- Receipts as records. -/
def ReceiptRecord.codec : Codec ReceiptRecord :=
  Fields.codec
    (.cons (.required "transactionHash" Octets.codec) <|
      .cons (.optional "blockNumber" .string) <|
      .cons (.optional "status" .string) .nil)
    (fun r => (r.txHash, r.blockNumber, r.status, ()))
    (fun (txHash, blockNumber, status, ()) => ⟨txHash, blockNumber, status⟩)

/-- The receipt that a record comes to. Without a block there is none yet. -/
def ReceiptRecord.receipt? (r : ReceiptRecord) : Except Fault (Option Receipt) :=
  match r.blockNumber with
  | none => .ok none
  | some block => do
    let blockNumber ← readQuantity block
    let success ←
      match r.status with
      | none => .ok false
      | some status => do .ok ((← readQuantity status) == 1)
    .ok (some ⟨r.txHash, blockNumber, success⟩)

/-- The receipt of a transaction, if there is one. No result is no receipt, and so is an error with
the code that stands for no result. -/
def receipt (txHash : Hash) (s : Session) : Except Fault (Option Receipt) × Session :=
  let (result, peer) := callOnce ReceiptRecord.codec.option "eth_getTransactionReceipt"
    (.array [Octets.codec.write txHash]) s.peer
  let answer : Except Fault (Option Receipt) :=
    match result with
    | .ok none => .ok none
    | .ok (some r) => r.receipt?
    | .error ⟨.node 0 _, _⟩ => .ok none
    | .error failure => .error failure.fault
  (answer, { s with peer := peer })

/-- Posts a transaction, once. -/
def send (tx : Transaction) (s : Session) : Except Fault Hash × Session :=
  let call : Json := .record
    [("from", Octets.codec.write tx.sender),
     ("to", Octets.codec.write tx.recipient),
     ("data", .text (dataText tx.data)),
     ("value", .text (quantityText tx.value))]
  let (result, peer) := callOnce Octets.codec "eth_sendTransaction" (.array [call]) s.peer
  (result.mapError Failure.fault, { s with peer := peer })

end MintSale.Wire.Node
