import MintSale.Ledger
import MintSale.MediaType
import MintSale.Sale.Director

/-!
# The host's interface

A sale over HTTP: what a request is answered with, and the event that it sends to the sale, if any.
-/

namespace MintSale.Host

/-- A request, as far as it matters. -/
structure Request where
  method : String
  /-- The path with whatever stands around it. -/
  target : String
  contentType : Option String
  body : String

/-- A response. -/
structure Response where
  status : Nat
  /-- The methods that are allowed, when another one was used. -/
  allow : Option String
  /-- The body, when it is JSON. -/
  body : Option Json

/-- What requests are answered from. -/
structure View where
  snapshot : Sale.Snapshot
  /-- Whether the sale still takes events. -/
  isOpen : Bool
  purchases : List PurchaseRow

/-- The version of the interface. -/
def version : String := "0.1.0"

/-! ## Responses -/

/-- A response with a body. -/
def Response.json (status : Nat) (body : Json) : Response :=
  ⟨status, none, some body⟩

/-- A response without a body. -/
def Response.bare (status : Nat) : Response :=
  ⟨status, none, none⟩

/-- A response that says what is wrong. -/
def Response.problem (status : Nat) (text : String) : Response :=
  .json status (.record [("error", .text text)])

/-- The response to a request that the sale will deal with. -/
def Response.accepted : Response :=
  .json 202 (.record [("status", .text "accepted")])

/-- A recorded purchase, as it is listed. -/
def rowJson (row : PurchaseRow) : Json :=
  .record
    [("id", .nat row.id),
     ("project_id", .text row.projectId),
     ("tx_hash", .text row.txHash),
     ("purchase_to", .text row.purchaseTo),
     ("status", .text row.status.name),
     ("block_number", (row.blockNumber.map fun n => Json.int n.toInt).getD .null),
     ("created_at", .text row.createdAt),
     ("updated_at", .text row.updatedAt)]

/-! ## Bodies -/

/-- How many bytes a body may have. -/
def bodyLimit : Nat := 2 * 1024 * 1024

/-- Reads the value that a body starts with, or says why it cannot: the body must be JSON by its
media type, not too long, and then JSON of the right shape. -/
def readBody {α : Type} (codec : Codec α) (r : Request) : Except Nat α :=
  let mediaType := r.contentType.bind MediaType.ofText?
  if !mediaType.any MediaType.isJson then .error 415
  else if bodyLimit < r.body.utf8ByteSize then .error 413
  else match codec.decodeStart r.body with
    | .ok a => .ok a
    | .error .malformed => .error 400
    | .error .mismatch => .error 422

/-! ## Resources -/

/-- Something that a path names. -/
inductive Resource where
  | health
  | sale
  | purchase
  | reset
  | purchases
  deriving DecidableEq

/-- The resource that a path names. -/
def Resource.ofPath? : String → Option Resource
  | "/health" => some .health
  | "/sale" => some .sale
  | "/sale/purchase" => some .purchase
  | "/sale/purchase/reset" => some .reset
  | "/purchases" => some .purchases
  | _ => none

/-- Whether the resource is read; otherwise it is posted to. -/
def Resource.isRead : Resource → Bool
  | .health | .sale | .purchases => true
  | .purchase | .reset => false

/-- What a resource that is read says. -/
def readResource (v : View) : Resource → Json
  | .health => .record [("status", .text "ok"), ("version", .text version)]
  | .sale => Sale.Snapshot.codec.write v.snapshot
  | .purchases =>
    .record
      [("count", .nat v.purchases.length), ("purchases", .array (v.purchases.map rowJson))]
  | .purchase | .reset => .null

/-- Sends an event to the sale, if it still takes any. -/
def send (v : View) (event : Sale.Event) : Response × Option Sale.Event :=
  if v.isOpen then (.accepted, some event)
  else (.problem 503 "Sale manager has stopped", none)

/-- Whether the sale is ready for a purchase, as far as can be seen. -/
def View.isReadyForPurchase (v : View) : Bool :=
  v.snapshot.purchase.any fun purchase => purchase.phase = .readyForPurchase

/-- A purchase. It is taken only while the sale is ready for one. -/
def postPurchase (v : View) (r : Request) : Response × Option Sale.Event :=
  match readBody PurchaseRequest.codec r with
  | .error status => (.bare status, none)
  | .ok request =>
    if v.isReadyForPurchase then send v (.command (.purchase request))
    else
      let phase := v.snapshot.phase.name
      (.problem 409 s!"Sale is not ready for a purchase (phase: {phase})", none)

/-- A reset. It is taken only while there is a checkout. -/
def postReset (v : View) : Response × Option Sale.Event :=
  if v.snapshot.purchase.isNone then (.problem 409 "No purchase in progress", none)
  else send v (.command .reset)

/-- The text before the first query or fragment. -/
def beforeQuery (cs : List Char) : List Char :=
  cs.takeWhile fun c => c != '?' && c != '#'

/-- The characters of a scheme. -/
def isSchemeChar (c : Char) : Bool :=
  c.isAlphanum || c == '+' || c == '-' || c == '.'

/-- The path of a target: its own start, or what follows the scheme and the authority, where an
empty path is the root. A target of any other form has none. -/
def path? (target : String) : Option String :=
  match target.toList with
  | '/' :: rest => some (String.ofList ('/' :: beforeQuery rest))
  | cs =>
    match cs.dropWhile isSchemeChar with
    | ':' :: '/' :: '/' :: rest =>
      let path := (beforeQuery rest).dropWhile (· != '/')
      some (if path.isEmpty then "/" else String.ofList path)
    | _ => none

/-- Answers a request. -/
def respond (v : View) (r : Request) : Response × Option Sale.Event :=
  match (path? r.target).bind Resource.ofPath? with
  | none => (.bare 404, none)
  | some resource =>
    if resource.isRead then
      if r.method = "GET" then (.json 200 (readResource v resource), none)
      else if r.method = "HEAD" then (.bare 200, none)
      else (⟨405, some "GET,HEAD", none⟩, none)
    else if r.method = "POST" then
      match resource with
      | .purchase => postPurchase v r
      | _ => postReset v
    else (⟨405, some "POST", none⟩, none)

end MintSale.Host
