import MintSale.Checkout.State
import MintSale.Fault
import MintSale.Format.Project
import MintSale.Wire.Peer

/-!
# The catalogue of projects

What is asked of the catalogue, which speaks GraphQL: projects, allowlists, owners of tokens, and
vaults.
-/

namespace MintSale.Wire.Catalog

/-! ## Questions -/

/-- A text of lines that also starts and ends with a line break. -/
def lines (ls : List String) : String :=
  "\n".intercalate ("" :: ls ++ [""])

/-- Asks for a project. -/
def projectQuery : String := lines
  ["query GetProject($id: String!) \x7b",
   "  projects_metadata_by_pk(id: $id) \x7b",
   "    id",
   "    project_id",
   "    contract_address",
   "    artist_address",
   "    name",
   "    complete",
   "    auction_start_time",
   "    auction_end_time",
   "    currency_symbol",
   "    currency_address",
   "    minter_configuration \x7b",
   "      merkle_root",
   "      allowlisted_projects",
   "      minter \x7b address minter_type \x7d",
   "    \x7d",
   "  \x7d",
   "\x7d"]

/-- Asks for the allowlist of a project. -/
def allowlistQuery : String := lines
  ["query GetAllowlist($projectId: String!) \x7b",
   "  minter_allowlist_addresses(where: \x7b project_id: \x7b _eq: $projectId \x7d \x7d) \x7b",
   "    address",
   "  \x7d",
   "\x7d"]

/-- Asks for the tokens of owners. -/
def ownedTokensQuery : String := lines
  ["query GetOwnedTokens($owners: [String!]!, $projectIds: [String!]!) \x7b",
   "  tokens_metadata(",
   "    where: \x7b owner_address: \x7b _in: $owners \x7d, " ++
     "project_id: \x7b _in: $projectIds \x7d \x7d",
   "    order_by: \x7b invocation: asc \x7d",
   "  ) \x7b",
   "    contract_address",
   "    token_id",
   "    owner_address",
   "    project_id",
   "  \x7d",
   "\x7d"]

/-- Asks for the vaults that have delegated to an account. -/
def vaultsQuery : String := lines
  ["query GetVaults($delegate: String!) \x7b",
   "  delegations(where: \x7b delegate: \x7b _eq: $delegate \x7d \x7d) \x7b",
   "    vault",
   "  \x7d",
   "\x7d"]

/-! ## Replies -/

/-- A reply: data, the texts of errors, both or neither. -/
structure Reply (α : Type) where
  data : Option α
  errors : Option (List String)
  deriving DecidableEq

/-- The text of an error, as a record. -/
def errorCodec : Codec String :=
  Fields.codec (.cons (.required "message" .string) .nil) (fun m => (m, ()))
    (fun (m, ()) => m)

/-- Replies as records. -/
def Reply.codec {α : Type} (c : Codec α) : Codec (Reply α) :=
  Fields.codec
    (.cons (.optional "data" c) <| .cons (.optional "errors" errorCodec.list) .nil)
    (fun r => (r.data, r.errors, ()))
    (fun (data, errors, ()) => ⟨data, errors⟩)

/-- The data of a reply without errors. -/
def Reply.get {α : Type} : Reply α → Except Fault α
  | ⟨_, some (e :: es)⟩ => .error (.catalog (.reported ("; ".intercalate (e :: es))))
  | ⟨some data, _⟩ => .ok data
  | ⟨none, _⟩ => .error (.catalog .noData)

/-- Whether a status tells of a failure, of the client or of the server. -/
def isFailure (status : Nat) : Bool :=
  400 ≤ status && status < 600

/-- What an answer comes to. -/
def interpret {α : Type} (c : Codec α) : Option (Nat × String) → Except Fault α
  | none => .error .transport
  | some (status, body) =>
    if isFailure status then .error .transport
    else match (Reply.codec c).decode body with
      | .error _ => .error .transport
      | .ok reply => reply.get

/-- Posts a question with the values of its variables. -/
def query {α : Type} (apiKey : Option String) (c : Codec α) (question : String)
    (values : List (String × Json)) (p : Peer) : Except Fault α × Peer :=
  let body : Json := .record [("query", .text question), ("variables", .record values)]
  let (answer, p) := p.post ⟨apiKey, body⟩
  (interpret c answer, p)

/-! ## Projects -/

/-- A minter as the catalogue has it: its address and the name of its type. -/
abbrev MinterRecord := Address × String

/-- Minters as records. -/
def minterCodec : Codec MinterRecord :=
  Fields.codec
    (.cons (.required "address" Octets.codec) <| .cons (.required "minter_type" .string) .nil)
    (fun m => (m.1, m.2, ()))
    (fun (address, minterType, ()) => (address, minterType))

/-- How a project is sold, as the catalogue has it. -/
structure ConfigurationRecord where
  merkleRoot : Option Hash
  allowlistedProjects : Option (List String)
  minter : Option MinterRecord
  deriving DecidableEq

/-- Configurations as records. -/
def ConfigurationRecord.codec : Codec ConfigurationRecord :=
  Fields.codec
    (.cons (.optional "merkle_root" Octets.codec) <|
      .cons (.withDefault "allowlisted_projects" Codec.string.list.option none) <|
      .cons (.optional "minter" minterCodec) .nil)
    (fun c => (c.merkleRoot, c.allowlistedProjects, c.minter, ()))
    (fun (merkleRoot, allowlistedProjects, minter, ()) =>
      ⟨merkleRoot, allowlistedProjects, minter⟩)

/-- A project as the catalogue has it. -/
structure ProjectRecord where
  id : String
  index : String
  core : Address
  artist : Address
  name : String
  complete : Bool
  startTime : Option Timestamp
  endTime : Option Timestamp
  currencySymbol : Option String
  currencyAddress : Option Address
  configuration : Option ConfigurationRecord
  deriving DecidableEq

/-- Projects as records. -/
def ProjectRecord.codec : Codec ProjectRecord :=
  Fields.codec
    (.cons (.required "id" .string) <|
      .cons (.required "project_id" .string) <|
      .cons (.required "contract_address" Octets.codec) <|
      .cons (.required "artist_address" Octets.codec) <|
      .cons (.required "name" .string) <|
      .cons (.required "complete" .bool) <|
      .cons (.optional "auction_start_time" Timestamp.codec) <|
      .cons (.optional "auction_end_time" Timestamp.codec) <|
      .cons (.optional "currency_symbol" .string) <|
      .cons (.optional "currency_address" Octets.codec) <|
      .cons (.optional "minter_configuration" ConfigurationRecord.codec) .nil)
    (fun p => (p.id, p.index, p.core, p.artist, p.name, p.complete, p.startTime, p.endTime,
      p.currencySymbol, p.currencyAddress, p.configuration, ()))
    (fun (id, index, core, artist, name, complete, startTime, endTime, currencySymbol,
        currencyAddress, configuration, ()) =>
      ⟨id, index, core, artist, name, complete, startTime, endTime, currencySymbol,
        currencyAddress, configuration⟩)

namespace ProjectRecord

/-- The minter, if one is assigned. -/
def minter? (p : ProjectRecord) : Option MinterConfiguration := do
  let configuration ← p.configuration
  let (address, minterType) ← configuration.minter
  some ⟨address, minterType, configuration.merkleRoot,
    configuration.allowlistedProjects.getD []⟩

/-- The currency. Without a symbol it is the chain's own. -/
def currency (p : ProjectRecord) : Currency :=
  match p.currencySymbol with
  | some symbol => ⟨symbol, p.currencyAddress⟩
  | none => .native

/-- The project, whose index must be a number. -/
def toProject (p : ProjectRecord) : Except Fault Project :=
  match Numeral.decimal? UInt64.size p.index.toList with
  | none => .error (.catalog (.badProjectIndex p.index))
  | some index => .ok {
      id := p.id
      index := UInt64.ofNat index
      core := p.core
      artist := p.artist
      name := p.name
      complete := p.complete
      startTime := p.startTime
      endTime := p.endTime
      currency := p.currency
      minter := p.minter? }

end ProjectRecord

/-- The data about a project: the project, if there is one. -/
def projectData : Codec (Option ProjectRecord) :=
  Fields.codec (.cons (.optional "projects_metadata_by_pk" ProjectRecord.codec) .nil)
    (fun p => (p, ())) (fun (p, ()) => p)

/-- The project with an id. -/
def project (apiKey : Option String) (id : String) (p : Peer) : Except Fault Project × Peer :=
  let (data, p) := query apiKey projectData projectQuery [("id", .text id)] p
  let answer : Except Fault Project := do
    match ← data with
    | some record => record.toProject
    | none => .error (.projectNotFound id)
  (answer, p)

/-! ## Addresses and tokens -/

/-- Records with a single address. -/
def addressRecord (key : String) : Codec Address :=
  Fields.codec (.cons (.required key Octets.codec) .nil) (fun a => (a, ())) (fun (a, ()) => a)

/-- Data that is a list. -/
def listData {α : Type} (key : String) (c : Codec α) : Codec (List α) :=
  Fields.codec (.cons (.required key c.list) .nil) (fun as => (as, ())) (fun (as, ()) => as)

/-- The addresses on the allowlist of a project. -/
def allowlist (apiKey : Option String) (project : Project) :
    Peer → Except Fault (List Address) × Peer :=
  query apiKey (listData "minter_allowlist_addresses" (addressRecord "address")) allowlistQuery
    [("projectId", .text project.id)]

/-- The vaults that have delegated to an account. -/
def vaults (apiKey : Option String) (delegate : Address) :
    Peer → Except Fault (List Address) × Peer :=
  query apiKey (listData "delegations" (addressRecord "vault")) vaultsQuery
    [("delegate", Octets.codec.write delegate)]

/-- A token as the catalogue has it. -/
structure TokenRecord where
  contract : Address
  tokenId : String
  owner : Address
  projectId : String

/-- Tokens as records. -/
def TokenRecord.codec : Codec TokenRecord :=
  Fields.codec
    (.cons (.required "contract_address" Octets.codec) <|
      .cons (.required "token_id" .string) <|
      .cons (.required "owner_address" Octets.codec) <|
      .cons (.required "project_id" .string) .nil)
    (fun t => (t.contract, t.tokenId, t.owner, t.projectId, ()))
    (fun (contract, tokenId, owner, projectId, ()) => ⟨contract, tokenId, owner, projectId⟩)

/-- The token, whose id must be a number. -/
def TokenRecord.toToken (t : TokenRecord) : Except Fault OwnedToken :=
  match Amount.ofText? t.tokenId with
  | some tokenId => .ok ⟨t.contract, tokenId, t.owner, t.projectId⟩
  | none => .error (.catalog (.badTokenId t.tokenId))

/-- The tokens of owners that belong to projects. -/
def ownedTokens (apiKey : Option String) (owners : List Address) (projectIds : List String)
    (p : Peer) : Except Fault (List OwnedToken) × Peer :=
  let (data, p) := query apiKey (listData "tokens_metadata" TokenRecord.codec) ownedTokensQuery
    [("owners", .array (owners.map Octets.codec.write)),
     ("projectIds", .array (projectIds.map .text))] p
  let answer : Except Fault (List OwnedToken) := do
    (← data).mapM TokenRecord.toToken
  (answer, p)

end MintSale.Wire.Catalog
