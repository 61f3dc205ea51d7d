import MintSale.Checkout.State
import MintSale.Format.Scalars

/-!
# Written forms of purchases
-/

namespace MintSale

/-! ## Tokens -/

/-- Owned tokens as records. -/
def OwnedToken.codec : Codec OwnedToken :=
  Fields.codec
    (.cons (.required "contractAddress" Octets.codec) <|
      .cons (.required "tokenId" Amount.codec) <|
      .cons (.required "owner" Octets.codec) <|
      .cons (.required "projectId" .string) .nil)
    (fun t => (t.contract, t.tokenId, t.owner, t.projectId, ()))
    (fun (contract, tokenId, owner, projectId, ()) => ⟨contract, tokenId, owner, projectId⟩)

/-- Holder tokens as records. -/
def HolderToken.codec : Codec HolderToken :=
  Fields.codec
    (.cons (.required "contractAddress" Octets.codec) <|
      .cons (.required "tokenId" Amount.codec) <|
      .cons (.optional "vault" Octets.codec) .nil)
    (fun t => (t.contract, t.tokenId, t.vault, ()))
    (fun (contract, tokenId, vault, ()) => ⟨contract, tokenId, vault⟩)

/-! ## Eligibility -/

namespace EligibilityDetails

/-- The key under which the kind of the details stands. -/
def tag : String := "kind"

/-- A kind of details. -/
inductive Kind where
  | open
  | allowlisted
  | holder
  | erc20
  deriving DecidableEq

/-- The name of a kind. -/
def Kind.name : Kind → String
  | .open => "open"
  | .allowlisted => "allowlisted"
  | .holder => "holder"
  | .erc20 => "erc20"

/-- The kind with a name. -/
def Kind.ofName? (s : String) : Option Kind :=
  [Kind.open, .allowlisted, .holder, .erc20].find? fun kind => kind.name == s

/-- The fields of allowlisted details. -/
def allowlistedFields : Fields [List Hash, Option UInt64] :=
  .cons (.required "proof" Octets.codec.list) <|
    .cons (.optional "mintsRemaining" .uint64) .nil

/-- The fields of holder details. -/
def holderFields : Fields [List HolderToken] :=
  .cons (.required "tokens" HolderToken.codec.list) .nil

/-- The fields of currency details. -/
def erc20Fields : Fields [Address, Amount, Amount, UInt8] :=
  .cons (.required "currencyAddress" Octets.codec) <|
    .cons (.required "balance" Amount.codec) <|
    .cons (.required "allowance" Amount.codec) <|
    .cons (.required "decimals" .uint8) .nil

/-- The kind and the fields, as members. -/
def members : EligibilityDetails → List (String × Json)
  | .open => [(tag, .text Kind.open.name)]
  | .allowlisted proof mintsRemaining =>
    (tag, .text Kind.allowlisted.name) :: allowlistedFields.members (proof, mintsRemaining, ())
  | .holder tokens => (tag, .text Kind.holder.name) :: holderFields.members (tokens, ())
  | .erc20 currency balance allowance decimals =>
    (tag, .text Kind.erc20.name) ::
      erc20Fields.members (currency, balance, allowance, decimals, ())

/-- Reads a kind. -/
def readKind (j : Json) : Except Json.Fault Kind :=
  match j with
  | .string (some s) =>
    match Kind.ofName? s with
    | some kind => .ok kind
    | none => .error .mismatch
  | j => .error j.unwanted

/-- Goes through the members of an object for its kind, and holds all others. -/
def kindOf (room : Nat) :
    List (Option String × Json) → Option Kind → Except Json.Fault Kind
  | [], none => .error .mismatch
  | [], some kind => .ok kind
  | (none, _) :: _, _ => .error .malformed
  | (some key, value) :: rest, found =>
    if key = tag then
      match found with
      | some _ => .error .mismatch
      | none => do
        let kind ← readKind value
        kindOf room rest (some kind)
    else do
      value.hold room
      kindOf room rest found

/-- The members other than the kind. -/
def withoutKind (members : List (Option String × Json)) : List (Option String × Json) :=
  members.filter fun member => member.1 != some tag

/-- Reads the details of a kind from a record without its kind. -/
def readAs (kind : Kind) (content : Json) : Except Json.Fault EligibilityDetails :=
  match kind with
  | .open =>
    match content with
    | .array (_ :: _) => .error .mismatch
    | _ => .ok .open
  | .allowlisted => do
    let (proof, mintsRemaining, ()) ← allowlistedFields.read Codec.levels content
    .ok (.allowlisted proof mintsRemaining)
  | .holder => do
    let (tokens, ()) ← holderFields.read Codec.levels content
    .ok (.holder tokens)
  | .erc20 => do
    let (currency, balance, allowance, decimals, ()) ← erc20Fields.read Codec.levels content
    .ok (.erc20 currency balance allowance decimals)

/-- Details as records with their kind in front. It may stand anywhere in an object that is read,
and is the first item of an array. -/
def codec : Codec EligibilityDetails where
  write details := .record details.members
  read room j :=
    match j with
    | .object members => do
      let room ← Json.descend room
      let kind ← kindOf room members none
      readAs kind (.object (withoutKind members))
    | .array items => do
      let room ← Json.descend room
      match items with
      | [] => .error .mismatch
      | item :: rest => do
        let kind ← readKind item
        Json.holdItems room rest
        readAs kind (.array rest)
    | j => .error j.unwanted

end EligibilityDetails

/-! ## Requests and states -/

/-- Additional data as records. -/
def AdditionalPurchaseData.codec : Codec AdditionalPurchaseData :=
  Fields.codec
    (.cons (.optional "holderToken" HolderToken.codec) .nil)
    (fun d => (d.holderToken, ()))
    (fun (holderToken, ()) => ⟨holderToken⟩)

/-- Requests as records, all of whose fields may be missing. -/
def PurchaseRequest.codec : Codec PurchaseRequest :=
  Fields.codec
    (.cons (.withDefault "purchaseTo" Octets.codec.option none) <|
      .cons (.withDefault "additionalPurchaseData" AdditionalPurchaseData.codec.option none) .nil)
    (fun r => (r.purchaseTo, r.additional, ()))
    (fun (purchaseTo, additional, ()) => ⟨purchaseTo, additional⟩)

/-- Phases as names. -/
def PurchasePhase.codec : Codec PurchasePhase :=
  .name
    [(.checkingEligibility, "checkingEligibility"),
     (.readyForPurchase, "readyForPurchase"),
     (.initiatingPurchase, "initiatingPurchase"),
     (.userIneligible, "userIneligibleForPurchase"),
     (.error, "error")]

/-- States of a checkout as records. -/
def PurchaseState.codec : Codec PurchaseState :=
  Fields.codec
    (.cons (.required "phase" PurchasePhase.codec) <|
      .cons (.optional "eligibility" EligibilityDetails.codec) <|
      .cons (.optional "userIneligibilityReason" .string) <|
      .cons (.optional "errorMessage" .string) <|
      .cons (.optional "purchaseToAddress" Octets.codec) <|
      .cons (.optional "additionalPurchaseData" AdditionalPurchaseData.codec) <|
      .cons (.optional "lastTxHash" Octets.codec) .nil)
    (fun s => (s.phase, s.eligibility, s.ineligibleReason, s.errorMessage, s.purchaseTo,
      s.additional, s.lastTxHash, ()))
    (fun (phase, eligibility, ineligibleReason, errorMessage, purchaseTo, additional, lastTxHash,
        ()) =>
      ⟨phase, eligibility, ineligibleReason, errorMessage, purchaseTo, additional, lastTxHash⟩)

end MintSale
