import MintSale.LiveSale

/-!
# Minters

The kinds of minter contract that a sale can buy from, told by the name of the contract's type, and
the conditions under which a wallet may buy.
-/

namespace MintSale

/-- A kind of minter contract. -/
inductive MinterKind where
  | setPrice
  | setPriceErc20
  | daExp
  | daLin
  | daExpSettlement
  | merkle
  | holder
  deriving DecidableEq

/-! ## Names of minter types -/

namespace MinterType

/-- The names that are known, without their version. -/
def known : List (String × MinterKind) :=
  [("MinterSetPrice", .setPrice),
   ("MinterSetPriceERC20", .setPriceErc20),
   ("MinterDAExp", .daExp),
   ("MinterDALin", .daLin),
   ("MinterDAExpSettlement", .daExpSettlement),
   ("MinterSetPriceMerkle", .merkle),
   ("MinterMerkle", .merkle),
   ("MinterSetPriceHolder", .holder),
   ("MinterHolder", .holder)]

/-- Drops the decimal digits at the start of a reversed name, and then one `V`. -/
def dropVersion (reversed : List Char) : List Char :=
  match reversed.dropWhile Char.isDigit with
  | 'V' :: rest => rest
  | rest => rest

/-- The name without its version: digits at the end, and one `V` before them. -/
def base (minterType : String) : String :=
  String.ofList (dropVersion minterType.toList.reverse).reverse

/-- The kind of minter that a type names. -/
def classify (minterType : String) : Option MinterKind :=
  known.lookup (base minterType)

end MinterType

/-! ## Support -/

/-- Whether the minter of a project can be used for its sale. -/
inductive MinterSupport where
  | supported (kind : MinterKind)
  | notAssigned
  | unsupported (minterType : String)
  deriving DecidableEq

/-- The support for a project's minter. -/
def Project.support (p : Project) : MinterSupport :=
  match p.minter with
  | none => .notAssigned
  | some minter =>
    match MinterType.classify minter.minterType with
    | some kind => .supported kind
    | none => .unsupported minter.minterType

/-- Why a minter cannot be used. -/
def MinterSupport.objection : MinterSupport → Option String
  | .supported _ => none
  | .notAssigned => some "Project has no minter assigned"
  | .unsupported minterType =>
    some s!"Minter type {minterType} is not supported for primary sales"

/-- Why a project can never be sold through its minter. -/
def Project.objection (p : Project) : Option String :=
  p.support.objection

/-- Whether a project can be sold through its minter. -/
def Project.isEligible (p : Project) : Bool :=
  p.objection.isNone

/-! ## Conditions for buying -/

/-- A project is complete by its own word or by the chain's. -/
def Project.isComplete (p : Project) (live : Option LiveSaleData) : Bool :=
  p.complete || live.any fun data => data.completedAt.isSome

/-- Whether an account may buy now: the data has been read, the project can be sold and is not
complete, only the artist buys while the sale is paused, and the start time has come. -/
def isPurchasable (project : Option Project) (live : Option LiveSaleData)
    (account : Option Address) (now : Timestamp) : Bool :=
  match project, live, account with
  | some project, some live, some account =>
    !project.isComplete (some live) && project.isEligible &&
      (!live.paused || account == project.artist) &&
      project.startTime.all fun start => !now.isBefore start
  | _, _, _ => false

end MintSale
