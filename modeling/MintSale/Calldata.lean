import MintSale.Amount
import MintSale.Keccak

/-!
# Call data

Calls of contract methods. A call is the method's selector and then its arguments: one word for
each, in order, and behind them the arrays. The word of an array is the offset of its region, which
is its length and its items.
-/

namespace MintSale

/-! ## Arguments -/

/-- The type of an argument. -/
inductive ArgumentType where
  | address
  | uint
  | hashes
  deriving DecidableEq

/-- How a signature names the type. -/
def ArgumentType.name : ArgumentType → String
  | .address => "address"
  | .uint => "uint256"
  | .hashes => "bytes32[]"

/-- An argument of a call. -/
inductive Argument where
  | address (a : Address)
  | uint (n : Amount)
  | hashes (items : List Hash)
  deriving DecidableEq

namespace Argument

/-- The type of an argument. -/
def type : Argument → ArgumentType
  | .address _ => .address
  | .uint _ => .uint
  | .hashes _ => .hashes

/-- An address in the low bytes of a word. -/
def addressWord (a : Address) : Word :=
  ⟨List.replicate 12 0 ++ a.toList, by simp [a.length_toList]⟩

/-- The words of an array's region; other arguments have none. -/
def region : Argument → List Word
  | .hashes items => Octets.ofNat 32 items.length :: items
  | _ => []

/-- The word at an argument's own place, when its region would start at word `next`. -/
def head (next : Nat) : Argument → Word
  | .address a => addressWord a
  | .uint n => Octets.ofNat 32 n.toNat
  | .hashes _ => Octets.ofNat 32 (32 * next)

end Argument

/-! ## Encoding -/

namespace Calldata

/-- The words at the arguments' places, when the first free region starts at word `next`. -/
def heads : (next : Nat) → List Argument → List Word
  | _, [] => []
  | next, a :: rest => a.head next :: heads (next + a.region.length) rest

/-- All words of the arguments. -/
def words (args : List Argument) : List Word :=
  heads args.length args ++ args.flatMap Argument.region

/-- The bytes of the arguments. -/
def encode (args : List Argument) : List UInt8 :=
  (words args).flatMap Octets.toList

/-- The first four bytes of a signature's hash. -/
def selector (signature : String) : List UInt8 :=
  (Keccak.hash signature.toUTF8.toList).toList.take 4

end Calldata

/-! ## Methods -/

/-- A contract method: its name and the types of its arguments. -/
structure Method where
  name : String
  types : List ArgumentType
  deriving DecidableEq

namespace Method

/-- The name and, in brackets, the types. -/
def signature (m : Method) : String :=
  m.name ++ "(" ++ ",".intercalate (m.types.map ArgumentType.name) ++ ")"

/-- The data of a call of the method. -/
def call (m : Method) (args : List Argument) : List UInt8 :=
  Calldata.selector m.signature ++ Calldata.encode args

/-- Buys a token for the sender. -/
def purchase : Method := ⟨"purchase", [.uint, .address]⟩

/-- Buys a token for somebody. -/
def purchaseTo : Method := ⟨"purchaseTo", [.address, .uint, .address]⟩

/-- Buys a token with a proof of being on the allowlist. -/
def purchaseWithProof : Method := ⟨"purchaseTo", [.address, .uint, .address, .hashes]⟩

/-- Buys a token as the holder of another. -/
def purchaseAsHolder : Method := ⟨"purchaseTo", [.address, .uint, .address, .address, .uint]⟩

/-- Buys a token on the strength of another that a vault holds. -/
def purchaseForVault : Method :=
  ⟨"purchaseTo", [.address, .uint, .address, .address, .uint, .address]⟩

/-- Buys a token for a price in a currency. -/
def purchaseInCurrency : Method := ⟨"purchaseTo", [.address, .uint, .address, .uint, .address]⟩

/-- Lets a contract spend an amount of a currency. -/
def approve : Method := ⟨"approve", [.address, .uint]⟩

/-- Asks a minter for the price of a project. -/
def priceInfo : Method := ⟨"getPriceInfo", [.uint, .address]⟩

/-- Asks a core contract for the state of a project. -/
def projectState : Method := ⟨"projectStateData", [.uint]⟩

/-- Asks a minter how often an account may still mint. -/
def mintsRemaining : Method :=
  ⟨"projectRemainingInvocationsForAddress", [.uint, .address, .address]⟩

/-- Asks a currency for a balance. -/
def balanceOf : Method := ⟨"balanceOf", [.address]⟩

/-- Asks a currency how much of an owner's balance somebody may spend. -/
def allowance : Method := ⟨"allowance", [.address, .address]⟩

/-- Asks a currency for the number of its decimals. -/
def decimals : Method := ⟨"decimals", []⟩

end Method

end MintSale
