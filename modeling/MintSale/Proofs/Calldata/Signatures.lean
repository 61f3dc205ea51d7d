import Mathlib.Data.List.Nodup
import MintSale.Proofs.Calldata.Reading
import MintSale.Proofs.Keccak

/-!
# Calls, read back

A call begins with the first four bytes of its signature's hash. The signatures of the calls that
purchases consist of differ in these bytes. So whoever has a list of these signatures finds out
which of them a call has, and reads its arguments as the types that this signature names.
-/

namespace MintSale.Calldata

/-! ## Signatures -/

/-- The type with a name. -/
def typeNamed? : String → Option ArgumentType
  | "address" => some .address
  | "uint256" => some .uint
  | "bytes32[]" => some .hashes
  | _ => none

/-- The types that a signature names between its brackets. -/
def typesOf? (signature : String) : Option (List ArgumentType) :=
  let names := ((signature.toList.dropWhile (· ≠ '(')).drop 1).takeWhile (· ≠ ')')
  if names = [] then some []
  else (names.splitOn ',').mapM fun name => typeNamed? (String.ofList name)

/-- The signatures of all calls that purchases consist of. -/
def signatures : List String :=
  ["purchase(uint256,address)",
   "purchaseTo(address,uint256,address)",
   "purchaseTo(address,uint256,address,bytes32[])",
   "purchaseTo(address,uint256,address,address,uint256)",
   "purchaseTo(address,uint256,address,address,uint256,address)",
   "purchaseTo(address,uint256,address,uint256,address)",
   "approve(address,uint256)"]

/-- The methods with these signatures. -/
def purchaseMethods : List Method :=
  [.purchase, .purchaseTo, .purchaseWithProof, .purchaseAsHolder, .purchaseForVault,
   .purchaseInCurrency, .approve]

theorem selectors_eq : signatures.map selector =
    [[0xae, 0x77, 0xc2, 0x37], [0x4e, 0x8d, 0x87, 0x87], [0x14, 0x67, 0xb1, 0xf7],
     [0x9d, 0x92, 0x3d, 0xff], [0x19, 0xd2, 0x9d, 0x7e], [0x28, 0xc5, 0xc4, 0xe5],
     [0x09, 0x5e, 0xa7, 0xb3]] := by
  have hshort : ∀ signature ∈ signatures, signature.toUTF8.toList.length < Keccak.rate := by
    decide +kernel
  have hselectors : signatures.map selector =
      signatures.map fun signature => (Keccak.shortDigest signature.toUTF8.toList).take 4 :=
    List.map_congr_left fun signature hmem =>
      congrArg (List.take 4) (Keccak.toList_hash_of_lt (hshort signature hmem))
  rw [hselectors]
  decide +kernel

theorem signature_mem : ∀ m ∈ purchaseMethods,
    m.signature ∈ signatures ∧ typesOf? m.signature = some m.types := by
  decide

/-! ## Calls -/

/-- Reads a call: its signature, which is the one of the list that it starts with, and arguments of
the types that this signature names. -/
def readCall? (data : List UInt8) : Option (String × List Argument) := do
  let signature ← signatures.find? fun signature => selector signature = data.take 4
  let types ← typesOf? signature
  let args ← read? types (data.drop 4)
  some (signature, args)

/-- No two signatures of the list have the same selector. -/
theorem find?_selector {signature : String} (h : signature ∈ signatures) :
    (signatures.find? fun other => selector other = selector signature) = some signature := by
  have hnodup : (signatures.map selector).Nodup := by
    rw [selectors_eq]
    decide
  cases hfind : signatures.find? fun other => selector other = selector signature with
  | none =>
      have hnone := List.find?_eq_none.mp hfind signature h
      simp at hnone
  | some other =>
      have hsame : selector other = selector signature := by simpa using List.find?_some hfind
      rw [List.inj_on_of_nodup_map hnodup (List.mem_of_find?_eq_some hfind) h hsame]

/-- A call of one of these methods with arguments of its types is read back. -/
theorem readCall?_call {m : Method} (hm : m ∈ purchaseMethods) {args : List Argument}
    (htypes : args.map Argument.type = m.types) (hfits : (encode args).length < 256 ^ 32) :
    readCall? (m.call args) = some (m.signature, args) := by
  obtain ⟨hmem, hnamed⟩ := signature_mem m hm
  have htake : (m.call args).take 4 = selector m.signature :=
    List.take_left' (length_selector _)
  have hdrop : (m.call args).drop 4 = encode args := List.drop_left' (length_selector _)
  have hread := read?_encode hfits
  rw [htypes] at hread
  simp [readCall?, htake, hdrop, find?_selector hmem, hnamed, hread]

end MintSale.Calldata
