import MintSale.Format.Checkout
import MintSale.Proofs.Json.Codec
import MintSale.Proofs.Timestamp.Text

/-!
# What the written forms of purchases keep

Every token, eligibility, request and state of a checkout is kept as it is.
-/

namespace MintSale

variable {depth : Nat}

/-! ## Single values -/

namespace Octets

variable {n : Nat}

theorem ofText?_toText (x : Octets n) : ofText? x.toText = some x := by
  simp [ofText?, toText, Hex.marked, Hex.dropAnyMark, Hex.decode?_encode, ofList?_toList]

theorem codec_keeps (x : Octets n) : codec.Keeps depth x :=
  Codec.through_keeps (Codec.string_keeps _) x.ofText?_toText

theorem codec_isSolid : (codec : Codec (Octets n)).IsSolid :=
  fun _ => nofun

end Octets

namespace Amount

theorem ofText?_toText (a : Amount) : ofText? a.toText = some a := by
  have hread := Numeral.decimal?_decimal a.toNat_lt
  rw [ofText?, toText, String.toList_ofList, hread]
  exact dif_pos a.toNat_lt

theorem codec_keeps (a : Amount) : codec.Keeps depth a := by
  refine ⟨.string _, fun room _ => ?_⟩
  have hread := a.ofText?_toText
  simp [codec, Json.text, Json.hold, hread]

end Amount

theorem Timestamp.codec_keeps {t : Timestamp} (h : t.IsProper) : codec.Keeps depth t :=
  Codec.through_keeps (Codec.string_keeps _) (ofText?_of_isProper h)

/-! ## Tokens -/

theorem OwnedToken.codec_keeps (t : OwnedToken) : codec.Keeps (depth + 1) t := by
  refine Fields.codec_keeps (by decide) ?_ rfl
  exact ⟨Octets.codec_keeps _, Amount.codec_keeps _, Octets.codec_keeps _, Codec.string_keeps _,
    trivial⟩

theorem HolderToken.codec_keeps (t : HolderToken) : codec.Keeps (depth + 1) t := by
  refine Fields.codec_keeps (by decide) ?_ rfl
  exact ⟨Octets.codec_keeps _, Amount.codec_keeps _,
    Codec.option_keeps Octets.codec_isSolid fun _ _ => Octets.codec_keeps _, trivial⟩

/-! ## Eligibility -/

namespace EligibilityDetails

theorem ofName?_name (kind : Kind) : Kind.ofName? kind.name = some kind := by
  cases kind <;> decide

theorem kindOf_marked {room : Nat} {content : List (String × Json)} {kind : Kind}
    (htag : ∀ member ∈ content, member.1 ≠ tag)
    (hhold : ∀ member ∈ content, member.2.hold room = .ok ()) :
    kindOf room (Json.marked content) (some kind) = .ok kind := by
  induction content with
  | nil => rfl
  | cons member content ih =>
      obtain ⟨key, value⟩ := member
      have hkey : key ≠ tag := htag (key, value) List.mem_cons_self
      have hvalue : value.hold room = .ok () := hhold (key, value) List.mem_cons_self
      have hrest := ih (fun x hx => htag x (List.mem_cons_of_mem _ hx))
        fun x hx => hhold x (List.mem_cons_of_mem _ hx)
      rw [Json.marked] at hrest
      simp [Json.marked, kindOf, hkey, hvalue, hrest]

theorem withoutKind_marked {content : List (String × Json)}
    (htag : ∀ member ∈ content, member.1 ≠ tag) :
    withoutKind (Json.marked content) = Json.marked content := by
  refine List.filter_eq_self.mpr fun member hmember => ?_
  obtain ⟨⟨key, value⟩, hmem, rfl⟩ := List.mem_map.mp hmember
  simpa using htag (key, value) hmem

/-- Details are read by the kind in front of them. -/
theorem read_record {room : Nat} (hroom : depth + 1 < room) {kind : Kind}
    {content : List (String × Json)} (htag : ∀ member ∈ content, member.1 ≠ tag)
    (hnests : ∀ member ∈ content, member.2.Nests depth) :
    codec.read room (.record ((tag, .text kind.name) :: content)) =
      readAs kind (.object (Json.marked content)) := by
  have hdescend : Json.descend room = .ok (room - 1) := if_neg (by omega)
  have hkind : kindOf (room - 1) (Json.marked content) (some kind) = .ok kind :=
    kindOf_marked htag fun member hmember => (hnests member hmember).hold (by omega)
  have hcontent : withoutKind ((some tag, .text kind.name) :: Json.marked content) =
      Json.marked content := by
    rw [← withoutKind_marked htag]
    simp [withoutKind]
  have hread : readKind (.text kind.name) = .ok kind := by
    simp [readKind, Json.text, ofName?_name]
  change (do
    let room ← Json.descend room
    let kind ← kindOf room ((some tag, .text kind.name) :: Json.marked content) none
    readAs kind (.object (withoutKind ((some tag, .text kind.name) :: Json.marked content)))) = _
  simp [hdescend, kindOf, hread, hkind, hcontent]

theorem allowlisted_keeps (proof : List Hash) (mintsRemaining : Option UInt64) :
    allowlistedFields.Keeps (depth + 1) (proof, mintsRemaining, ()) :=
  ⟨Codec.list_keeps fun _ _ => Octets.codec_keeps _,
    Codec.option_keeps Codec.uint64_isSolid fun _ _ => Codec.uint64_keeps _, trivial⟩

theorem holder_keeps (tokens : List HolderToken) :
    holderFields.Keeps (depth + 2) (tokens, ()) :=
  ⟨Codec.list_keeps fun _ _ => HolderToken.codec_keeps _, trivial⟩

theorem erc20_keeps (currency : Address) (balance allowance : Amount) (decimals : UInt8) :
    erc20Fields.Keeps depth (currency, balance, allowance, decimals, ()) :=
  ⟨Octets.codec_keeps _, Amount.codec_keeps _, Amount.codec_keeps _, Codec.uint8_keeps _, trivial⟩

theorem keeps_of_fields {types : List Type} {fields : Fields types} {row : Row types} {kind : Kind}
    {details : EligibilityDetails} (hkeys : tag ∉ fields.keys)
    (hmembers : details.members = (tag, .text kind.name) :: fields.members row)
    (hfields : fields.Keeps (depth + 2) row)
    (hread : readAs kind (.object (Json.marked (fields.members row))) = .ok details) :
    codec.Keeps (depth + 3) details := by
  have htag : ∀ member ∈ fields.members row, member.1 ≠ tag := by
    intro member hmember hsame
    exact hkeys (hsame ▸ Fields.key_of_mem_members hmember)
  have hnests := Fields.members_nests hfields
  have hwrite : codec.write details = .record ((tag, .text kind.name) :: fields.members row) :=
    congrArg Json.record hmembers
  constructor
  · rw [hwrite]
    refine Fields.record_nests fun member hmember => ?_
    rcases List.mem_cons.mp hmember with rfl | hmember
    · exact .string _
    · exact hnests member hmember
  · intro room hroom
    rw [hwrite, read_record hroom htag hnests, hread]

theorem codec_keeps (details : EligibilityDetails) : codec.Keeps (depth + 3) details := by
  -- The content is read with all the levels that a text may have, so any depth will do there.
  have hroom : 2 + 1 < Codec.levels := by decide
  cases details with
  | «open» =>
      have hnothing : Fields.nil.Keeps (depth + 2) () := trivial
      exact keeps_of_fields (by decide) rfl hnothing rfl
  | allowlisted proof mintsRemaining =>
      have hread := Fields.read_members hroom (by decide) (allowlisted_keeps proof mintsRemaining)
      refine keeps_of_fields (by decide) rfl (allowlisted_keeps proof mintsRemaining) ?_
      rw [readAs, hread]
      rfl
  | holder tokens =>
      have hread := Fields.read_members hroom (by decide) (holder_keeps tokens)
      refine keeps_of_fields (by decide) rfl (holder_keeps tokens) ?_
      rw [readAs, hread]
      rfl
  | erc20 currency balance allowance decimals =>
      have hread := Fields.read_members hroom (by decide)
        (erc20_keeps currency balance allowance decimals)
      refine keeps_of_fields (by decide) rfl (erc20_keeps currency balance allowance decimals) ?_
      rw [readAs, hread]
      rfl

theorem codec_isSolid : codec.IsSolid :=
  fun _ => nofun

end EligibilityDetails

/-! ## Requests and states -/

theorem AdditionalPurchaseData.codec_keeps (data : AdditionalPurchaseData) :
    codec.Keeps (depth + 2) data := by
  refine Fields.codec_keeps (by decide) ?_ rfl
  exact ⟨Codec.option_keeps Fields.codec_isSolid fun _ _ => HolderToken.codec_keeps _, trivial⟩

theorem PurchaseRequest.codec_keeps (request : PurchaseRequest) :
    codec.Keeps (depth + 3) request := by
  refine Fields.codec_keeps (by decide) ?_ rfl
  exact ⟨Codec.option_keeps Octets.codec_isSolid fun _ _ => Octets.codec_keeps _,
    Codec.option_keeps Fields.codec_isSolid fun _ _ => AdditionalPurchaseData.codec_keeps _,
    trivial⟩

theorem PurchasePhase.codec_keeps (phase : PurchasePhase) : codec.Keeps depth phase := by
  cases phase <;> exact Codec.name_keeps (by decide)

theorem PurchaseState.codec_keeps (state : PurchaseState) : codec.Keeps (depth + 4) state := by
  refine Fields.codec_keeps (by decide) ?_ rfl
  exact ⟨PurchasePhase.codec_keeps _,
    Codec.option_keeps EligibilityDetails.codec_isSolid fun _ _ =>
      EligibilityDetails.codec_keeps _,
    Codec.option_keeps Codec.string_isSolid fun _ _ => Codec.string_keeps _,
    Codec.option_keeps Codec.string_isSolid fun _ _ => Codec.string_keeps _,
    Codec.option_keeps Octets.codec_isSolid fun _ _ => Octets.codec_keeps _,
    Codec.option_keeps Fields.codec_isSolid fun _ _ => AdditionalPurchaseData.codec_keeps _,
    Codec.option_keeps Octets.codec_isSolid fun _ _ => Octets.codec_keeps _, trivial⟩

end MintSale
