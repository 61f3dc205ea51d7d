import MintSale.Format.Sale
import MintSale.Proofs.Format.Checkout

/-!
# What the written forms of sales keep

Every project and snapshot is kept as it is, as long as its dates are moments that universal time
has. Those that are read have no others.
-/

namespace MintSale

variable {depth : Nat}

/-! ## Projects -/

/-- The dates of a project are moments that universal time has, which are just those that their
written form gives back (`Timestamp.ofText?_toText_iff`). -/
def Project.HasProperDates (p : Project) : Prop :=
  ∀ t, p.startTime = some t ∨ p.endTime = some t → t.IsProper

theorem Currency.codec_keeps (currency : Currency) : codec.Keeps (depth + 1) currency := by
  refine Fields.codec_keeps (by decide) ?_ rfl
  exact ⟨Codec.string_keeps _,
    Codec.option_keeps Octets.codec_isSolid fun _ _ => Octets.codec_keeps _, trivial⟩

theorem MinterConfiguration.codec_keeps (minter : MinterConfiguration) :
    codec.Keeps (depth + 2) minter := by
  refine Fields.codec_keeps (by decide) ?_ rfl
  exact ⟨Octets.codec_keeps _, Codec.string_keeps _,
    Codec.option_keeps Octets.codec_isSolid fun _ _ => Octets.codec_keeps _,
    Codec.list_keeps fun _ _ => Codec.string_keeps _, trivial⟩

theorem Timestamp.codec_isSolid : codec.IsSolid :=
  fun _ => nofun

theorem Project.codec_keeps {p : Project} (h : p.HasProperDates) : codec.Keeps (depth + 3) p := by
  refine Fields.codec_keeps (by decide) ?_ rfl
  exact ⟨Codec.string_keeps _, Codec.uint64_keeps _, Octets.codec_keeps _, Octets.codec_keeps _,
    Codec.string_keeps _, Codec.bool_keeps _,
    Codec.option_keeps Timestamp.codec_isSolid fun t ht => Timestamp.codec_keeps (h t (.inl ht)),
    Codec.option_keeps Timestamp.codec_isSolid fun t ht => Timestamp.codec_keeps (h t (.inr ht)),
    Currency.codec_keeps _,
    Codec.option_keeps Fields.codec_isSolid fun _ _ => MinterConfiguration.codec_keeps _, trivial⟩

theorem LiveSaleData.codec_keeps (data : LiveSaleData) : codec.Keeps (depth + 1) data := by
  refine Fields.codec_keeps (by decide) ?_ rfl
  exact ⟨Codec.bool_keeps _, Amount.codec_keeps _, Codec.uint64_keeps _, Codec.uint64_keeps _,
    Codec.bool_keeps _, Codec.bool_keeps _,
    Codec.option_keeps Codec.uint64_isSolid fun _ _ => Codec.uint64_keeps _, trivial⟩

/-- Dates that are read are moments that universal time has. -/
theorem Timestamp.isProper_of_read {room : Nat} {j : Json} {t : Timestamp}
    (h : codec.read room j = .ok t) : t.IsProper := by
  obtain ⟨text, htext⟩ := Codec.of_through_read h
  exact isProper_of_ofText? htext

theorem Project.hasProperDates_of_read {room : Nat} {j : Json} {p : Project}
    (h : codec.read room j = .ok p) : p.HasProperDates := by
  obtain ⟨row, hgives, rfl⟩ := Fields.of_codec_read h
  obtain ⟨id, index, core, artist, name, complete, startTime, endTime, currency, minter, _⟩ := row
  obtain ⟨-, -, -, -, -, -, hstart, hend, -⟩ := hgives
  rintro t (ht | ht)
  · obtain rfl : startTime = some t := ht
    obtain ⟨room, j, hread⟩ := Field.optional_gives hstart
    exact Timestamp.isProper_of_read hread
  · obtain rfl : endTime = some t := ht
    obtain ⟨room, j, hread⟩ := Field.optional_gives hend
    exact Timestamp.isProper_of_read hread

namespace Sale

/-! ## Snapshots -/

/-- The dates of the project of a sale are moments that universal time has. -/
def Snapshot.HasProperDates (s : Snapshot) : Prop :=
  ∀ p, s.context.project = some p → p.HasProperDates

theorem Phase.codec_keeps (phase : Phase) : codec.Keeps depth phase := by
  cases phase <;> exact Codec.name_keeps (by decide)

theorem ContextView.codec_keeps {context : ContextView}
    (h : ∀ p, context.project = some p → p.HasProperDates) : codec.Keeps (depth + 4) context := by
  refine Fields.codec_keeps (by decide) ?_ rfl
  exact ⟨Codec.option_keeps Codec.string_isSolid fun _ _ => Codec.string_keeps _,
    Field.presence_keeps _, Field.presence_keeps _,
    Codec.option_keeps Fields.codec_isSolid fun p hp => Project.codec_keeps (h p hp),
    Codec.option_keeps Fields.codec_isSolid fun _ _ => LiveSaleData.codec_keeps _,
    Codec.option_keeps Codec.string_isSolid fun _ _ => Codec.string_keeps _,
    Codec.option_keeps Codec.string_isSolid fun _ _ => Codec.string_keeps _, trivial⟩

theorem Snapshot.codec_keeps {s : Snapshot} (h : s.HasProperDates) : codec.Keeps (depth + 5) s := by
  refine Fields.codec_keeps (by decide) ?_ rfl
  exact ⟨Phase.codec_keeps _, ContextView.codec_keeps h,
    Codec.option_keeps Fields.codec_isSolid fun _ _ => PurchaseState.codec_keeps _, trivial⟩

theorem ContextView.hasProperDates_of_read {room : Nat} {j : Json} {context : ContextView}
    (h : codec.read room j = .ok context) :
    ∀ p, context.project = some p → p.HasProperDates := by
  obtain ⟨row, hgives, rfl⟩ := Fields.of_codec_read h
  obtain ⟨projectId, hasChain, hasWallet, project, live, error, ineligibleReason, _⟩ := row
  obtain ⟨-, -, -, hproject, -⟩ := hgives
  intro p hp
  obtain rfl : project = some p := hp
  obtain ⟨room, j, hread⟩ := Field.optional_gives hproject
  exact Project.hasProperDates_of_read hread

theorem Snapshot.hasProperDates_of_read {room : Nat} {j : Json} {s : Snapshot}
    (h : codec.read room j = .ok s) : s.HasProperDates := by
  obtain ⟨row, hgives, rfl⟩ := Fields.of_codec_read h
  obtain ⟨phase, context, purchase, _⟩ := row
  obtain ⟨-, hcontext, -⟩ := hgives
  obtain ⟨room, j, hread⟩ := Field.required_gives hcontext
  exact ContextView.hasProperDates_of_read hread

end Sale

end MintSale
