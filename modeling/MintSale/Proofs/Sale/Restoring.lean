import MintSale.Proofs.Format.Sale
import MintSale.Proofs.Sale.Phases
import MintSale.Sale.Restoring

/-!
# Saving and restoring

Nothing of a sale is lost when it is stored and restored, but for its clients, whose place those of
the running process take.
-/

namespace MintSale

/-! ## Writing and reading again -/

/-- A codec decodes every proper value from its text. Every value that it decodes from any text is
decoded from its own text as well, which does not change any more. -/
structure Codec.IsLossless {α : Type} (c : Codec α) (IsProper : α → Prop) : Prop where
  decode_encode : ∀ a, IsProper a → c.decode (c.encode a) = .ok a
  again : ∀ text a, c.decode text = .ok a → c.decode (c.encode a) = .ok a ∧
    ∀ b, c.decode (c.encode a) = .ok b → c.encode b = c.encode a

theorem Codec.read_of_decode {α : Type} {c : Codec α} {text : String} {a : α}
    (h : c.decode text = .ok a) : ∃ j, c.read levels j = .ok a := by
  simp only [decode] at h
  split at h
  · simp at h
  · next a' hread =>
    split at h
    · obtain rfl := Except.ok.inj h
      exact ⟨_, hread⟩
    · simp at h

/-- A codec that keeps all proper values, and reads no others, loses nothing. -/
theorem Codec.isLossless_of_keeps {α : Type} {c : Codec α} {IsProper : α → Prop} (depth : Nat)
    (hdepth : depth < levels) (hkeeps : ∀ a, IsProper a → c.Keeps depth a)
    (hread : ∀ room j a, c.read room j = .ok a → IsProper a) : c.IsLossless IsProper where
  decode_encode a ha := (hkeeps a ha).decode_encode hdepth
  again text a htext := by
    obtain ⟨j, hj⟩ := read_of_decode htext
    have hagain := (hkeeps a (hread levels j a hj)).decode_encode hdepth
    refine ⟨hagain, fun b hb => ?_⟩
    rw [hagain] at hb
    rw [Except.ok.inj hb]

theorem Codec.isLossless_of_all {α : Type} {c : Codec α} (depth : Nat) (hdepth : depth < levels)
    (hkeeps : ∀ a, c.Keeps depth a) : c.IsLossless fun _ => True :=
  isLossless_of_keeps depth hdepth (fun a _ => hkeeps a) fun _ _ _ _ => trivial

namespace Sale

/-! ## Clients -/

/-- A hydrated sale is the one of a snapshot. It has a client exactly if the snapshot recorded one
and the process has one. -/
structure Hydrated.Restores (h : Hydrated) (s : Snapshot) (chain : Option ChainClient)
    (wallet : Option WalletClient) : Prop where
  phase_eq : h.phase = s.phase
  purchase_eq : h.purchase = s.purchase
  projectId_eq : h.context.projectId = s.context.projectId
  project_eq : h.context.project = s.context.project
  live_eq : h.context.live = s.context.live
  error_eq : h.context.error = s.context.error
  ineligibleReason_eq : h.context.ineligibleReason = s.context.ineligibleReason
  chain_iff : ∀ client, h.context.chain = some client ↔
    s.context.hasChain = true ∧ chain = some client
  wallet_iff : ∀ client, h.context.wallet = some client ↔
    s.context.hasWallet = true ∧ wallet = some client

theorem hydrate_dehydrate {s : Snapshot}
    (hs : Snapshot.codec.decode (Snapshot.codec.encode s) = .ok s) (chain : Option ChainClient)
    (wallet : Option WalletClient) :
    ∃ h, hydrate (dehydrate s) chain wallet = .ok h ∧ h.Restores s chain wallet := by
  rw [dehydrate, hydrate, hs]
  refine ⟨_, rfl, rfl, rfl, rfl, rfl, rfl, rfl, rfl, fun client => ?_, fun client => ?_⟩
  · cases s.context.hasChain <;> simp
  · cases s.context.hasWallet <;> simp

/-- Saving and restoring a sale, or any part of it that is stored or sent, loses nothing. -/
theorem restoring_isLossless :
    Snapshot.codec.IsLossless Snapshot.HasProperDates ∧
    Project.codec.IsLossless Project.HasProperDates ∧
    LiveSaleData.codec.IsLossless (fun _ => True) ∧
    EligibilityDetails.codec.IsLossless (fun _ => True) ∧
    HolderToken.codec.IsLossless (fun _ => True) ∧
    OwnedToken.codec.IsLossless (fun _ => True) ∧
    PurchaseRequest.codec.IsLossless (fun _ => True) ∧
    PurchaseState.codec.IsLossless (fun _ => True) ∧
    ∀ s : Snapshot, s.HasProperDates → ∀ chain wallet,
      ∃ h, hydrate (dehydrate s) chain wallet = .ok h ∧ h.Restores s chain wallet := by
  have hsnapshot : Snapshot.codec.IsLossless Snapshot.HasProperDates :=
    Codec.isLossless_of_keeps 5 (by decide) (fun _ => Snapshot.codec_keeps)
      fun _ _ _ => Snapshot.hasProperDates_of_read
  have hproject : Project.codec.IsLossless Project.HasProperDates :=
    Codec.isLossless_of_keeps 3 (by decide) (fun _ => Project.codec_keeps)
      fun _ _ _ => Project.hasProperDates_of_read
  exact ⟨hsnapshot, hproject,
    Codec.isLossless_of_all 1 (by decide) LiveSaleData.codec_keeps,
    Codec.isLossless_of_all 3 (by decide) EligibilityDetails.codec_keeps,
    Codec.isLossless_of_all 1 (by decide) HolderToken.codec_keeps,
    Codec.isLossless_of_all 1 (by decide) OwnedToken.codec_keeps,
    Codec.isLossless_of_all 3 (by decide) PurchaseRequest.codec_keeps,
    Codec.isLossless_of_all 4 (by decide) PurchaseState.codec_keeps,
    fun s hs => hydrate_dehydrate (hsnapshot.decode_encode s hs)⟩

/-! ## A stored sale -/

/-- A sale that waits for its auction to begin, with a chain client only. -/
def Sample.waiting : Snapshot where
  phase := .idle
  context := ⟨some "proj-1", true, false, some { project with startTime := some noon }, none, none,
    none⟩
  purchase := none

/-- The waiting sale is restored with the chain client of the process, and without its wallet. -/
theorem restoring_waiting :
    Sample.waiting.HasProperDates ∧
      Snapshot.codec.decode (Snapshot.codec.encode Sample.waiting) = .ok Sample.waiting ∧
      ∃ h, hydrate (dehydrate Sample.waiting) (some ⟨"chain"⟩) (some ⟨"wallet"⟩) = .ok h ∧
        h.context.chain = some ⟨"chain"⟩ ∧ ∀ client, h.context.wallet ≠ some client := by
  have hdates : Sample.waiting.HasProperDates := by
    rintro p ⟨⟩ t (ht | ht)
    · obtain rfl : Sample.noon = t := Option.some.inj ht
      exact .inl (by decide)
    · exact absurd ht (by simp [Sample.project])
  obtain ⟨hsnapshot, -, -, -, -, -, -, -, hhydrate⟩ := restoring_isLossless
  obtain ⟨h, hread, hrestores⟩ :=
    hhydrate Sample.waiting hdates (some ⟨"chain"⟩) (some ⟨"wallet"⟩)
  refine ⟨hdates, hsnapshot.decode_encode _ hdates, h, hread, ?_, fun client hclient => ?_⟩
  · exact (hrestores.chain_iff ⟨"chain"⟩).mpr ⟨rfl, rfl⟩
  · exact absurd ((hrestores.wallet_iff client).mp hclient).1 (by decide)

end Sale

end MintSale
