import MintSale.Sale.Settling

/-!
# How a sale settles

A sale that waits has one of six ways to decide, and settling from any phase comes down to at most
one of them.
-/

namespace MintSale.Sale

variable {accounts : Accounts} {now : Timestamp} {ctx : Context}

/-! ## When a wallet may buy -/

theorem isPurchasable_iff {project : Option Project} {live : Option LiveSaleData}
    {account : Option Address} :
    isPurchasable project live account now = true ↔
      ∃ p l a, project = some p ∧ live = some l ∧ account = some a ∧
        p.isComplete (some l) = false ∧ p.isEligible = true ∧ (l.paused = true → a = p.artist) ∧
        ∀ start, p.startTime = some start → now.isBefore start = false := by
  constructor
  · intro h
    unfold isPurchasable at h
    split at h
    · next p l a =>
      simp only [Bool.and_eq_true, Bool.not_eq_true', Bool.or_eq_true, beq_iff_eq,
        Option.all_eq_true] at h
      obtain ⟨⟨⟨hcomplete, heligible⟩, hpaused⟩, hstart⟩ := h
      refine ⟨p, l, a, rfl, rfl, rfl, hcomplete, heligible, ?_, ?_⟩
      · intro hp
        rcases hpaused with hpaused | hartist
        · simp [hp] at hpaused
        · exact hartist
      · intro start hs
        simpa using hstart start hs
    · simp at h
  · rintro ⟨p, l, a, rfl, rfl, rfl, hcomplete, heligible, hpaused, hstart⟩
    have hpaused' : (!l.paused || a == p.artist) = true := by
      cases hp : l.paused with
      | false => rfl
      | true => simp [hpaused hp]
    have hstart' : (p.startTime.all fun start => !now.isBefore start) = true := by
      cases hs : p.startTime with
      | none => rfl
      | some start => simp [hstart start hs]
    simp [isPurchasable, hcomplete, heligible, hpaused', hstart']

/-- A project that can be sold has a minter of a kind that is known. -/
theorem isEligible_iff {p : Project} :
    p.isEligible = true ↔ ∃ kind, p.support = .supported kind := by
  unfold Project.isEligible Project.objection
  cases p.support <;> simp [MinterSupport.objection]

namespace Context

/-- What it takes for a sale to be ready. -/
structure Ready (accounts : Accounts) (now : Timestamp) (ctx : Context) (wallet : WalletClient)
    (account : Address) (project : Project) (kind : MinterKind) (live : LiveSaleData) : Prop where
  error_eq : ctx.error = none
  ineligibleReason_eq : ctx.ineligibleReason = none
  chain_isSome : ctx.chain.isSome
  wallet_eq : ctx.wallet = some wallet
  account_eq : accounts wallet = some account
  project_eq : ctx.project = some project
  support_eq : project.support = .supported kind
  live_eq : ctx.live = some live
  incomplete : project.isComplete (some live) = false
  artist_of_paused : live.paused = true → account = project.artist
  started : ∀ start, project.startTime = some start → now.isBefore start = false

theorem isReady_iff :
    ctx.isReady accounts now = true ↔
      ∃ wallet account project kind live,
        ctx.Ready accounts now wallet account project kind live := by
  unfold isReady isPurchasable
  simp only [Bool.and_eq_true, Option.isNone_iff_eq_none, isPurchasable_iff]
  constructor
  · rintro ⟨⟨⟨herror, hreason⟩, hchain⟩, p, l, a, hp, hl, ha, hcomplete, heligible, hpaused, hstart⟩
    obtain ⟨wallet, hwallet, haccount⟩ := Option.bind_eq_some_iff.mp ha
    obtain ⟨kind, hkind⟩ := isEligible_iff.mp heligible
    exact ⟨wallet, a, p, kind, l, herror, hreason, hchain, hwallet, haccount, hp, hkind, hl,
      hcomplete, hpaused, hstart⟩
  · rintro ⟨wallet, a, p, kind, l, h⟩
    refine ⟨⟨⟨h.error_eq, h.ineligibleReason_eq⟩, h.chain_isSome⟩, p, l, a, h.project_eq, h.live_eq,
      ?_, h.incomplete, isEligible_iff.mpr ⟨kind, h.support_eq⟩, h.artist_of_paused, h.started⟩
    exact Option.bind_eq_some_iff.mpr ⟨wallet, h.wallet_eq, h.account_eq⟩

/-- Nothing speaks against a context that is ready. -/
theorem objection_of_isReady (h : ctx.isReady accounts now = true) : ctx.objection = none := by
  obtain ⟨wallet, account, project, kind, live, h⟩ := isReady_iff.mp h
  simp [objection, h.ineligibleReason_eq, h.project_eq, Project.objection, h.support_eq,
    MinterSupport.objection]

theorem isComplete_of_isReady (h : ctx.isReady accounts now = true) : ctx.isComplete = false := by
  obtain ⟨wallet, account, project, kind, live, h⟩ := isReady_iff.mp h
  simp [isComplete, h.project_eq, h.live_eq, h.incomplete]

theorem error_of_isReady (h : ctx.isReady accounts now = true) : ctx.error = none := by
  obtain ⟨wallet, account, project, kind, live, h⟩ := isReady_iff.mp h
  exact h.error_eq

/-- Where nothing speaks against the project there is one. -/
theorem project_isSome_of_objection (h : ctx.objection = none) : ctx.project.isSome := by
  unfold objection at h
  split at h <;> simp_all

end Context

/-! ## Deciding while waiting -/

/-- The ways in which a sale that waits can decide. -/
inductive Verdict (accounts : Accounts) (now : Timestamp) (ctx : Context) : Decision → Prop where
  | failed (herror : ctx.error.isSome) : Verdict accounts now ctx ⟨.error, stopActions⟩
  | ruledOut (herror : ctx.error = none) (reason : String) (hreason : ctx.objection = some reason) :
      Verdict accounts now ctx ⟨.ineligible, stopActions ++
        if ctx.ineligibleReason.isNone then [.recordIneligibility reason] else []⟩
  | complete (herror : ctx.error = none) (hobjection : ctx.objection = none)
      (hcomplete : ctx.isComplete = true) : Verdict accounts now ctx ⟨.complete, stopActions⟩
  | ready (hready : ctx.isReady accounts now = true) :
      Verdict accounts now ctx ⟨.readyForSale, readyActions⟩
  | unplugged (herror : ctx.error = none) (hobjection : ctx.objection = none)
      (hchain : ctx.chain = none) : Verdict accounts now ctx ⟨.idle, [.stopFeed]⟩
  | waiting (herror : ctx.error = none) (hobjection : ctx.objection = none)
      (hchain : ctx.chain.isSome) : Verdict accounts now ctx ⟨.idle, [.startFeed]⟩

theorem decideIdle_verdict (accounts : Accounts) (now : Timestamp) (ctx : Context) :
    Verdict accounts now ctx (decideIdle accounts now ctx) := by
  unfold decideIdle
  split
  · next herror => exact .failed herror
  · next herror =>
    have herror : ctx.error = none := by simpa using herror
    split
    · next reason hreason => exact .ruledOut herror reason hreason
    · next hobjection =>
      split
      · next hcomplete => exact .complete herror hobjection hcomplete
      · split
        · next hready => exact .ready hready
        · split
          · next hchain => exact .unplugged herror hobjection (by simpa using hchain)
          · next hchain =>
            exact .waiting herror hobjection (by simpa [Option.isSome_iff_ne_none] using hchain)

theorem decideIdle_of_isReady (h : ctx.isReady accounts now = true) :
    decideIdle accounts now ctx = ⟨.readyForSale, readyActions⟩ := by
  simp [decideIdle, Context.error_of_isReady h, Context.objection_of_isReady h,
    Context.isComplete_of_isReady h, h]

/-- A sale that waits becomes ready only if its context is. -/
theorem decideIdle_phase_ne (h : ctx.isReady accounts now = false) :
    (decideIdle accounts now ctx).phase ≠ .readyForSale := by
  have hverdict := decideIdle_verdict accounts now ctx
  generalize decideIdle accounts now ctx = d at hverdict
  cases hverdict with
  | failed | ruledOut | complete | unplugged | waiting => simp
  | ready hready => simp [h] at hready

/-! ## Settling -/

/-- Outside of the two phases of a running sale there is nothing to decide. -/
theorem settle_of_phase_ne {phase : Phase} (hidle : phase ≠ .idle)
    (hready : phase ≠ .readyForSale) : settle accounts now phase ctx = ⟨phase, []⟩ := by
  cases phase <;> simp_all [settle, maxSteps, settleWithin, decide]

theorem settle_idle_of_isReady (h : ctx.isReady accounts now = true) :
    settle accounts now .idle ctx = ⟨.readyForSale, readyActions ++ readyActions⟩ := by
  simp [settle, maxSteps, settleWithin, decide, decideIdle_of_isReady h, h]

theorem settle_ready_of_isReady (h : ctx.isReady accounts now = true) :
    settle accounts now .readyForSale ctx = ⟨.readyForSale, readyActions⟩ := by
  simp [settle, maxSteps, settleWithin, decide, h]

theorem settleWithin_idle_of_not_isReady (h : ctx.isReady accounts now = false) (n : Nat) :
    settleWithin accounts now (n + 2) .idle ctx = decideIdle accounts now ctx := by
  have hne := decideIdle_phase_ne h
  cases hd : decideIdle accounts now ctx with
  | mk phase actions =>
      rw [hd] at hne
      cases phase <;> simp_all [settleWithin, decide]

theorem settle_idle_of_not_isReady (h : ctx.isReady accounts now = false) :
    settle accounts now .idle ctx = decideIdle accounts now ctx :=
  settleWithin_idle_of_not_isReady h 6

/-- A sale that is no longer ready closes its checkout and decides as if it had waited. -/
theorem settle_ready_of_not_isReady (h : ctx.isReady accounts now = false) :
    settle accounts now .readyForSale ctx =
      ⟨(decideIdle accounts now ctx).phase,
        .stopCheckout :: (decideIdle accounts now ctx).actions⟩ := by
  have hstep : settle accounts now .readyForSale ctx =
      ⟨(settleWithin accounts now 7 .idle ctx).phase,
        [.stopCheckout] ++ (settleWithin accounts now 7 .idle ctx).actions⟩ := by
    rw [settle, maxSteps, settleWithin]
    simp [decide, h]
  rw [hstep, settleWithin_idle_of_not_isReady h 5]
  rfl

end MintSale.Sale
