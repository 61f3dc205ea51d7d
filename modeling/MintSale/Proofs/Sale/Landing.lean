import MintSale.Proofs.Sale.Director

/-!
# Where a running sale lands

From a running phase a director lands in a phase that follows from what it knows alone, and so does
what it knows afterwards. Whether the sale is over is not a matter of the wallet.
-/

namespace MintSale.Sale

variable {accounts : Accounts} {now : Timestamp} {ctx : Context}

namespace Context

/-- The phase in which a sale is over, if what is known says so. -/
def ending (ctx : Context) : Option Phase :=
  if ctx.error.isSome then some .error
  else if ctx.objection.isSome then some .ineligible
  else if ctx.isComplete then some .complete
  else none

/-- The phase in which a running sale lands. -/
def landing (accounts : Accounts) (now : Timestamp) (ctx : Context) : Phase :=
  ctx.ending.getD (if ctx.isReady accounts now then .readyForSale else .idle)

/-- What is known once the sale has landed: why it is ruled out is on record. -/
def landed (ctx : Context) : Context :=
  if ctx.ending = some .ineligible then { ctx with ineligibleReason := ctx.objection } else ctx

theorem ending_of_isReady (h : ctx.isReady accounts now = true) : ctx.ending = none := by
  simp [ending, error_of_isReady h, objection_of_isReady h, isComplete_of_isReady h]

/-- A sale that is over does not run. -/
theorem not_isRunning_of_ending {phase : Phase} (h : ctx.ending = some phase) :
    ¬ phase.IsRunning := by
  unfold ending at h
  split at h
  · obtain rfl := Option.some.inj h
    simp [Phase.IsRunning]
  · split at h
    · obtain rfl := Option.some.inj h
      simp [Phase.IsRunning]
    · split at h
      · obtain rfl := Option.some.inj h
        simp [Phase.IsRunning]
      · simp at h

theorem landed_of_error (h : ctx.error.isSome) : ctx.landed = ctx := by
  simp [landed, ending, h]

theorem landed_of_objection (h : ctx.objection = none) : ctx.landed = ctx := by
  unfold landed ending
  by_cases herror : ctx.error.isSome
  · simp [herror]
  · by_cases hcomplete : ctx.isComplete <;> simp [herror, h, hcomplete]

theorem landed_of_none (h : ctx.ending = none) : ctx.landed = ctx := by
  simp [landed, h]

theorem landing_of_some {phase : Phase} (h : ctx.ending = some phase) :
    ctx.landing accounts now = phase := by
  simp [landing, h]

theorem landing_of_none (h : ctx.ending = none) : (ctx.landing accounts now).IsRunning := by
  rw [landing, h, Option.getD_none]
  split
  · exact .inr rfl
  · exact .inl rfl

theorem landing_eq_ready_iff :
    ctx.landing accounts now = .readyForSale ↔ ctx.isReady accounts now = true := by
  constructor
  · intro h
    cases hending : ctx.ending with
    | some phase =>
        rw [landing_of_some hending] at h
        exact absurd (.inr h) (not_isRunning_of_ending hending)
    | none =>
        cases hready : ctx.isReady accounts now with
        | true => rfl
        | false => simp [landing, hending, hready] at h
  · intro h
    simp [landing, ending_of_isReady h, h]

/-- Only the start of the sale depends on the time. -/
theorem isReady_of_isReady {now' : Timestamp} (h : ctx.isReady accounts now = true)
    (hstarted : ∀ project, ctx.project = some project →
      ∀ start, project.startTime = some start → now'.isBefore start = false) :
    ctx.isReady accounts now' = true := by
  obtain ⟨wallet, account, project, kind, live, hready⟩ := isReady_iff.mp h
  exact isReady_iff.mpr ⟨wallet, account, project, kind, live,
    { hready with started := hstarted project hready.project_eq }⟩

/-! ## Wallets -/

@[simp] theorem ending_wallet (ctx : Context) (wallet : Option WalletClient) :
    { ctx with wallet := wallet }.ending = ctx.ending :=
  rfl

theorem landed_wallet (ctx : Context) (wallet : Option WalletClient) :
    { ctx with wallet := wallet }.landed = { ctx.landed with wallet := wallet } := by
  by_cases h : ctx.ending = some .ineligible
  · simp only [landed, ending_wallet, h, if_true]
    rfl
  · simp only [landed, ending_wallet, h, if_false]

end Context

theorem decideIdle_phase (accounts : Accounts) (now : Timestamp) (ctx : Context) :
    (decideIdle accounts now ctx).phase = ctx.landing accounts now := by
  unfold decideIdle Context.landing Context.ending
  by_cases herror : ctx.error.isSome
  · simp [herror]
  cases hobjection : ctx.objection with
  | some reason => simp [herror]
  | none =>
      by_cases hcomplete : ctx.isComplete
      · simp [herror, hcomplete]
      by_cases hready : ctx.isReady accounts now
      · simp [herror, hcomplete, hready]
      · by_cases hchain : ctx.chain.isNone <;> simp [herror, hcomplete, hready, hchain]

namespace Director

variable {d : Director}

/-- What a director knows when it has done what it decides to do while waiting. -/
theorem context_decideIdle (d : Director) (accounts : Accounts) (now : Timestamp) :
    ((decideIdle accounts now d.context).actions.foldl apply d).context = d.context.landed := by
  have hverdict := decideIdle_verdict accounts now d.context
  generalize decideIdle accounts now d.context = decision at hverdict
  cases hverdict with
  | failed herror => simp [stopActions, apply, Context.landed_of_error herror]
  | ruledOut herror reason hreason =>
      have hlanded : d.context.landed = { d.context with ineligibleReason := some reason } := by
        simp [Context.landed, Context.ending, herror, hreason]
      rw [hlanded]
      cases hkept : d.context.ineligibleReason with
      | none => simp [stopActions, apply]
      | some kept =>
          -- The reason on record is the objection.
          obtain rfl : kept = reason := by simpa [Context.objection, hkept] using hreason
          have hsame : { d.context with ineligibleReason := some kept } = d.context := by
            rw [← hkept]
          rw [hsame]
          simp [stopActions, apply]
  | complete herror hobjection | waiting herror hobjection | unplugged herror hobjection =>
      simp [stopActions, apply, Context.landed_of_objection hobjection]
  | ready hready =>
      have hending := Context.ending_of_isReady hready
      simp [readyActions, apply, Context.landed_of_none hending]

/-- A running director lands where its context says. -/
theorem Sound.settle_landing (h : d.Sound) (hrunning : d.phase.IsRunning) (accounts : Accounts)
    (now : Timestamp) :
    (d.settle accounts now).phase = d.context.landing accounts now ∧
      (d.settle accounts now).context = d.context.landed := by
  cases hready : d.context.isReady accounts now with
  | true =>
      rw [settle_of_isReady hrunning hready, Context.landing_eq_ready_iff.mpr hready,
        Context.landed_of_none (Context.ending_of_isReady hready)]
      simp
  | false =>
      rw [h.settle_of_not_isReady hrunning hready]
      refine ⟨decideIdle_phase accounts now d.context, ?_⟩
      have hcontext := context_decideIdle d.closeCheckout accounts now
      rwa [closeCheckout_context] at hcontext

/-- A director that still runs when it has settled knows nothing that ends the sale. -/
theorem Sound.ending_of_settle (h : d.Sound) (hrunning : d.phase.IsRunning)
    (hstill : (d.settle accounts now).phase.IsRunning) : d.context.ending = none := by
  cases hending : d.context.ending with
  | none => rfl
  | some phase =>
      rw [(h.settle_landing hrunning accounts now).1, Context.landing_of_some hending] at hstill
      exact absurd hstill (Context.not_isRunning_of_ending hending)

/-! ## Poise -/

/-- As long as the sale runs nothing that is known ends it, and it is ready only if it has been so
by what is known. -/
structure Poised (accounts : Accounts) (d : Director) : Prop where
  ending_eq : d.phase.IsRunning → d.context.ending = none
  ready : d.phase = .readyForSale → ∃ now, d.context.isReady accounts now = true

/-- Settling leaves a director poised. -/
theorem Sound.settle_poised (h : d.Sound) (accounts : Accounts) (now : Timestamp) :
    (d.settle accounts now).Poised accounts := by
  by_cases hrunning : d.phase.IsRunning
  · obtain ⟨hphase, hcontext⟩ := h.settle_landing hrunning accounts now
    constructor
    · intro hstill
      have hending := h.ending_of_settle hrunning hstill
      rw [hcontext, Context.landed_of_none hending]
      exact hending
    · intro hready
      refine ⟨now, ?_⟩
      rw [hcontext, Context.landed_of_none (h.ending_of_settle hrunning (.inr hready))]
      exact Context.landing_eq_ready_iff.mp (hphase ▸ hready)
  · rw [settle_of_not_running hrunning]
    exact ⟨fun h => absurd h hrunning, fun h => absurd (.inr h) hrunning⟩

end Director

end MintSale.Sale
