import MintSale.Proofs.Sale.Landing
import MintSale.Proofs.Sale.Phases

/-!
# A sale at rest

Once a director has settled there is nothing left to settle. To settle again at the same moment
orders nothing, changes nothing that the director holds, and shows the host nothing new.
-/

namespace MintSale.Sale

namespace Director

variable {accounts : Accounts} {now : Timestamp} {d : Director}

/-- A director that is in step, and in the phase where what it knows leads. -/
structure AtRest (accounts : Accounts) (now : Timestamp) (d : Director) : Prop where
  sound : d.Sound
  inStep : d.InStep
  phase_eq : d.phase.IsRunning → d.phase = d.context.landing accounts now

theorem InStep.settle_of_isReady (h : d.InStep) (hphase : d.phase = .readyForSale)
    (hready : d.context.isReady accounts now = true) : d.settle accounts now = d := by
  obtain ⟨wallet, account, project, kind, live, hctx⟩ := Context.isReady_iff.mp hready
  have hfeed : d.feed.isSome := h.feed_iff.mpr ⟨.inr hphase, hctx.chain_isSome⟩
  have hcheckout : d.checkout.isSome := h.checkout_iff.mpr hphase
  rw [Director.settle_of_isReady (.inr hphase) hready, openFeed_of_isSome hfeed,
    openCheckout_of_isSome hcheckout, ← hphase]

/-- A director that waits in step, and decides to wait, has its feed as it should be. -/
theorem InStep.settle_of_idle (h : d.InStep) (hsound : d.Sound) (hphase : d.phase = .idle)
    (hlanding : d.context.landing accounts now = .idle) : d.settle accounts now = d := by
  have hready : d.context.isReady accounts now = false := by
    rw [← Bool.not_eq_true, ← Context.landing_eq_ready_iff, hlanding]
    simp
  obtain ⟨hcheckout, hpurchase⟩ := hsound.checkout_of_phase_ne (by simp [hphase])
  rw [hsound.settle_of_not_isReady (.inl hphase) hready, closeCheckout_of_none hcheckout hpurchase]
  have hverdict := decideIdle_verdict accounts now d.context
  have hidle := (decideIdle_phase accounts now d.context).trans hlanding
  generalize decideIdle accounts now d.context = decision at hverdict hidle ⊢
  cases hverdict with
  | failed | ruledOut | complete | ready => simp at hidle
  | unplugged herror hobjection hchain =>
      have hfeed : d.feed = none := by
        simpa [hchain] using h.feed_iff
      simp [apply, closeFeed_of_none hfeed, ← hphase]
  | waiting herror hobjection hchain =>
      have hfeed : d.feed.isSome := h.feed_iff.mpr ⟨.inl hphase, hchain⟩
      simp [apply, openFeed_of_isSome hfeed, ← hphase]

theorem AtRest.settle_eq (h : d.AtRest accounts now) : d.settle accounts now = d := by
  by_cases hrunning : d.phase.IsRunning
  · have hlanding := h.phase_eq hrunning
    rcases hrunning with hidle | hready
    · exact h.inStep.settle_of_idle h.sound hidle (hlanding.symm.trans hidle)
    · exact h.inStep.settle_of_isReady hready
        (Context.landing_eq_ready_iff.mp (hlanding.symm.trans hready))
  · exact settle_of_not_running hrunning

/-- Settling brings a director to rest. -/
theorem Sound.atRest_settle (h : d.Sound) (accounts : Accounts) (now : Timestamp) :
    (d.settle accounts now).AtRest accounts now := by
  obtain ⟨hsound, hstep⟩ := h.settle accounts now
  refine ⟨hsound, hstep, fun hstill => ?_⟩
  by_cases hrunning : d.phase.IsRunning
  · obtain ⟨hphase, hcontext⟩ := h.settle_landing hrunning accounts now
    have hending := h.ending_of_settle hrunning hstill
    rw [hphase, hcontext, Context.landed_of_none hending]
  · rw [settle_of_not_running hrunning] at hstill
    exact absurd hstill hrunning

end Director

namespace Floor

variable {σ : Type} {env : Environment σ} {now : Timestamp} {f g : Floor σ} {d : Director}

/-- A floor on which the director, should it settle again now, has no orders, changes nothing and
shows what it has shown. -/
def IsAtRest (env : Environment σ) (now : Timestamp) (f : Floor σ) : Prop :=
  f.afterwards env now f.director = ([], f)

theorem afterwards_eq (env : Environment σ) (now : Timestamp) (f : Floor σ) (d : Director) :
    f.afterwards env now d =
      ((d.settle (env.account f.world) now).outbox,
        f.seat (d.settle (env.account f.world) now)
          (d.settle (env.account f.world) now).snapshot) :=
  rfl

@[simp] theorem seat_world (f : Floor σ) (d : Director) (s : Snapshot) :
    (f.seat d s).world = f.world := by
  obtain ⟨feeds, checkouts, tracked, h⟩ :=
    enact_frame { f with director := { d with outbox := [] }, published := s } d.outbox
  rw [seat, h]
  rfl

theorem isAtRest_of (h : f.director.AtRest (env.account f.world) now)
    (houtbox : f.director.outbox = []) (hpublished : f.published = f.director.snapshot) :
    f.IsAtRest env now := by
  have hsame : { f.director with outbox := [] } = f.director := by
    rw [← houtbox]
  rw [IsAtRest, afterwards_eq, h.settle_eq, houtbox, seat, houtbox, enact_nil, hsame, ← hpublished]

theorem seat_isAtRest (h : d.AtRest (env.account f.world) now) :
    (f.seat d d.snapshot).IsAtRest env now := by
  have hdirector : (f.seat d d.snapshot).director = { d with outbox := [] } := by simp [seat]
  have hrest : ({ d with outbox := [] } : Director).AtRest (env.account f.world) now :=
    ⟨{ h.sound with }, { h.inStep with }, h.phase_eq⟩
  refine isAtRest_of ?_ ?_ ?_
  · rwa [seat_world, hdirector]
  · rw [hdirector]
  · rw [hdirector]
    simp [seat, Director.snapshot]

/-- Whatever a director has taken in, the floor is at rest when it has settled. -/
theorem afterwards_isAtRest (h : d.Sound) (env : Environment σ) (now : Timestamp) (f : Floor σ) :
    (f.afterwards env now d).2.IsAtRest env now :=
  seat_isAtRest (h.atRest_settle (env.account f.world) now)

/-- When the director takes something in, that has reached it, and it settles on it. -/
theorem exists_next_of_takes (h : (f.directorTurn env now).1 ≠ .nothing) :
    ∃ a g, f.next env = (some a, g) ∧
      (f.directorTurn env now).2.2 = (g.afterwards env now (g.director.receive a)).2 := by
  cases hopen : f.isOpen with
  | false => simp [directorTurn, hopen] at h
  | true =>
      cases hshut : f.isShutDown with
      | true => simp [directorTurn, hopen, hshut] at h
      | false =>
          rcases hfetch : f.fetch env with ⟨result, g⟩
          simp only [directorTurn, hopen, hshut, hfetch, next] at h ⊢
          cases result with
          | some result => exact ⟨_, _, rfl, rfl⟩
          | none =>
              cases hevents : g.events with
              | cons event events => exact ⟨_, _, rfl, rfl⟩
              | nil =>
                  cases hmessages : g.messages with
                  | cons message messages => exact ⟨_, _, rfl, rfl⟩
                  | nil => simp [hevents, hmessages] at h

/-- A turn in which the director takes something in leaves the floor at rest. -/
theorem Orderly.directorTurn_isAtRest (h : f.Orderly)
    (htakes : (f.directorTurn env now).1 ≠ .nothing) :
    (f.directorTurn env now).2.2.IsAtRest env now := by
  obtain ⟨a, g, hnext, hturn⟩ := exists_next_of_takes htakes
  obtain ⟨hg, hadmits⟩ := h.reach (next_reach hnext)
  rw [hturn]
  exact afterwards_isAtRest (hg.sound.receive hadmits) env now g

/-! ## Every run -/

/-- In every state that a sale can be in, whatever may reach the director then, and whatever does
reach it in its next turn: once it has taken that in and settled, to settle again at the same moment
changes nothing. -/
theorem run_settles_once (env : Environment σ) (start : Start) (interval : Nat) (isTracked : Bool)
    (world : σ) (acts : List (Act σ)) (now : Timestamp) :
    let f := (initial start interval isTracked world).run env acts
    (∀ a, f.director.Admits a →
      (f.afterwards env now (f.director.receive a)).2.IsAtRest env now) ∧
    ((f.directorTurn env now).1 ≠ .nothing →
      (f.directorTurn env now).2.2.IsAtRest env now) := by
  intro f
  have h : f.Orderly := (orderly_initial start interval isTracked world).run env acts
  refine ⟨?_, h.directorTurn_isAtRest⟩
  intro a hadmits
  exact afterwards_isAtRest (h.sound.receive hadmits) env now f

end Floor

namespace Sample

/-- Live data without a price. -/
def unpriced : LiveSaleData :=
  ⟨false, .ofUInt64 0, 10, 100, true, false, none⟩

/-- The small sale becomes ready, and then the host tells that there is no price. -/
def losingPrice : List (Floor.Act Unit) :=
  opening ++ [.post (.liveData unpriced)]

end Sample

/-- The small sale is ruled out when it has lost its price, and is at rest then. -/
theorem Floor.run_settles_once_unpriced :
    ((Sample.floor.run Sample.environment Sample.losingPrice).directorTurn Sample.environment
        Sample.noon).1 ≠ .nothing ∧
      ((Sample.floor.run Sample.environment Sample.losingPrice).directorTurn Sample.environment
        Sample.noon).2.2.director.phase = .ineligible ∧
      ((Sample.floor.run Sample.environment Sample.losingPrice).directorTurn Sample.environment
        Sample.noon).2.2.IsAtRest Sample.environment Sample.noon :=
  ⟨by decide +kernel, by decide +kernel,
    (run_settles_once _ _ _ _ _ Sample.losingPrice Sample.noon).2 (by decide +kernel)⟩

end MintSale.Sale
