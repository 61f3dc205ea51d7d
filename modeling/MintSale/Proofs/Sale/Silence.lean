import MintSale.Proofs.Sale.Staff

/-!
# After the end of a sale

A sale that is over has no workers with a place, and those that had one do nothing more. Whatever
reaches its director then, the phase stays and nothing goes out.
-/

namespace MintSale

/-- A feed that has been stopped or has ended asks nothing. -/
theorem LiveFeed.asked_of_gone {σ : Type} (env : Environment σ) (now : Nat) {feed : LiveFeed}
    (h : feed.line.isStopped = true ∨ feed.exit?.isSome) (world : σ) :
    (feed.turn env now world).2.2.1 = [] := by
  unfold turn
  cases hstage : feed.stage with
  | ended exit => rfl
  | reading job =>
      have hstopped : feed.line.isStopped = true := by simpa [exit?, hstage] using h
      simp [hstopped]
  | resting due =>
      have hstopped : feed.line.isStopped = true := by simpa [exit?, hstage] using h
      simp [hstopped]

/-- A checkout that has been stopped or has ended asks nothing. -/
theorem Checkout.asked_of_gone {σ : Type} (env : Environment σ) (price : Option Amount)
    {c : Checkout} (h : c.line.isStopped = true ∨ c.hasEnded = true) (world : σ) :
    (c.turn env price world).2.2.1 = [] := by
  rw [← (c.deeds_tell env price world).2, deeds_of_gone env price h]
  rfl

namespace Sale

theorem Phase.not_isRunning_of_isTerminal {phase : Phase} (h : phase.isTerminal = true) :
    ¬ phase.IsRunning := by
  rintro (rfl | rfl) <;> simp [isTerminal] at h

namespace Director

variable {d : Director}

/-! ## A director without workers -/

/-- Neither worker has a place. -/
def IsVacant (d : Director) : Prop :=
  d.feed = none ∧ d.checkout = none

theorem Sound.isVacant (h : d.Sound) (hphase : ¬ d.phase.IsRunning) : d.IsVacant :=
  ⟨h.feed_of_not_running hphase, (h.checkout_of_phase_ne fun hready => hphase (.inr hready)).1⟩

theorem IsVacant.dispose_outbox (h : d.IsVacant) : d.dispose.outbox = d.outbox := by
  simp [dispose, closeFeed_eq, closeCheckout_eq, h.1, h.2]

/-- Whatever the host does, a director without workers has nothing to order. -/
theorem IsVacant.takeEvent_outbox (h : d.IsVacant) (event : Event) :
    (d.takeEvent event).outbox = d.outbox := by
  have hdrop : ∀ chain : Option ChainClient,
      { d with context := { d.context with chain := chain } : Director }.dropChainState.outbox =
        d.outbox := by
    intro chain
    simp [dropChainState, closeFeed_eq, closeCheckout_eq, h.1, h.2]
  have hclose : ∀ wallet : Option WalletClient,
      { d with context := { d.context with wallet := wallet } : Director }.closeCheckout.outbox =
        d.outbox := by
    intro wallet
    simp [closeCheckout_eq, h.2]
  cases event with
  | chainAvailable client =>
      rw [takeEvent]
      split
      · rfl
      · exact hdrop (some client)
  | chainUnavailable => exact hdrop none
  | walletAvailable client =>
      rw [takeEvent]
      split
      · rfl
      · exact hclose (some client)
  | walletUnavailable => exact hclose none
  | liveData | error => rfl
  | command command => simp [takeEvent, h.2]

/-- A director without workers throws all messages away. -/
theorem IsVacant.takeMessage (h : d.IsVacant) (m : Message) : d.takeMessage m = d := by
  have hcurrent : d.current m.role ≠ some m.generation := by
    cases m.role <;> simp [current, h.1, h.2]
  rw [Director.takeMessage, if_neg hcurrent]

end Director

namespace Floor

variable {σ : Type} {env : Environment σ} {f g : Floor σ}

/-! ## Acts -/

/-- From one floor to a later one the phase has stayed, no worker has been opened, no collaborator
has been asked for anything, and those who follow the purchases have been told nothing. -/
structure Silent (f g : Floor σ) : Prop where
  phase_eq : g.director.phase = f.director.phase
  generations_eq : g.generations = f.generations
  asked_eq : g.asked = f.asked
  tracked_eq : g.tracked = f.tracked

theorem Silent.refl (f : Floor σ) : Silent f f :=
  ⟨rfl, rfl, rfl, rfl⟩

theorem Silent.trans {h : Floor σ} (hfg : Silent f g) (hgh : Silent g h) : Silent f h where
  phase_eq := hgh.phase_eq.trans hfg.phase_eq
  generations_eq := hgh.generations_eq.trans hfg.generations_eq
  asked_eq := hgh.asked_eq.trans hfg.asked_eq
  tracked_eq := hgh.tracked_eq.trans hfg.tracked_eq

/-- What the director takes its place with has nothing to go out. -/
theorem Silent.seat (h : Silent f g) {d : Director} (houtbox : d.outbox = [])
    (hphase : d.phase = f.director.phase) (s : Snapshot) : Silent f (g.seat d s) := by
  rw [Floor.seat, houtbox, enact_nil]
  exact { h with phase_eq := hphase }

theorem silent_of_spared (hg : Spared f g) (hasked : g.asked = f.asked) : Silent f g where
  phase_eq := by rw [hg.director_eq]
  generations_eq := by rw [generations, hg.feeds_eq, hg.checkouts_eq, generations]
  asked_eq := hasked
  tracked_eq := hg.tracked_eq

/-- The floor is in order and the sale is over. -/
structure Over (f : Floor σ) : Prop where
  kept : f.Kept
  isTerminal : f.director.phase.isTerminal = true

theorem Over.isVacant (h : f.Over) : f.director.IsVacant :=
  h.kept.orderly.sound.isVacant (Phase.not_isRunning_of_isTerminal h.isTerminal)

theorem Over.metadata_eq (h : f.Over) : f.metadata = none := by
  by_contra hmetadata
  have hphase := h.kept.orderly.phase_of_metadata (Option.isSome_iff_ne_none.mpr hmetadata)
  have hterminal := h.isTerminal
  simp [hphase, Phase.isTerminal] at hterminal

/-- All feeds are gone, for none has a place. -/
theorem Over.feed_gone (h : f.Over) {feed : LiveFeed} (hfeed : feed ∈ f.feeds) :
    feed.line.isStopped = true ∨ feed.exit?.isSome := by
  refine (h.kept.staffed.feed_dismissed feed hfeed).resolve_left ?_
  simp [Director.current, h.isVacant.1]

/-- All checkouts are gone, for none has a place. -/
theorem Over.checkout_gone (h : f.Over) {c : Checkout} (hc : c ∈ f.checkouts) :
    c.line.isStopped = true ∨ c.hasEnded = true := by
  refine (h.kept.staffed.checkout_dismissed c hc).resolve_left ?_
  simp [Director.current, h.isVacant.2]

/-- When the sale is over, what reaches the director leaves no order behind. -/
theorem Over.reached (h : f.Over) (hg : Silent f g) (hdirector : g.director = f.director)
    {a : Arrival} (ha : ∀ result, a ≠ .project result) (now : Timestamp) :
    Silent f (g.reached env now a) := by
  have houtbox := h.kept.orderly.outbox_eq
  have hrest := Phase.not_isRunning_of_isTerminal h.isTerminal
  -- Outside of the phases of a running sale there is nothing to settle.
  have hkept : ∀ d : Director, d.phase = f.director.phase → d.outbox = [] →
      Silent f (g.seat (d.settle (env.account g.world) now)
        (d.settle (env.account g.world) now).snapshot) := by
    intro d hphase hempty
    rw [Director.settle_of_not_running (hphase ▸ hrest)]
    exact hg.seat hempty hphase _
  rw [Floor.reached, hdirector]
  cases a with
  | project result => exact absurd rfl (ha result)
  | event event =>
      refine hkept _ (Director.takeEvent_phase _ event) ?_
      rw [Director.receive, h.isVacant.takeEvent_outbox, houtbox]
  | message m =>
      rw [Director.receive, h.isVacant.takeMessage]
      exact hkept f.director rfl houtbox

theorem Over.directorTurn (h : f.Over) (env : Environment σ) (now : Timestamp) :
    Silent f (f.directorTurn env now).2.2 := by
  have hasked : ∀ {a g}, Reach env f a g → g.asked = f.asked := by
    intro a g hreach
    simp [hreach.asked, inquiries, h.metadata_eq]
  have hturned := directorTurn_turned env now f
  generalize (f.directorTurn env now).2.2 = g at hturned ⊢
  cases hturned with
  | closed hopen => exact .refl f
  | shut hopen hshut =>
      have hgone : Silent f (f.giveUp env) := ⟨rfl, rfl, rfl, rfl⟩
      refine hgone.seat ?_ (by simp [Director.dispose]) _
      rw [h.isVacant.dispose_outbox, h.kept.orderly.outbox_eq]
  | waits hopen hshut hnext =>
      have hreach := next_reach hnext
      exact silent_of_spared hreach.spared (hasked hreach)
  | @took a g hopen hshut hnext =>
      have hreach := next_reach hnext
      refine h.reached (silent_of_spared hreach.spared (hasked hreach)) hreach.spared.director_eq
        ?_ now
      -- The project has come before, so it does not come now.
      rintro result rfl
      have hwaiting := hreach.metadata.1
      simp [h.metadata_eq] at hwaiting

theorem Over.feedTurn (h : f.Over) (env : Environment σ) (generation : Nat) :
    Silent f (f.feedTurn env generation) := by
  rcases feedTurn_cases env generation f with ⟨-, hsame⟩ | ⟨feed, hfeed, hgeneration, -, hturn⟩
  · rw [hsame]
    exact .refl f
  · have hcalls := LiveFeed.asked_of_gone env f.clock (h.feed_gone hfeed) f.world
    rw [hturn]
    refine ⟨rfl, ?_, by simp [hcalls], rfl⟩
    refine generations_mapFeed (f := f) fun _ _ _ => ?_
    rw [(feed.turn_keeps env f.clock f.world).line_eq, hgeneration]

theorem Over.checkoutTurn (h : f.Over) (env : Environment σ) (generation : Nat) :
    Silent f (f.checkoutTurn env generation) := by
  rcases checkoutTurn_cases env generation f with ⟨-, hsame⟩ | ⟨c, hc, hgeneration, -, hturn⟩
  · rw [hsame]
    exact .refl f
  · have hcalls := Checkout.asked_of_gone env f.price (h.checkout_gone hc) f.world
    rw [hturn]
    refine ⟨rfl, ?_, by simp [hcalls], rfl⟩
    refine generations_mapCheckout (f := f) fun _ _ _ => ?_
    rw [(c.turn_keeps env f.price f.world).line_eq, hgeneration]

theorem Over.act (h : f.Over) (env : Environment σ) (act : Act σ) : Silent f (f.act env act) := by
  cases act with
  | director now => exact h.directorTurn env now
  | feed generation => exact h.feedTurn env generation
  | checkout generation => exact h.checkoutTurn env generation
  | post event =>
      rw [Floor.act, post]
      split
      · exact ⟨rfl, rfl, rfl, rfl⟩
      · exact .refl f
  | shutDown =>
      refine ⟨rfl, ?_, rfl, rfl⟩
      simp [generations, Floor.act, Floor.shutDown, Function.comp_def, LiveFeed.stop,
        Checkout.stop]
  | wait | change => exact ⟨rfl, rfl, rfl, rfl⟩

/-! ## Every run -/

/-- Once a sale is over, nothing that happens changes its phase, opens a worker, asks a collaborator
for anything or tells anybody of a purchase. -/
theorem run_silent (env : Environment σ) (start : Start) (interval : Nat) (isTracked : Bool)
    (world : σ) (acts more : List (Act σ))
    (hover : ((initial start interval isTracked world).run env acts).director.phase.isTerminal =
      true) :
    Silent ((initial start interval isTracked world).run env acts)
      ((initial start interval isTracked world).run env (acts ++ more)) := by
  have hkept := kept_run env start interval isTracked world acts
  rw [run_append]
  generalize (initial start interval isTracked world).run env acts = f at hover hkept ⊢
  have hrun : Silent f (f.run env more) ∧ (f.run env more).Over := by
    refine run_invariant (P := fun g => Silent f g ∧ g.Over) ?_ ⟨.refl f, hkept, hover⟩ more
    rintro g act ⟨hsilent, hg⟩
    have hact := hg.act env act
    exact ⟨hsilent.trans hact, hg.kept.act env act, hact.phase_eq ▸ hg.isTerminal⟩
  exact hrun.1

end Floor

/-- The small sale fails while a purchase is about to be sent: the checkout never sends it, although
the host goes on and its client is replaced. -/
theorem Floor.run_silent_failing :
    let acts := Sample.opening ++ [.checkout 2, .director Sample.noon, .director Sample.noon,
      .post (.command (.purchase ⟨none, none⟩)), .director Sample.noon, .post (.error "fire"),
      .director Sample.noon]
    let more := [.checkout 2, .post (.chainAvailable ⟨"other"⟩), .director Sample.noon,
      .wait 10, .feed 1, .post (.command .reset), .director Sample.noon]
    (Sample.floor.run Sample.environment acts).director.phase = .error ∧
      Silent (Sample.floor.run Sample.environment acts)
        (Sample.floor.run Sample.environment (acts ++ more)) :=
  ⟨by decide +kernel, run_silent _ _ _ _ _ _ _ (by decide +kernel)⟩

end Sale

end MintSale
