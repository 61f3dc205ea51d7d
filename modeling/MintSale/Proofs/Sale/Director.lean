import MintSale.Proofs.Sale.Report
import MintSale.Proofs.Sale.Settling
import MintSale.Sale.Director

/-!
# The director between two arrivals

A director takes in one thing and settles. What it takes in may leave its phase and its workers at
odds; settling brings them in step again.
-/

namespace MintSale

namespace Sale

/-- A sale that waits or is ready has workers. -/
def Phase.IsRunning (phase : Phase) : Prop :=
  phase = .idle ∨ phase = .readyForSale

/-- Something that reaches a director. -/
inductive Arrival where
  | project (result : Except Fault Project)
  | event (event : Event)
  | message (message : Message)

/-- The event that arrives, if it is one. -/
def Arrival.event? : Arrival → Option Event
  | .event e => some e
  | _ => none

/-- The message that arrives, if it is one. -/
def Arrival.message? : Arrival → Option Message
  | .message m => some m
  | _ => none

namespace Director

/-- Takes in what arrives. -/
def receive (d : Director) : Arrival → Director
  | .project result => d.takeProject result
  | .event event => d.takeEvent event
  | .message message => d.takeMessage message

variable {accounts : Accounts} {now : Timestamp} {d : Director}

/-! ## Workers -/

theorem closeFeed_eq (d : Director) :
    d.closeFeed = { d with
      feed := none
      outbox := d.outbox ++ (d.feed.map fun slot => .closeFeed slot.generation).toList } := by
  unfold closeFeed
  cases hfeed : d.feed with
  | none =>
      cases d
      simp_all
  | some slot => rfl

theorem closeCheckout_eq (d : Director) :
    d.closeCheckout = { d with
      checkout := none
      purchase := none
      outbox := d.outbox ++
        (d.checkout.map fun slot => .closeCheckout slot.generation).toList } := by
  unfold closeCheckout
  cases hcheckout : d.checkout with
  | none =>
      cases d
      simp_all
  | some slot => rfl

@[simp] theorem closeFeed_phase (d : Director) : d.closeFeed.phase = d.phase := by
  rw [closeFeed_eq]

@[simp] theorem closeFeed_context (d : Director) : d.closeFeed.context = d.context := by
  rw [closeFeed_eq]

@[simp] theorem closeFeed_feed (d : Director) : d.closeFeed.feed = none := by
  rw [closeFeed_eq]

@[simp] theorem closeFeed_checkout (d : Director) : d.closeFeed.checkout = d.checkout := by
  rw [closeFeed_eq]

@[simp] theorem closeFeed_purchase (d : Director) : d.closeFeed.purchase = d.purchase := by
  rw [closeFeed_eq]

@[simp] theorem closeCheckout_phase (d : Director) : d.closeCheckout.phase = d.phase := by
  rw [closeCheckout_eq]

@[simp] theorem closeCheckout_context (d : Director) : d.closeCheckout.context = d.context := by
  rw [closeCheckout_eq]

@[simp] theorem closeCheckout_feed (d : Director) : d.closeCheckout.feed = d.feed := by
  rw [closeCheckout_eq]

@[simp] theorem closeCheckout_checkout (d : Director) : d.closeCheckout.checkout = none := by
  rw [closeCheckout_eq]

@[simp] theorem closeCheckout_purchase (d : Director) : d.closeCheckout.purchase = none := by
  rw [closeCheckout_eq]

@[simp] theorem closeCheckout_board (d : Director) : d.closeCheckout.board = d.board := by
  rw [closeCheckout_eq]

theorem closeFeed_of_none (h : d.feed = none) : d.closeFeed = d := by
  simp [closeFeed, h]

theorem closeCheckout_of_none (h : d.checkout = none) (hpurchase : d.purchase = none) :
    d.closeCheckout = d := by
  cases d
  simp_all [closeCheckout]

theorem openFeed_of_isSome (h : d.feed.isSome) : d.openFeed = d := by
  unfold openFeed
  split <;> simp_all

theorem openFeed_of_none {project : Project} {chain : ChainClient} (hfeed : d.feed = none)
    (hproject : d.context.project = some project) (hchain : d.context.chain = some chain) :
    d.openFeed = { d with
      feed := some ⟨d.generation + 1, ⟨project, chain⟩⟩
      generation := d.generation + 1
      outbox := d.outbox ++ [.openFeed ⟨d.generation + 1, ⟨project, chain⟩⟩] } := by
  simp [openFeed, hfeed, hproject, hchain, order]

theorem openCheckout_of_isSome (h : d.checkout.isSome) : d.openCheckout = d := by
  unfold openCheckout
  split <;> simp_all

theorem openCheckout_of_none {project : Project} {chain : ChainClient} {wallet : WalletClient}
    {kind : MinterKind} (hcheckout : d.checkout = none)
    (hproject : d.context.project = some project) (hchain : d.context.chain = some chain)
    (hwallet : d.context.wallet = some wallet) (hkind : project.support = .supported kind) :
    d.openCheckout = { d with
      checkout := some ⟨d.generation + 1, ⟨project, kind, chain, wallet⟩⟩
      purchase := some .initial
      generation := d.generation + 1
      outbox := d.outbox ++
        [.openCheckout ⟨d.generation + 1, ⟨project, kind, chain, wallet⟩⟩] } := by
  simp [openCheckout, hcheckout, hproject, hchain, hwallet, hkind, order]

/-- A director opens a feed only if it has none and knows the project and the chain. -/
theorem openFeed_cases (d : Director) :
    d.openFeed = d ∨ ∃ project chain, d.feed = none ∧ d.context.project = some project ∧
      d.context.chain = some chain := by
  unfold openFeed
  split
  · next project chain hfeed hproject hchain => exact .inr ⟨project, chain, hfeed, hproject, hchain⟩
  · exact .inl rfl

theorem openCheckout_cases (d : Director) :
    d.openCheckout = d ∨ ∃ project chain wallet kind, d.checkout = none ∧
      d.context.project = some project ∧ d.context.chain = some chain ∧
      d.context.wallet = some wallet ∧ project.support = .supported kind := by
  unfold openCheckout
  split
  · next project chain wallet hcheckout hproject hchain hwallet =>
    split
    · next kind hkind =>
      exact .inr ⟨project, chain, wallet, kind, hcheckout, hproject, hchain, hwallet, hkind⟩
    · exact .inl rfl
  · exact .inl rfl

@[simp] theorem openFeed_context (d : Director) : d.openFeed.context = d.context := by
  unfold openFeed
  split <;> rfl

@[simp] theorem openFeed_checkout (d : Director) : d.openFeed.checkout = d.checkout := by
  unfold openFeed
  split <;> rfl

@[simp] theorem openFeed_purchase (d : Director) : d.openFeed.purchase = d.purchase := by
  unfold openFeed
  split <;> rfl

@[simp] theorem openCheckout_context (d : Director) : d.openCheckout.context = d.context := by
  unfold openCheckout
  split
  · split <;> rfl
  · rfl

@[simp] theorem openCheckout_feed (d : Director) : d.openCheckout.feed = d.feed := by
  unfold openCheckout
  split
  · split <;> rfl
  · rfl

theorem openFeed_isSome (hproject : d.context.project.isSome) (hchain : d.context.chain.isSome) :
    d.openFeed.feed.isSome := by
  obtain ⟨project, hproject⟩ := Option.isSome_iff_exists.mp hproject
  obtain ⟨chain, hchain⟩ := Option.isSome_iff_exists.mp hchain
  cases hfeed : d.feed with
  | none => simp [openFeed_of_none hfeed hproject hchain]
  | some slot =>
      rw [openFeed_of_isSome (by simp [hfeed])]
      simp [hfeed]

theorem openCheckout_isSome {wallet : WalletClient} {account : Address} {project : Project}
    {kind : MinterKind} {live : LiveSaleData}
    (h : d.context.Ready accounts now wallet account project kind live) :
    d.openCheckout.checkout.isSome := by
  obtain ⟨chain, hchain⟩ := Option.isSome_iff_exists.mp h.chain_isSome
  cases hcheckout : d.checkout with
  | none => simp [openCheckout_of_none hcheckout h.project_eq hchain h.wallet_eq h.support_eq]
  | some slot =>
      rw [openCheckout_of_isSome (by simp [hcheckout])]
      simp [hcheckout]

/-! ## What holds at any time -/

/-- What holds of a director at any time between two actions: it only has workers where the phase
allows them, and they work with what the context tells. -/
structure Sound (d : Director) : Prop where
  purchase_iff : d.purchase.isSome ↔ d.checkout.isSome
  phase_of_checkout : d.checkout.isSome → d.phase = .readyForSale
  phase_of_feed : d.feed.isSome → d.phase.IsRunning
  error_of_phase : d.phase = .error → d.context.error.isSome
  reason_of_phase : d.phase = .ineligible → d.context.ineligibleReason.isSome
  feed_setup : ∀ slot, d.feed = some slot →
    d.context.project = some slot.setup.project ∧ d.context.chain = some slot.setup.chain
  checkout_setup : ∀ slot, d.checkout = some slot →
    d.context.project = some slot.setup.project ∧ d.context.chain = some slot.setup.chain ∧
      d.context.wallet = some slot.setup.wallet ∧
      slot.setup.project.support = .supported slot.setup.kind
  board_eq : d.board = d.context.live

theorem Sound.checkout_of_phase_ne (h : d.Sound) (hphase : d.phase ≠ .readyForSale) :
    d.checkout = none ∧ d.purchase = none := by
  have hcheckout : d.checkout = none := by
    cases hc : d.checkout with
    | none => rfl
    | some slot => exact absurd (h.phase_of_checkout (by simp [hc])) hphase
  have hpurchase := h.purchase_iff
  simp only [hcheckout, Option.isSome_none, Bool.false_eq_true, iff_false, Bool.not_eq_true,
    Option.isSome_eq_false_iff, Option.isNone_iff_eq_none] at hpurchase
  exact ⟨hcheckout, hpurchase⟩

theorem Sound.feed_of_not_running (h : d.Sound) (hphase : ¬ d.phase.IsRunning) :
    d.feed = none := by
  cases hf : d.feed with
  | none => rfl
  | some slot => exact absurd (h.phase_of_feed (by simp [hf])) hphase

/-! ## What settling comes to -/

/-- What a director that settles comes to. -/
inductive Outcome (accounts : Accounts) (now : Timestamp) (d : Director) : Director → Prop where
  | stays (hphase : ¬ d.phase.IsRunning) : Outcome accounts now d d
  | ready (hphase : d.phase.IsRunning) (hready : d.context.isReady accounts now = true) :
      Outcome accounts now d { d.openFeed.openCheckout with phase := .readyForSale }
  | failed (herror : d.context.error.isSome) :
      Outcome accounts now d { d.closeCheckout.closeFeed with phase := .error }
  | ruledOut (reason : String) (hreason : d.context.objection = some reason) :
      Outcome accounts now d { d.closeCheckout.closeFeed with
        phase := .ineligible
        context := { d.context with ineligibleReason := some reason } }
  | complete (hcomplete : d.context.isComplete = true) :
      Outcome accounts now d { d.closeCheckout.closeFeed with phase := .complete }
  | unplugged (hobjection : d.context.objection = none) (hchain : d.context.chain = none) :
      Outcome accounts now d { d.closeCheckout.closeFeed with phase := .idle }
  | waiting (hphase : d.phase.IsRunning) (hobjection : d.context.objection = none)
      (hchain : d.context.chain.isSome) :
      Outcome accounts now d { d.closeCheckout.openFeed with phase := .idle }

theorem openFeed_openCheckout_twice (hproject : d.context.project.isSome)
    (hchain : d.context.chain.isSome) (hcheckout : d.openFeed.openCheckout.checkout.isSome) :
    d.openFeed.openCheckout.openFeed.openCheckout = d.openFeed.openCheckout := by
  have hfeed : d.openFeed.openCheckout.feed.isSome := by
    simpa using openFeed_isSome hproject hchain
  rw [openFeed_of_isSome hfeed, openCheckout_of_isSome hcheckout]

theorem settle_of_isReady (hphase : d.phase.IsRunning)
    (hready : d.context.isReady accounts now = true) :
    d.settle accounts now = { d.openFeed.openCheckout with phase := .readyForSale } := by
  obtain ⟨wallet, account, project, kind, live, h⟩ := Context.isReady_iff.mp hready
  have hcheckout : d.openFeed.openCheckout.checkout.isSome :=
    openCheckout_isSome (by simpa using h)
  rcases hphase with hphase | hphase
  · rw [settle, hphase, settle_idle_of_isReady hready]
    simp only [readyActions, List.cons_append, List.nil_append, List.foldl_cons, List.foldl_nil,
      apply]
    rw [openFeed_openCheckout_twice (by simp [h.project_eq]) h.chain_isSome hcheckout]
  · rw [settle, hphase, settle_ready_of_isReady hready]
    rfl

/-- A running sale that is not ready closes its checkout and decides as a waiting one. -/
theorem Sound.settle_of_not_isReady (h : d.Sound) (hphase : d.phase.IsRunning)
    (hready : d.context.isReady accounts now = false) :
    d.settle accounts now =
      { (decideIdle accounts now d.context).actions.foldl apply d.closeCheckout with
        phase := (decideIdle accounts now d.context).phase } := by
  rcases hphase with hphase | hphase
  · obtain ⟨hcheckout, hpurchase⟩ := h.checkout_of_phase_ne (by simp [hphase])
    rw [settle, hphase, settle_idle_of_not_isReady hready,
      closeCheckout_of_none hcheckout hpurchase]
  · rw [settle, hphase, settle_ready_of_not_isReady hready]
    rfl

/-- Outside of the two phases of a running sale a director has settled. -/
theorem settle_of_not_running (hphase : ¬ d.phase.IsRunning) : d.settle accounts now = d := by
  have hnot : d.phase ≠ .idle ∧ d.phase ≠ .readyForSale := by simpa [Phase.IsRunning] using hphase
  rw [settle, settle_of_phase_ne hnot.1 hnot.2]
  rfl

/-- Whatever a director has taken in, settling comes to one of the outcomes. -/
theorem Sound.settle_outcome (h : d.Sound) (accounts : Accounts) (now : Timestamp) :
    Outcome accounts now d (d.settle accounts now) := by
  by_cases hphase : d.phase.IsRunning
  · cases hready : d.context.isReady accounts now with
    | true =>
        rw [settle_of_isReady hphase hready]
        exact .ready hphase hready
    | false =>
        have hstop : stopActions.foldl apply d.closeCheckout = d.closeCheckout.closeFeed :=
          closeCheckout_of_none (by simp [apply])
            (by simp [apply])
        have hcontext : d.closeCheckout.closeFeed.context = d.context := by
          simp
        have hverdict := decideIdle_verdict accounts now d.context
        rw [h.settle_of_not_isReady hphase hready]
        generalize decideIdle accounts now d.context = decision at hverdict
        cases hverdict with
        | failed herror =>
            rw [hstop]
            exact .failed herror
        | ruledOut herror reason hreason =>
            have hrecord : Outcome accounts now d _ := .ruledOut reason hreason
            rw [List.foldl_append, hstop]
            cases hkept : d.context.ineligibleReason with
            | none => simpa [apply, hcontext] using hrecord
            | some kept =>
                -- The reason on record is the objection, so recording it changes nothing.
                have hreason' : kept = reason := by
                  simpa [Context.objection, hkept] using hreason
                have hsame : { d.context with ineligibleReason := some reason } = d.context := by
                  rw [← hreason', ← hkept]
                rw [hsame, ← hcontext] at hrecord
                exact hrecord
        | complete herror hobjection hcomplete =>
            rw [hstop]
            exact .complete hcomplete
        | ready h' => simp [hready] at h'
        | unplugged herror hobjection hchain => exact .unplugged hobjection hchain
        | waiting herror hobjection hchain => exact .waiting hphase hobjection hchain
  · rw [settle_of_not_running hphase]
    exact .stays hphase

/-- Settling only adds to what is on record against the sale. -/
theorem Sound.settle_context (h : d.Sound) (accounts : Accounts) (now : Timestamp) :
    ∃ reason, (d.settle accounts now).context = { d.context with ineligibleReason := reason } := by
  have houtcome := h.settle_outcome accounts now
  generalize d.settle accounts now = d' at houtcome ⊢
  cases houtcome with
  | stays => exact ⟨_, rfl⟩
  | ruledOut reason => exact ⟨some reason, rfl⟩
  | ready | failed | complete | unplugged | waiting => exact ⟨d.context.ineligibleReason, by simp⟩

/-! ## In step -/

/-- The phase, the workers and what is known agree. -/
structure InStep (d : Director) : Prop where
  checkout_iff : d.checkout.isSome ↔ d.phase = .readyForSale
  purchase_iff : d.purchase.isSome ↔ d.phase = .readyForSale
  feed_iff : d.feed.isSome ↔ d.phase.IsRunning ∧ d.context.chain.isSome
  project_of_running : d.phase.IsRunning → d.context.project.isSome
  error_of_phase : d.phase = .error → d.context.error.isSome
  reason_of_phase : d.phase = .ineligible → d.context.ineligibleReason.isSome

theorem Sound.openFeed (h : d.Sound) (hphase : d.phase.IsRunning) : d.openFeed.Sound := by
  rcases openFeed_cases d with hsame | ⟨project, chain, hfeed, hproject, hchain⟩
  · rwa [hsame]
  · rw [openFeed_of_none hfeed hproject hchain]
    refine { h with phase_of_feed := fun _ => hphase, feed_setup := ?_ }
    rintro slot ⟨⟩
    exact ⟨hproject, hchain⟩

theorem Sound.closeFeed (h : d.Sound) : d.closeFeed.Sound := by
  rw [closeFeed_eq]
  exact { h with phase_of_feed := by simp, feed_setup := by simp }

theorem Sound.closeCheckout (h : d.Sound) : d.closeCheckout.Sound := by
  rw [closeCheckout_eq]
  exact { h with
    purchase_iff := by simp
    phase_of_checkout := by simp
    checkout_setup := by simp }

theorem Sound.openCheckout (h : d.Sound) :
    { d.openCheckout with phase := .readyForSale : Director }.Sound := by
  have hready : { d with phase := .readyForSale : Director }.Sound :=
    { h with
      phase_of_checkout := fun _ => rfl
      phase_of_feed := fun _ => .inr rfl
      error_of_phase := by simp
      reason_of_phase := by simp }
  rcases openCheckout_cases d with
    hsame | ⟨project, chain, wallet, kind, hcheckout, hproject, hchain, hwallet, hkind⟩
  · rwa [hsame]
  · rw [openCheckout_of_none hcheckout hproject hchain hwallet hkind]
    refine { hready with
      purchase_iff := by simp, phase_of_checkout := fun _ => rfl, checkout_setup := ?_ }
    rintro slot ⟨⟩
    exact ⟨hproject, hchain, hwallet, hkind⟩

/-- A director without workers may be in any phase for which there is a reason. -/
theorem Sound.closed (h : d.Sound) (phase : Phase)
    (herror : phase = .error → d.context.error.isSome)
    (hreason : phase = .ineligible → d.context.ineligibleReason.isSome) :
    { d.closeCheckout.closeFeed with phase := phase : Director }.Sound := by
  have hclosed := h.closeCheckout.closeFeed
  have hcontext : d.closeCheckout.closeFeed.context = d.context := by
    simp
  refine { hclosed with
    phase_of_checkout := by simp
    phase_of_feed := by simp
    error_of_phase := ?_
    reason_of_phase := ?_ }
  · intro hphase
    simpa [hcontext] using herror hphase
  · intro hphase
    simpa [hcontext] using hreason hphase

theorem Outcome.sound {d' : Director} (h : d.Sound) (hd : Outcome accounts now d d') :
    d'.Sound := by
  cases hd with
  | stays hphase => exact h
  | ready hphase hready => exact (h.openFeed hphase).openCheckout
  | failed herror => exact h.closed .error (fun _ => herror) (by simp)
  | ruledOut reason hreason =>
      have hruled : { d with
          context := { d.context with ineligibleReason := some reason } : Director }.Sound :=
        { h with error_of_phase := h.error_of_phase, reason_of_phase := fun _ => rfl }
      simpa [closeFeed_eq, closeCheckout_eq] using
        hruled.closed .ineligible (by simp) (fun _ => rfl)
  | complete hcomplete => exact h.closed .complete (by simp) (by simp)
  | unplugged hobjection hchain => exact h.closed .idle (by simp) (by simp)
  | waiting hphase hobjection hchain =>
      have hphase' : d.closeCheckout.phase.IsRunning := by simpa using hphase
      have hopened := h.closeCheckout.openFeed hphase'
      refine { hopened with
        phase_of_checkout := by simp
        phase_of_feed := fun _ => .inl rfl
        error_of_phase := by simp
        reason_of_phase := by simp }

theorem Outcome.inStep {d' : Director} (h : d.Sound) (hd : Outcome accounts now d d') :
    d'.InStep := by
  have hsound := hd.sound h
  cases hd with
  | stays hphase =>
      have hphase' : d.phase ≠ .readyForSale := fun hready => hphase (.inr hready)
      obtain ⟨hcheckout, hpurchase⟩ := h.checkout_of_phase_ne hphase'
      exact {
        checkout_iff := by simp [hcheckout, hphase']
        purchase_iff := by simp [hpurchase, hphase']
        feed_iff := by simp [h.feed_of_not_running hphase, hphase]
        project_of_running := fun hrunning => absurd hrunning hphase
        error_of_phase := h.error_of_phase
        reason_of_phase := h.reason_of_phase }
  | ready hphase hready =>
      obtain ⟨wallet, account, project, kind, live, hctx⟩ := Context.isReady_iff.mp hready
      have hproject : d.context.project.isSome := by simp [hctx.project_eq]
      have hcheckout : d.openFeed.openCheckout.checkout.isSome :=
        openCheckout_isSome (by simpa using hctx)
      have hfeed := openFeed_isSome hproject hctx.chain_isSome
      exact {
        checkout_iff := by simpa using hcheckout
        purchase_iff := by simpa [hsound.purchase_iff] using hcheckout
        feed_iff := by simp [hfeed, hctx.chain_isSome, Phase.IsRunning]
        project_of_running := fun _ => by simpa using hproject
        error_of_phase := by simp
        reason_of_phase := by simp }
  | waiting hphase hobjection hchain =>
      have hproject := Context.project_isSome_of_objection hobjection
      have hfeed : d.closeCheckout.openFeed.feed.isSome :=
        openFeed_isSome (by simpa using hproject)
          (by simpa using hchain)
      exact {
        checkout_iff := by simp
        purchase_iff := by simp
        feed_iff := by simp [hfeed, hchain, Phase.IsRunning]
        project_of_running := fun _ => by simpa using hproject
        error_of_phase := by simp
        reason_of_phase := by simp }
  | unplugged hobjection hchain =>
      have hproject := Context.project_isSome_of_objection hobjection
      exact {
        checkout_iff := by simp
        purchase_iff := by simp
        feed_iff := by simp [hchain]
        project_of_running := fun _ => by simpa using hproject
        error_of_phase := by simp
        reason_of_phase := by simp }
  | failed | ruledOut | complete =>
      -- The sale is over: there are no workers, and the reason for the phase is on record.
      exact {
        checkout_iff := by simp
        purchase_iff := by simp
        feed_iff := by simp [Phase.IsRunning]
        project_of_running := by simp [Phase.IsRunning]
        error_of_phase := hsound.error_of_phase
        reason_of_phase := hsound.reason_of_phase }

/-- A director is only ready for sale if what it knew when it settled was. -/
theorem Outcome.isReady {d' : Director} (hd : Outcome accounts now d d')
    (hphase : d'.phase = .readyForSale) :
    d'.context = d.context ∧ d.context.isReady accounts now = true := by
  cases hd with
  | stays hrest => exact absurd (.inr hphase) hrest
  | ready hrunning hready => exact ⟨by simp, hready⟩
  | failed | ruledOut | complete | unplugged | waiting => simp at hphase

/-- Settling brings the director in step. -/
theorem Sound.settle (h : d.Sound) (accounts : Accounts) (now : Timestamp) :
    (d.settle accounts now).Sound ∧ (d.settle accounts now).InStep :=
  ⟨(h.settle_outcome accounts now).sound h, (h.settle_outcome accounts now).inStep h⟩

/-! ## Taking things in -/

/-- Whether something may reach a director in its state: the project only comes while it is waited
for. -/
def Admits (d : Director) : Arrival → Prop
  | .project _ => d.phase = .fetchingProjectData
  | .event _ => True
  | .message m => m.IsProper

/-- Another chain client, or none, closes all workers. -/
theorem Sound.replaceChain (h : d.Sound) (chain : Option ChainClient) :
    { d with context := { d.context with chain := chain } : Director }.dropChainState.Sound where
  purchase_iff := by simp [dropChainState]
  phase_of_checkout := by simp [dropChainState]
  phase_of_feed := by simp [dropChainState]
  error_of_phase := by simpa [dropChainState] using h.error_of_phase
  reason_of_phase := by simpa [dropChainState] using h.reason_of_phase
  feed_setup := by simp [dropChainState]
  checkout_setup := by simp [dropChainState]
  board_eq := rfl

/-- Another wallet, or none, closes the checkout. -/
theorem Sound.replaceWallet (h : d.Sound) (wallet : Option WalletClient) :
    { d with context := { d.context with wallet := wallet } : Director }.closeCheckout.Sound where
  purchase_iff := by simp
  phase_of_checkout := by simp
  phase_of_feed := by simpa using h.phase_of_feed
  error_of_phase := by simpa using h.error_of_phase
  reason_of_phase := by simpa using h.reason_of_phase
  feed_setup := by simpa using h.feed_setup
  checkout_setup := by simp
  board_eq := by simpa using h.board_eq

theorem Sound.takeLiveData (h : d.Sound) (data : LiveSaleData) : (d.takeLiveData data).Sound := by
  rw [Director.takeLiveData]
  refine { h with error_of_phase := h.error_of_phase, reason_of_phase := ?_, board_eq := rfl }
  intro hphase
  have hkept := h.reason_of_phase hphase
  simp only
  split
  · rfl
  · exact hkept

theorem Sound.takeError (h : d.Sound) (message : String) : (d.takeError message).Sound := by
  rw [Director.takeError]
  refine { h with error_of_phase := fun _ => ?_, reason_of_phase := h.reason_of_phase }
  cases d.context.error <;> simp

theorem Sound.takeEvent (h : d.Sound) (event : Event) : (d.takeEvent event).Sound := by
  cases event with
  | chainAvailable client =>
      rw [Director.takeEvent]
      split
      · exact h
      · exact h.replaceChain (some client)
  | chainUnavailable => exact h.replaceChain none
  | walletAvailable client =>
      rw [Director.takeEvent]
      split
      · exact h
      · exact h.replaceWallet (some client)
  | walletUnavailable => exact h.replaceWallet none
  | liveData data => exact h.takeLiveData data
  | error message => exact h.takeError message
  | command command =>
      rw [Director.takeEvent]
      split
      · exact { h with }
      · exact h

theorem Sound.takeMessage (h : d.Sound) {m : Message} (hm : m.IsProper) :
    (d.takeMessage m).Sound := by
  obtain ⟨role, generation, report⟩ := m
  rw [Director.takeMessage]
  by_cases hcurrent : d.current role = some generation
  · rw [if_pos hcurrent]
    cases report with
    | liveData data => exact h.takeLiveData data
    | failed message =>
        cases role with
        | feed =>
            have hwithout : { d with feed := none : Director }.Sound :=
              { h with phase_of_feed := by simp, feed_setup := by simp }
            exact hwithout.takeError message
        | checkout => exact h.takeError message
    | purchaseState state =>
        cases role with
        | feed => exact hm.elim
        | checkout =>
            have hcheckout : d.checkout.isSome := by
              obtain ⟨slot, hslot, -⟩ := Option.map_eq_some_iff.mp hcurrent
              simp [hslot]
            exact { h with purchase_iff := by simp [hcheckout] }
    | submitted txHash purchaseTo => exact { h with }
  · rw [if_neg hcurrent]
    exact h

@[simp] theorem takeEvent_phase (d : Director) (event : Event) :
    (d.takeEvent event).phase = d.phase := by
  cases event with
  | chainAvailable client =>
      rw [Director.takeEvent]
      split <;> simp [dropChainState]
  | walletAvailable client =>
      rw [Director.takeEvent]
      split <;> simp
  | command command =>
      rw [Director.takeEvent]
      split <;> rfl
  | chainUnavailable => simp [Director.takeEvent, dropChainState]
  | walletUnavailable => simp [Director.takeEvent]
  | liveData | error => rfl

@[simp] theorem takeMessage_phase (d : Director) (m : Message) :
    (d.takeMessage m).phase = d.phase := by
  obtain ⟨role, generation, report⟩ := m
  rw [Director.takeMessage]
  split
  · cases report with
    | failed message => cases role <;> rfl
    | _ => rfl
  · rfl

/-- The project comes before there is any worker. -/
theorem Sound.takeProject (h : d.Sound) (hphase : d.phase = .fetchingProjectData)
    (result : Except Fault Project) : (d.takeProject result).Sound := by
  obtain ⟨hcheckout, hpurchase⟩ := h.checkout_of_phase_ne (by simp [hphase])
  have hfeed := h.feed_of_not_running (by simp [hphase, Phase.IsRunning])
  unfold Director.takeProject
  refine {
    purchase_iff := by simp [hcheckout, hpurchase]
    phase_of_checkout := by simp [hcheckout]
    phase_of_feed := by simp [hfeed]
    error_of_phase := by simp
    reason_of_phase := by simp
    feed_setup := by simp [hfeed]
    checkout_setup := by simp [hcheckout]
    board_eq := ?_ }
  have hboard := h.board_eq
  simp only
  split <;> exact hboard

theorem Sound.receive (h : d.Sound) {a : Arrival} (ha : d.Admits a) : (d.receive a).Sound := by
  cases a with
  | project result => exact h.takeProject ha result
  | event event => exact h.takeEvent event
  | message m => exact h.takeMessage ha

theorem sound_initial (start : Start) : (initial start).Sound where
  purchase_iff := by simp [initial]
  phase_of_checkout := by simp [initial]
  phase_of_feed := by simp [initial]
  error_of_phase := by simp [initial]
  reason_of_phase := by simp [initial]
  feed_setup := by simp [initial]
  checkout_setup := by simp [initial]
  board_eq := rfl

theorem inStep_initial (start : Start) : (initial start).InStep where
  checkout_iff := by simp [initial]
  purchase_iff := by simp [initial]
  feed_iff := by simp [initial, Phase.IsRunning]
  project_of_running := by simp [initial, Phase.IsRunning]
  error_of_phase := by simp [initial]
  reason_of_phase := by simp [initial]

end Director

end Sale

end MintSale
