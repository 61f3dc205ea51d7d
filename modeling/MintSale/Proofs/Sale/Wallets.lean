import MintSale.Proofs.Sale.Rest

/-!
# When the wallet connects does not matter

What happens to the wallet and what is heard of the project, the chain and the live data can come in
either order. Once the sale has settled there is no telling in which they came, but by the numbers
of the workers.
-/

namespace MintSale.Sale

/-- What a wallet event leaves: the client that is connected then, if any. -/
def Event.wallet? : Event → Option (Option WalletClient)
  | .walletAvailable client => some (some client)
  | .walletUnavailable => some none
  | _ => none

/-- All that can be told of a director, apart from the numbers of its workers. -/
structure Outline where
  phase : Phase
  context : Context
  purchase : Option PurchaseState
  feed : Option LiveFeed.Setup
  checkout : Option Checkout.Setup
  deriving DecidableEq

namespace Director

/-- What is seen of a director. -/
def outline (d : Director) : Outline :=
  ⟨d.phase, d.context, d.purchase, d.feed.map (·.setup), d.checkout.map (·.setup)⟩

/-- Takes something in, settles, and hands out what is to be done. -/
def process (accounts : Accounts) (now : Timestamp) (d : Director) (a : Arrival) : Director :=
  { (d.receive a).settle accounts now with outbox := [] }

/-- What may come about the project, the chain and the live data. -/
inductive Awaits (d : Director) : Arrival → Prop where
  | project (hphase : d.phase = .fetchingProjectData) (result : Except Fault Project) :
      Awaits d (.project result)
  | liveData (data : LiveSaleData) : Awaits d (.event (.liveData data))
  | error (message : String) : Awaits d (.event (.error message))
  | chainAvailable (client : ChainClient) : Awaits d (.event (.chainAvailable client))
  | chainUnavailable : Awaits d (.event .chainUnavailable)
  | read {slot : FeedSlot} (hslot : d.feed = some slot) (data : LiveSaleData) :
      Awaits d (.message ⟨.feed, slot.generation, .liveData data⟩)
  | failed {slot : FeedSlot} (hslot : d.feed = some slot) (message : String) :
      Awaits d (.message ⟨.feed, slot.generation, .failed message⟩)

variable {accounts : Accounts} {now : Timestamp} {d e : Director} {a : Arrival} {event : Event}
  {wallet : Option WalletClient}

theorem Awaits.admits (h : d.Awaits a) : d.Admits a := by
  cases h with
  | project hphase => exact hphase
  | liveData | error | chainAvailable | chainUnavailable | read | failed => trivial

theorem process_phase : (d.process accounts now a).phase =
    ((d.receive a).settle accounts now).phase :=
  rfl

theorem process_context : (d.process accounts now a).context =
    ((d.receive a).settle accounts now).context :=
  rfl

theorem process_feed : (d.process accounts now a).feed =
    ((d.receive a).settle accounts now).feed :=
  rfl

theorem Sound.process (h : d.Sound) (ha : d.Admits a) (accounts : Accounts) (now : Timestamp) :
    (d.process accounts now a).Sound ∧ (d.process accounts now a).InStep := by
  obtain ⟨hsound, hstep⟩ := (h.receive ha).settle accounts now
  exact ⟨{ hsound with }, { hstep with }⟩

/-! ## Workers follow from the phase and the context -/

theorem feed_setup_eq (hd : d.Sound) (hds : d.InStep) (he : e.Sound) (hes : e.InStep)
    (hphase : d.phase = e.phase) (hcontext : d.context = e.context) :
    d.feed.map (·.setup) = e.feed.map (·.setup) := by
  have hiff : d.feed.isSome ↔ e.feed.isSome := by
    rw [hds.feed_iff, hes.feed_iff, hphase, hcontext]
  cases hdfeed : d.feed with
  | none =>
      have hefeed : e.feed = none := by simpa [hdfeed] using hiff
      simp [hefeed]
  | some slot =>
      obtain ⟨slot', hefeed⟩ := Option.isSome_iff_exists.mp (hiff.mp (by simp [hdfeed]))
      obtain ⟨hproject, hchain⟩ := hd.feed_setup slot hdfeed
      obtain ⟨hproject', hchain'⟩ := he.feed_setup slot' hefeed
      rw [hcontext] at hproject hchain
      have hsame : slot.setup = slot'.setup := by
        rcases hsetup : slot.setup with ⟨project, chain⟩
        rcases hsetup' : slot'.setup with ⟨project', chain'⟩
        simp_all
      simp [hefeed, hsame]

theorem checkout_setup_eq (hd : d.Sound) (hds : d.InStep) (he : e.Sound) (hes : e.InStep)
    (hphase : d.phase = e.phase) (hcontext : d.context = e.context) :
    d.checkout.map (·.setup) = e.checkout.map (·.setup) := by
  have hiff : d.checkout.isSome ↔ e.checkout.isSome := by
    rw [hds.checkout_iff, hes.checkout_iff, hphase]
  cases hdslot : d.checkout with
  | none =>
      have heslot : e.checkout = none := by simpa [hdslot] using hiff
      simp [heslot]
  | some slot =>
      obtain ⟨slot', heslot⟩ := Option.isSome_iff_exists.mp (hiff.mp (by simp [hdslot]))
      have hknown := hd.checkout_setup slot hdslot
      have hknown' := he.checkout_setup slot' heslot
      rw [hcontext] at hknown
      have hsame : slot.setup = slot'.setup := by
        rcases hsetup : slot.setup with ⟨project, kind, chain, wallet⟩
        rcases hsetup' : slot'.setup with ⟨project', kind', chain', wallet'⟩
        simp_all
      simp [heslot, hsame]

/-- The phase, what is known, and the purchase of a sale that is ready make up the outline. -/
theorem outline_eq (hd : d.Sound) (hds : d.InStep) (he : e.Sound) (hes : e.InStep)
    (hphase : d.phase = e.phase) (hcontext : d.context = e.context)
    (hpurchase : d.phase = .readyForSale → d.purchase = e.purchase) : d.outline = e.outline := by
  have hpurchases : d.purchase = e.purchase := by
    by_cases hready : d.phase = .readyForSale
    · exact hpurchase hready
    · rw [(hd.checkout_of_phase_ne hready).2, (he.checkout_of_phase_ne (hphase ▸ hready)).2]
  simp only [outline, hphase, hcontext, hpurchases,
    feed_setup_eq hd hds he hes hphase hcontext, checkout_setup_eq hd hds he hes hphase hcontext]

/-! ## Wallet events -/

theorem context_takeWallet (h : event.wallet? = some wallet) (d : Director) :
    (d.takeEvent event).context = { d.context with wallet := wallet } := by
  cases event with
  | walletAvailable client =>
      obtain rfl := Option.some.inj h
      rw [takeEvent]
      split
      · next hsame => rw [← hsame]
      · simp
  | walletUnavailable =>
      obtain rfl := Option.some.inj h
      simp [takeEvent]
  | chainAvailable | chainUnavailable | liveData | error | command => simp [Event.wallet?] at h

theorem feed_takeWallet (h : event.wallet? = some wallet) (d : Director) :
    (d.takeEvent event).feed = d.feed := by
  cases event with
  | walletAvailable client =>
      rw [takeEvent]
      split <;> simp
  | walletUnavailable => simp [takeEvent]
  | chainAvailable | chainUnavailable | liveData | error | command => simp [Event.wallet?] at h

/-- Another wallet closes the checkout. -/
theorem purchase_takeWallet (h : event.wallet? = some wallet) (hne : d.context.wallet ≠ wallet) :
    (d.takeEvent event).purchase = none := by
  cases event with
  | walletAvailable client =>
      obtain rfl := Option.some.inj h
      simp [takeEvent, hne]
  | walletUnavailable => simp [takeEvent]
  | chainAvailable | chainUnavailable | liveData | error | command => simp [Event.wallet?] at h

/-- The wallet that is connected anyway changes nothing. -/
theorem takeWallet_of_same {client : WalletClient} (h : event.wallet? = some (some client))
    (hsame : d.context.wallet = some client) : d.takeEvent event = d := by
  cases event with
  | walletAvailable other =>
      obtain rfl : other = client := by simpa [Event.wallet?] using h
      simp [takeEvent, hsame]
  | chainAvailable | chainUnavailable | walletUnavailable | liveData | error | command =>
      simp [Event.wallet?] at h

/-! ## Twins -/

/-- One director knows of a wallet what the other one does not, and both run or neither does. -/
structure Twin (wallet : Option WalletClient) (d e : Director) : Prop where
  running_iff : e.phase.IsRunning ↔ d.phase.IsRunning
  phase_eq : ¬ d.phase.IsRunning → e.phase = d.phase
  context_eq : e.context = { d.context with wallet := wallet }

/-- A wallet event does not end a sale. -/
theorem twin_process (h : d.Sound) (hpoised : d.Poised accounts)
    (hevent : event.wallet? = some wallet) (now : Timestamp) :
    Twin wallet d (d.process accounts now (.event event)) := by
  have hphase : (d.takeEvent event).phase = d.phase := takeEvent_phase d event
  have hcontext := context_takeWallet hevent d
  by_cases hrunning : d.phase.IsRunning
  · have hending : (d.takeEvent event).context.ending = none := by
      rw [hcontext]
      exact hpoised.ending_eq hrunning
    obtain ⟨hlands, hlanded⟩ :=
      (h.takeEvent event).settle_landing (hphase ▸ hrunning) accounts now
    refine ⟨?_, fun hnot => absurd hrunning hnot, ?_⟩
    · rw [process_phase, receive, hlands]
      exact iff_of_true (Context.landing_of_none hending) hrunning
    · rw [process_context, receive, hlanded, Context.landed_of_none hending, hcontext]
  · have hstays : (d.takeEvent event).settle accounts now = d.takeEvent event :=
      settle_of_not_running (hphase ▸ hrunning)
    refine ⟨?_, fun _ => ?_, ?_⟩
    · rw [process_phase, receive, hstays, hphase]
    · rw [process_phase, receive, hstays, hphase]
    · rw [process_context, receive, hstays, hcontext]

/-- A wallet event leaves the feed alone. -/
theorem feed_process (h : d.Sound) (hs : d.InStep) (hpoised : d.Poised accounts)
    (hevent : event.wallet? = some wallet) (now : Timestamp) :
    (d.process accounts now (.event event)).feed = d.feed := by
  have hphase : (d.takeEvent event).phase = d.phase := takeEvent_phase d event
  have hfeed := feed_takeWallet hevent d
  obtain ⟨hiff, -, hcontext⟩ := twin_process h hpoised hevent now
  by_cases hrunning : d.phase.IsRunning
  · cases hchain : d.context.chain with
    | none =>
        have hgone : d.feed = none := by simpa [hchain] using hs.feed_iff
        have hstep := (h.process (a := .event event) trivial accounts now).2
        simpa [hgone, hcontext, hchain] using hstep.feed_iff
    | some chain =>
        have hopen : (d.takeEvent event).feed.isSome := by
          rw [hfeed, hs.feed_iff]
          simp [hrunning, hchain]
        have hlands : ((d.takeEvent event).settle accounts now).phase.IsRunning := hiff.mpr hrunning
        have houtcome := (h.takeEvent event).settle_outcome accounts now
        rw [process_feed, receive]
        generalize (d.takeEvent event).settle accounts now = d' at houtcome hlands
        -- The feed that is open stays, for the sale runs on and has its chain client.
        cases houtcome with
        | stays => exact hfeed
        | ready => simpa [openFeed_of_isSome hopen] using hfeed
        | waiting =>
            have hopen' : (d.takeEvent event).closeCheckout.feed.isSome := by simpa using hopen
            simpa [openFeed_of_isSome hopen'] using hfeed
        | unplugged _ hnone => simp [context_takeWallet hevent, hchain] at hnone
        | failed | ruledOut | complete => simp [Phase.IsRunning] at hlands
  · rw [process_feed, receive, settle_of_not_running (hphase ▸ hrunning), hfeed]

/-- Twins that learn the same stay twins. -/
theorem Twin.receive (h : Twin wallet d e) (hfeed : e.feed = d.feed) (ha : d.Awaits a) :
    Twin wallet (d.receive a) (e.receive a) := by
  obtain ⟨hiff, hphase, hcontext⟩ := h
  cases ha with
  | project _ result =>
      refine ⟨Iff.rfl, fun _ => rfl, ?_⟩
      rcases result with fault | project
      · cases fault <;> simp [Director.receive, takeProject, hcontext]
      · simp [Director.receive, takeProject, hcontext]
  | liveData data =>
      exact ⟨hiff, hphase, by simp [Director.receive, takeEvent, takeLiveData, hcontext]⟩
  | error message =>
      exact ⟨hiff, hphase, by simp [Director.receive, takeEvent, takeError, hcontext]⟩
  | chainAvailable client =>
      refine ⟨by simpa [Director.receive] using hiff, by simpa [Director.receive] using hphase, ?_⟩
      by_cases hsame : d.context.chain = some client
      · simp [Director.receive, takeEvent, hcontext, hsame]
      · simp [Director.receive, takeEvent, hcontext, hsame, dropChainState]
  | chainUnavailable =>
      refine ⟨by simpa [Director.receive] using hiff, by simpa [Director.receive] using hphase, ?_⟩
      simp [Director.receive, takeEvent, hcontext, dropChainState]
  | read hslot data =>
      refine ⟨by simpa [Director.receive] using hiff, by simpa [Director.receive] using hphase, ?_⟩
      simp [Director.receive, takeMessage, current, hfeed, hslot, takeLiveData, hcontext]
  | failed hslot message =>
      refine ⟨by simpa [Director.receive] using hiff, by simpa [Director.receive] using hphase, ?_⟩
      simp [Director.receive, takeMessage, current, hfeed, hslot, takeError, hcontext]

/-- A director that has settled and then is told of the wallet ends up as its twin does. -/
theorem Twin.catchUp (h : Twin wallet d e) (hd : d.Sound) (he : e.Sound) {x : Director}
    (hx : x.Sound) (hxphase : x.phase = (d.settle accounts now).phase)
    (hxcontext : x.context = (d.settle accounts now).context)
    (hevent : event.wallet? = some wallet) :
    (x.process accounts now (.event event)).phase = (e.settle accounts now).phase ∧
      (x.process accounts now (.event event)).context = (e.settle accounts now).context := by
  have htaken : (x.takeEvent event).phase = x.phase := takeEvent_phase x event
  have hknown := context_takeWallet hevent x
  rw [process_phase, process_context, Director.receive]
  by_cases hrunning : d.phase.IsRunning
  · obtain ⟨hdphase, hdcontext⟩ := hd.settle_landing hrunning accounts now
    obtain ⟨hephase, hecontext⟩ := he.settle_landing (h.running_iff.mpr hrunning) accounts now
    have hlanded : (x.takeEvent event).context = e.context.landed := by
      rw [hknown, hxcontext, hdcontext, h.context_eq]
      exact (Context.landed_wallet d.context wallet).symm
    have hending : e.context.ending = d.context.ending := by
      rw [h.context_eq, Context.ending_wallet]
    cases hover : d.context.ending with
    | some phase =>
        have hover' : e.context.ending = some phase := hending.trans hover
        have hlands : (x.takeEvent event).phase = phase := by
          rw [htaken, hxphase, hdphase, Context.landing_of_some hover]
        have hstops : ¬ (x.takeEvent event).phase.IsRunning :=
          hlands ▸ Context.not_isRunning_of_ending hover
        rw [settle_of_not_running hstops, hephase, hecontext]
        exact ⟨hlands.trans (Context.landing_of_some hover').symm, hlanded⟩
    | none =>
        have hover' : e.context.ending = none := hending.trans hover
        have hruns : (x.takeEvent event).phase.IsRunning := by
          rw [htaken, hxphase, hdphase]
          exact Context.landing_of_none hover
        obtain ⟨hlast, hlastContext⟩ := (hx.takeEvent event).settle_landing hruns accounts now
        rw [Context.landed_of_none hover'] at hlanded hecontext
        rw [hlast, hlastContext, hlanded, hephase, hecontext]
        exact ⟨rfl, Context.landed_of_none hover'⟩
  · have hstays : ¬ e.phase.IsRunning := fun hruns => hrunning (h.running_iff.mp hruns)
    rw [settle_of_not_running hrunning] at hxphase hxcontext
    have hstops : ¬ (x.takeEvent event).phase.IsRunning := by rwa [htaken, hxphase]
    rw [settle_of_not_running hstops, settle_of_not_running hstays]
    constructor
    · rw [htaken, hxphase, h.phase_eq hrunning]
    · rw [hknown, hxcontext, h.context_eq]

/-! ## The purchase -/

/-- The checkout, if there is one, has told nothing yet. -/
def IsUnspoilt (d : Director) : Prop :=
  d.purchase = none ∨ d.purchase = some .initial

theorem IsUnspoilt.receive (h : d.IsUnspoilt) (ha : e.Awaits a) : (d.receive a).IsUnspoilt := by
  cases ha with
  | project | liveData | error => exact h
  | chainAvailable client =>
      rw [Director.receive, takeEvent]
      split
      · exact h
      · exact .inl (by simp [dropChainState])
  | chainUnavailable => exact .inl (by simp [Director.receive, takeEvent, dropChainState])
  | read | failed =>
      rw [Director.receive, takeMessage]
      split <;> exact h

theorem IsUnspoilt.settle (h : d.IsUnspoilt) (hd : d.Sound) (accounts : Accounts)
    (now : Timestamp) : (d.settle accounts now).IsUnspoilt := by
  have houtcome := hd.settle_outcome accounts now
  generalize d.settle accounts now = d' at houtcome
  cases houtcome with
  | stays => exact h
  | ready =>
      rcases openCheckout_cases d.openFeed with
        hsame | ⟨project, chain, client, kind, hnone, hproject, hchain, hwallet, hkind⟩
      · rw [hsame]
        simpa [IsUnspoilt] using h
      · rw [openCheckout_of_none hnone hproject hchain hwallet hkind]
        exact .inr rfl
  | failed | ruledOut | complete | unplugged | waiting => exact .inl (by simp)

/-- A checkout that has told nothing is where it begins. -/
theorem IsUnspoilt.purchase_eq (h : d.IsUnspoilt) (hs : d.InStep)
    (hphase : d.phase = .readyForSale) : d.purchase = some .initial := by
  have hsome := hs.purchase_iff.mpr hphase
  rcases h with hnone | hinitial
  · simp [hnone] at hsome
  · exact hinitial

/-- What comes changes neither the wallet nor a project that is there. -/
theorem Awaits.keeps (h : d.Awaits a) :
    (d.receive a).context.wallet = d.context.wallet ∧
      (d.phase ≠ .fetchingProjectData → (d.receive a).context.project = d.context.project) := by
  cases h with
  | project hphase result =>
      refine ⟨?_, fun hne => absurd hphase hne⟩
      rcases result with fault | project
      · cases fault <;> rfl
      · rfl
  | liveData | error => exact ⟨rfl, fun _ => rfl⟩
  | chainAvailable client =>
      rw [Director.receive, takeEvent]
      split <;> simp [dropChainState]
  | chainUnavailable => simp [Director.receive, takeEvent, dropChainState]
  | read | failed =>
      rw [Director.receive, takeMessage]
      split <;> exact ⟨rfl, fun _ => rfl⟩

/-- A sale that has been ready and will be when it has learned something is ready meanwhile. -/
theorem Poised.isReady (h : d.Poised accounts) (hphase : d.phase = .readyForSale)
    (ha : d.Awaits a) (hready : (d.receive a).context.isReady accounts now = true) :
    d.context.isReady accounts now = true := by
  have hproject := ha.keeps.2 (by simp [hphase])
  obtain ⟨earlier, hearlier⟩ := h.ready hphase
  obtain ⟨wallet, account, project, kind, live, hctx⟩ := Context.isReady_iff.mp hready
  refine Context.isReady_of_isReady hearlier fun project' hproject' start hstart => ?_
  obtain rfl : project = project' := by
    rw [← hproject, hctx.project_eq] at hproject'
    exact Option.some.inj hproject'
  exact hctx.started start hstart

theorem IsUnspoilt.takeWallet (h : d.IsUnspoilt) (hevent : event.wallet? = some wallet) :
    (d.takeEvent event).IsUnspoilt := by
  by_cases hsame : d.context.wallet = wallet
  · cases wallet with
    | none =>
        cases event with
        | walletUnavailable => exact .inl (by simp [takeEvent])
        | walletAvailable | chainAvailable | chainUnavailable | liveData | error | command =>
            simp [Event.wallet?] at hevent
    | some client => rwa [takeWallet_of_same hevent hsame]
  · exact .inl (purchase_takeWallet hevent hsame)

/-! ## Either order -/

/-- A sale that has been ready with the wallet of the event and still is has not noticed it. -/
theorem process_of_ready (hs : d.InStep) (houtbox : d.outbox = [])
    (hphase : d.phase = .readyForSale) (hready : d.context.isReady accounts now = true)
    (hevent : event.wallet? = some wallet) (hsame : d.context.wallet = wallet) :
    d.process accounts now (.event event) = d := by
  obtain ⟨client, account, project, kind, live, hctx⟩ := Context.isReady_iff.mp hready
  obtain rfl : some client = wallet := hctx.wallet_eq.symm.trans hsame
  rw [process, receive, takeWallet_of_same hevent hsame, hs.settle_of_isReady hphase hready,
    ← houtbox]

/-- A wallet event that the checkout notices leaves no trace of what it has told. -/
theorem isUnspoilt_process (h : d.Sound) (hevent : event.wallet? = some wallet)
    (hnoticed : d.context.wallet ≠ wallet ∨ d.IsUnspoilt) (accounts : Accounts) (now : Timestamp) :
    (d.process accounts now (.event event)).IsUnspoilt := by
  have htaken : (d.takeEvent event).IsUnspoilt := by
    rcases hnoticed with hne | hunspoilt
    · exact .inl (purchase_takeWallet hevent hne)
    · exact hunspoilt.takeWallet hevent
  exact htaken.settle (h.takeEvent event) accounts now

/-- What a director waits for its twin admits. -/
theorem Twin.admits (h : Twin wallet d e) (ha : d.Awaits a) : e.Admits a := by
  cases ha with
  | project hphase => exact (h.phase_eq (by simp [hphase, Phase.IsRunning])).trans hphase
  | liveData | error | chainAvailable | chainUnavailable | read | failed => trivial

theorem Sound.process_wallet (h : d.Sound) (ha : d.Awaits a) (accounts : Accounts)
    (now : Timestamp) : (d.process accounts now a).context.wallet = d.context.wallet := by
  obtain ⟨reason, hsettled⟩ := (h.receive ha.admits).settle_context accounts now
  rw [process_context, hsettled]
  exact ha.keeps.1

/-- A wallet event and something else that comes lead to the same in either order. -/
theorem Sound.process_comm (h : d.Sound) (hs : d.InStep) (houtbox : d.outbox = [])
    (hpoised : d.Poised accounts) (hevent : event.wallet? = some wallet) (ha : d.Awaits a)
    (now : Timestamp) :
    ((d.process accounts now (.event event)).process accounts now a).outline =
      ((d.process accounts now a).process accounts now (.event event)).outline := by
  have htwin := twin_process h hpoised hevent now
  have hlearned := htwin.receive (feed_process h hs hpoised hevent now) ha
  obtain ⟨hsound, -⟩ := h.process (a := .event event) trivial accounts now
  have hadmits := htwin.admits ha
  obtain ⟨hsoundFirst, hstepFirst⟩ := hsound.process hadmits accounts now
  obtain ⟨hsoundOther, hstepOther⟩ := h.process ha.admits accounts now
  obtain ⟨hsoundSecond, hstepSecond⟩ :=
    hsoundOther.process (a := .event event) trivial accounts now
  obtain ⟨hphase, hcontext⟩ :=
    hlearned.catchUp (h.receive ha.admits) (hsound.receive hadmits) hsoundOther rfl rfl hevent
  refine outline_eq hsoundFirst hstepFirst hsoundSecond hstepSecond hphase.symm hcontext.symm ?_
  intro hready
  have hwallet := h.process_wallet ha accounts now
  by_cases hsame : d.context.wallet = wallet ∧ d.phase = .readyForSale
  · -- The wallet is connected already, and the sale is ready all the time.
    obtain ⟨hsame, hphase⟩ := hsame
    have hknown : ((d.process accounts now (.event event)).receive a).context =
        (d.receive a).context := by
      rw [hlearned.context_eq, ← hsame, ← ha.keeps.1]
    obtain ⟨hcontext, hisReady⟩ :=
      ((hsound.receive hadmits).settle_outcome accounts now).isReady hready
    rw [hknown] at hcontext hisReady
    have hstays : d.process accounts now (.event event) = d :=
      process_of_ready hs houtbox hphase (hpoised.isReady hphase ha hisReady) hevent hsame
    rw [hstays] at hready ⊢
    have hisReady' : (d.process accounts now a).context.isReady accounts now = true := by
      obtain ⟨hkept, -⟩ := ((h.receive ha.admits).settle_outcome accounts now).isReady hready
      rwa [process_context, hkept]
    rw [process_of_ready hstepOther rfl hready hisReady' hevent (hwallet.trans hsame)]
  · -- Otherwise the checkout that is open in the end is a new one.
    have hnoticed : d.context.wallet ≠ wallet ∨ d.IsUnspoilt := by
      by_cases hwallet : d.context.wallet = wallet
      · exact .inr (.inl (h.checkout_of_phase_ne fun hphase => hsame ⟨hwallet, hphase⟩).2)
      · exact .inl hwallet
    have hfirst : ((d.process accounts now (.event event)).process accounts now a).IsUnspoilt :=
      ((isUnspoilt_process h hevent hnoticed accounts now).receive ha).settle
        (hsound.receive hadmits) accounts now
    have hsecond : ((d.process accounts now a).process accounts now (.event event)).IsUnspoilt := by
      refine isUnspoilt_process hsoundOther hevent ?_ accounts now
      rw [hwallet]
      exact hnoticed.imp_right fun hunspoilt =>
        (hunspoilt.receive ha).settle (h.receive ha.admits) accounts now
    rw [hfirst.purchase_eq hstepFirst hready, hsecond.purchase_eq hstepSecond (hphase.trans hready)]

theorem Poised.congr (h : d.Poised accounts) (hphase : e.phase = d.phase)
    (hcontext : e.context = d.context) : e.Poised accounts where
  ending_eq := by simpa [hphase, hcontext] using h.ending_eq
  ready := by simpa [hphase, hcontext] using h.ready

end Director

namespace Floor

variable {σ : Type} {env : Environment σ} {accounts : Accounts} {f : Floor σ}

/-! ## Every run -/

theorem reached_director (env : Environment σ) (now : Timestamp) (f : Floor σ) (a : Arrival) :
    (f.reached env now a).director = f.director.process (env.account f.world) now a := by
  rw [reached, seat, enact_director]
  rfl

theorem reached_published (env : Environment σ) (now : Timestamp) (f : Floor σ) (a : Arrival) :
    (f.reached env now a).published = (f.reached env now a).director.snapshot := by
  rw [reached, seat, enact_published, enact_director]
  rfl

theorem Orderly.act_poised (haccounts : ∀ world, env.account world = accounts) (h : f.Orderly)
    (hpoised : f.director.Poised accounts) (act : Act σ) :
    (f.act env act).director.Poised accounts := by
  by_cases hdirector : ∃ now, act = .director now
  · obtain ⟨now, rfl⟩ := hdirector
    have hturned := directorTurn_turned env now f
    rw [Floor.act]
    generalize (f.directorTurn env now).2.2 = g at hturned ⊢
    cases hturned with
    | closed => exact hpoised
    | shut =>
        apply hpoised.congr
        · simp [Floor.seat, Director.dispose]
        · simp [Floor.seat, Director.dispose]
    | waits hopen hshut hnext => rwa [(next_reach hnext).spared.director_eq]
    | @took a g hopen hshut hnext =>
        obtain ⟨hg, hadmits⟩ := h.reach (next_reach hnext)
        rw [reached_director, haccounts]
        exact ((hg.sound.receive hadmits).settle_poised accounts now).congr rfl rfl
  · have hother : ∀ now, act ≠ .director now := by simpa using hdirector
    rwa [(act_unmoved hother f).director_eq]

theorem run_poised (haccounts : ∀ world, env.account world = accounts) (start : Start)
    (interval : Nat) (isTracked : Bool) (world : σ) (acts : List (Act σ)) :
    ((initial start interval isTracked world).run env acts).Orderly ∧
      ((initial start interval isTracked world).run env acts).director.Poised accounts :=
  run_invariant (P := fun f => f.Orderly ∧ f.director.Poised accounts)
    (fun _ act hf => ⟨hf.1.act env act, hf.1.act_poised haccounts hf.2 act⟩)
    ⟨orderly_initial start interval isTracked world,
      by simp [initial, Director.initial, Phase.IsRunning],
      by simp [initial, Director.initial]⟩ acts

/-- When the wallet connects or goes does not matter. At whatever point a sale is, what happens to
the wallet and what comes of the project, the live data or the chain, with the same time on the
clock, lead to the same in either order: the same phase, all that is known, the purchase, the
workers that are open with all that they work with, and what the host sees. -/
theorem run_wallet_comm (env : Environment σ) (accounts : Accounts)
    (haccounts : ∀ world, env.account world = accounts) (start : Start) (interval : Nat)
    (isTracked : Bool) (world : σ) (acts : List (Act σ)) :
    let f := (initial start interval isTracked world).run env acts
    f.isOpen = true → ∀ event wallet, Event.wallet? event = some wallet →
      ∀ a, f.director.Awaits a → ∀ now,
        let first := (f.reached env now (.event event)).reached env now a
        let second := (f.reached env now a).reached env now (.event event)
        first.director.outline = second.director.outline ∧ first.published = second.published := by
  intro f hopen event wallet hevent a ha now first second
  obtain ⟨horderly, hpoised⟩ := run_poised haccounts start interval isTracked world acts
  have houtline : first.director.outline = second.director.outline := by
    simp only [first, second, reached_director, haccounts]
    exact horderly.sound.process_comm (horderly.inStep hopen) horderly.outbox_eq hpoised hevent ha
      now
  refine ⟨houtline, ?_⟩
  obtain ⟨hphase, hcontext, hpurchase, -, -⟩ := Outline.mk.inj houtline
  simp only [first, second, reached_published]
  rw [Director.snapshot, Director.snapshot, hphase, hcontext, hpurchase]

end Floor

/-- In the small sale another wallet comes together with the first live data, and the sale is ready
either way. -/
theorem Floor.run_wallet_comm_opening :
    let f := Sample.floor.run Sample.environment [.director Sample.noon]
    let changed := Event.walletAvailable ⟨"other"⟩
    let read := Arrival.message
      ⟨.feed, 1, .liveData ⟨true, .ofUInt64 100, 10, 100, true, false, none⟩⟩
    let first := (f.reached Sample.environment Sample.noon (.event changed)).reached
      Sample.environment Sample.noon read
    let second := (f.reached Sample.environment Sample.noon read).reached Sample.environment
      Sample.noon (.event changed)
    first.director.phase = .readyForSale ∧ first.director.outline = second.director.outline ∧
      first.published = second.published :=
  ⟨by decide +kernel,
    run_wallet_comm Sample.environment (fun _ => some Sample.buyer) (fun _ => rfl) _ _ _ _ _
      (by decide +kernel) _ _ rfl _
      (.read (show _ = some (⟨1, ⟨Sample.project, ⟨"chain"⟩⟩⟩ : FeedSlot) by decide +kernel) _) _⟩

end MintSale.Sale
