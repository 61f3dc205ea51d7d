import MintSale.Proofs.Checkout.Deeds
import MintSale.Proofs.LiveFeed
import MintSale.Proofs.Sale.Floor

/-!
# Phases and workers

Whatever happens on the floor, and in whichever order, the director stays in step between its turns,
and so does what the host sees.
-/

namespace MintSale.Sale

/-- The parts of a snapshot agree with its phase. -/
structure Snapshot.InStep (s : Snapshot) : Prop where
  purchase_iff : s.purchase.isSome ↔ s.phase = .readyForSale
  project_of_running : s.phase.IsRunning → s.context.project.isSome
  error_of_phase : s.phase = .error → s.context.error.isSome
  reason_of_phase : s.phase = .ineligible → s.context.ineligibleReason.isSome

theorem Director.InStep.snapshot {d : Director} (h : d.InStep) : d.snapshot.InStep where
  purchase_iff := h.purchase_iff
  project_of_running := h.project_of_running
  error_of_phase := h.error_of_phase
  reason_of_phase := h.reason_of_phase

namespace Floor

variable {σ : Type} {env : Environment σ} {f g : Floor σ}

/-! ## The invariant -/

/-- What holds on a floor at any time. -/
structure Orderly (f : Floor σ) : Prop where
  sound : f.director.Sound
  outbox_eq : f.director.outbox = []
  inStep : f.isOpen = true → f.director.InStep
  published_eq : f.isOpen = true → f.published = f.director.snapshot
  published_inStep : f.published.InStep
  /-- The project is waited for in one phase only. -/
  phase_of_metadata : f.metadata.isSome → f.director.phase = .fetchingProjectData
  role_of_feed : ∀ feed ∈ f.feeds, feed.line.role = .feed
  role_of_checkout : ∀ checkout ∈ f.checkouts, checkout.line.role = .checkout
  isProper : ∀ m ∈ f.messages, m.IsProper

theorem orderly_initial (start : Start) (interval : Nat) (isTracked : Bool) (world : σ) :
    (initial start interval isTracked world).Orderly where
  sound := Director.sound_initial start
  outbox_eq := rfl
  inStep := fun _ => Director.inStep_initial start
  published_eq := fun _ => rfl
  published_inStep := (Director.inStep_initial start).snapshot
  phase_of_metadata := fun _ => rfl
  role_of_feed := by simp [initial]
  role_of_checkout := by simp [initial]
  isProper := by simp [initial]

/-! ## Acts -/

theorem Orderly.spared (h : f.Orderly) (hg : Spared f g)
    (hmessages : ∀ m ∈ g.messages, m ∈ f.messages) : g.Orderly where
  sound := by simpa [hg.director_eq] using h.sound
  outbox_eq := by simpa [hg.director_eq] using h.outbox_eq
  inStep := by simpa [hg.director_eq, hg.isOpen_eq] using h.inStep
  published_eq := by simpa [hg.director_eq, hg.isOpen_eq, hg.published_eq] using h.published_eq
  published_inStep := by simpa [hg.published_eq] using h.published_inStep
  phase_of_metadata := by
    intro hmetadata
    simpa [hg.director_eq] using h.phase_of_metadata (hg.metadata_of hmetadata)
  role_of_feed := by simpa [hg.feeds_eq] using h.role_of_feed
  role_of_checkout := by simpa [hg.checkouts_eq] using h.role_of_checkout
  isProper := fun m hm => h.isProper m (hmessages m hm)

/-- A director that has settled, or has closed its workers for good, may take its place. -/
theorem Orderly.seat (h : f.Orderly) {d : Director} (hd : d.Sound) {s : Snapshot}
    (hs : s.InStep) (hopen : f.isOpen = true → d.InStep ∧ s = d.snapshot)
    (hmetadata : f.metadata.isSome → d.phase = .fetchingProjectData) : (f.seat d s).Orderly where
  sound := by simpa [Floor.seat] using { hd with }
  outbox_eq := by simp [Floor.seat]
  inStep := by
    intro hopen'
    obtain ⟨hstep, -⟩ := hopen (by simpa [Floor.seat] using hopen')
    simpa [Floor.seat] using { hstep with }
  published_eq := by
    intro hopen'
    obtain ⟨-, hsnapshot⟩ := hopen (by simpa [Floor.seat] using hopen')
    rw [Floor.seat, enact_published, enact_director, hsnapshot]
    rfl
  published_inStep := by simpa [Floor.seat] using hs
  phase_of_metadata := by simpa [Floor.seat] using hmetadata
  role_of_feed := by
    rw [Floor.seat]
    refine enact_feeds (fun _ _ _ => rfl) (fun _ hrole => hrole) ?_ d.outbox
    exact h.role_of_feed
  role_of_checkout := by
    rw [Floor.seat]
    refine enact_checkouts (fun _ _ => rfl) (fun _ hrole => hrole) (fun _ _ hrole => hrole) ?_
    exact h.role_of_checkout
  isProper := by simpa [Floor.seat] using h.isProper

/-- What reaches the director is something that it may take in. -/
theorem Orderly.reach (h : f.Orderly) {a : Arrival} (hreach : Reach env f (some a) g) :
    g.Orderly ∧ g.director.Admits a := by
  have hmessages := hreach.messages
  have hspared := hreach.spared
  refine ⟨h.spared hspared (by simp +contextual [hmessages]), ?_⟩
  cases a with
  | project result =>
      obtain ⟨hwaiting, -⟩ := hreach.metadata
      simpa [Director.Admits, hspared.director_eq] using h.phase_of_metadata hwaiting
  | event event => trivial
  | message m => exact h.isProper m (by simp [hmessages, Arrival.message?])

theorem Orderly.directorTurn (h : f.Orderly) (env : Environment σ) (now : Timestamp) :
    (f.directorTurn env now).2.2.Orderly := by
  have hturned := directorTurn_turned env now f
  generalize (f.directorTurn env now).2.2 = g at hturned ⊢
  cases hturned with
  | closed hopen => exact h
  | shut hopen hshut =>
      have hgone : (f.giveUp env).Orderly :=
        { h with
          inStep := by simp [giveUp]
          published_eq := by simp [giveUp]
          phase_of_metadata := by simp [giveUp] }
      exact hgone.seat h.sound.closeFeed.closeCheckout h.published_inStep (by simp [giveUp])
        (by simp [giveUp])
  | waits hopen hshut hnext =>
      have hreach := next_reach hnext
      exact h.spared hreach.spared (by simp [hreach.messages])
  | @took a g hopen hshut hnext =>
      have hreach := next_reach hnext
      obtain ⟨hg, hadmits⟩ := h.reach hreach
      obtain ⟨hsound, hstep⟩ := (hg.sound.receive hadmits).settle (env.account g.world) now
      refine hg.seat hsound hstep.snapshot (fun _ => ⟨hstep, rfl⟩) ?_
      -- As long as the project is on its way, nothing else gets the director out of its phase.
      intro hwaiting
      have hphase : g.director.phase = .fetchingProjectData := hg.phase_of_metadata hwaiting
      cases a with
      | project result => simp [hreach.metadata.2] at hwaiting
      | event event =>
          have hkept : (g.director.receive (.event event)).phase = .fetchingProjectData := by
            rw [Director.receive, Director.takeEvent_phase, hphase]
          rw [Director.settle_of_not_running (by simp [hkept, Phase.IsRunning]), hkept]
      | message m =>
          have hkept : (g.director.receive (.message m)).phase = .fetchingProjectData := by
            rw [Director.receive, Director.takeMessage_phase, hphase]
          rw [Director.settle_of_not_running (by simp [hkept, Phase.IsRunning]), hkept]

theorem Orderly.feedTurn (h : f.Orderly) (env : Environment σ) (generation : Nat) :
    (f.feedTurn env generation).Orderly := by
  rcases feedTurn_cases env generation f with ⟨-, hsame⟩ | ⟨feed, hfeed, -, -, hturn⟩
  · rwa [hsame]
  · have hkeeps := feed.turn_keeps env f.clock f.world
    rw [hturn]
    refine { h with role_of_feed := ?_, isProper := ?_ }
    · refine forall_mapFeed h.role_of_feed fun _ _ _ => ?_
      rw [hkeeps.line_eq]
      exact h.role_of_feed feed hfeed
    · intro m hm
      rcases List.mem_append.mp hm with hm | hm
      · exact h.isProper m hm
      · obtain ⟨hrole, -, hreport⟩ := hkeeps.reports m hm
        rw [h.role_of_feed feed hfeed] at hrole
        rcases hreport with ⟨data, hreport⟩ | ⟨⟨text, hreport⟩, -⟩ <;>
          simp [Message.IsProper, hrole, hreport]

theorem Orderly.checkoutTurn (h : f.Orderly) (env : Environment σ) (generation : Nat) :
    (f.checkoutTurn env generation).Orderly := by
  rcases checkoutTurn_cases env generation f with ⟨-, hsame⟩ | ⟨checkout, hcheckout, -, -, hturn⟩
  · rwa [hsame]
  · have hkeeps := checkout.turn_keeps env f.price f.world
    rw [hturn]
    refine { h with role_of_checkout := ?_, isProper := ?_ }
    · refine forall_mapCheckout h.role_of_checkout fun _ _ _ => ?_
      rw [hkeeps.line_eq]
      exact h.role_of_checkout checkout hcheckout
    · intro m hm
      rcases List.mem_append.mp hm with hm | hm
      · exact h.isProper m hm
      · obtain ⟨hrole, -, hreport⟩ := hkeeps.reports m hm
        rw [h.role_of_checkout checkout hcheckout] at hrole
        cases hm' : m.report with
        | liveData data => exact absurd hreport (by simp [hm', Checkout.Reports])
        | purchaseState | submitted | failed => simp [Message.IsProper, hrole, hm']

theorem Orderly.act (h : f.Orderly) (env : Environment σ) (act : Act σ) :
    (f.act env act).Orderly := by
  cases act with
  | director now => exact h.directorTurn env now
  | feed generation => exact h.feedTurn env generation
  | checkout generation => exact h.checkoutTurn env generation
  | post event =>
      rw [Floor.act, post]
      split
      · exact { h with }
      · exact h
  | shutDown =>
      refine { h with role_of_feed := ?_, role_of_checkout := ?_ }
      · intro feed hfeed
        obtain ⟨old, hold, rfl⟩ := List.mem_map.mp hfeed
        exact h.role_of_feed old hold
      · intro checkout hcheckout
        obtain ⟨old, hold, rfl⟩ := List.mem_map.mp hcheckout
        exact h.role_of_checkout old hold
  | wait milliseconds => exact { h with }
  | change event => exact { h with }

theorem Orderly.run (h : f.Orderly) (env : Environment σ) (acts : List (Act σ)) :
    (f.run env acts).Orderly :=
  run_invariant (fun _ act hf => hf.act env act) h acts

/-! ## Every run -/

/-- As long as the director works, its phase, its workers and what is known agree, and what the host
sees is just that. -/
theorem run_inStep (env : Environment σ) (start : Start) (interval : Nat) (isTracked : Bool)
    (world : σ) (acts : List (Act σ))
    (hopen : ((initial start interval isTracked world).run env acts).isOpen = true) :
    ((initial start interval isTracked world).run env acts).director.InStep ∧
      ((initial start interval isTracked world).run env acts).published =
        ((initial start interval isTracked world).run env acts).director.snapshot ∧
      ((initial start interval isTracked world).run env acts).published.InStep := by
  have h := (orderly_initial start interval isTracked world).run env acts
  exact ⟨h.inStep hopen, h.published_eq hopen, h.published_inStep⟩

end Floor

/-! ## A small sale -/

namespace Sample

/-- The account of every wallet. -/
def buyer : Address :=
  .replicate 20 1

/-- A project that anybody may buy from at a set price. -/
def project : Project where
  id := "proj-1"
  index := 1
  core := .replicate 20 0xaa
  artist := .replicate 20 0xa1
  name := "Fidenza"
  complete := false
  startTime := none
  endTime := none
  currency := .native
  minter := some ⟨.replicate 20 0xbb, "MinterSetPriceV5", none, []⟩

/-- Collaborators that answer at once and never change. -/
def environment : Environment Unit where
  account _ _ := some buyer
  ask call _ := (.now (match call with
    | .priceInfo .. => .ok ⟨true, .ofUInt64 100⟩
    | .projectState .. => .ok ⟨10, 100, true, false, none⟩
    | .send .. => .ok (.replicate 32 7)
    | _ => .error .transport), ())
  collect _ _ _ := (none, ())
  abandon _ _ := ()

/-- A time at which everything is settled. -/
def noon : Timestamp :=
  ⟨⟨2024, 1, 1⟩, 0, 0, by decide⟩

/-- A sale with both clients and its project at hand. -/
def floor : Floor Unit :=
  .initial ⟨none, some ⟨"chain"⟩, some ⟨"wallet"⟩, some project, none⟩ 10 true ()

/-- The project comes, the feed reads, and the sale is ready. -/
def opening : List (Floor.Act Unit) :=
  [.director noon, .feed 1, .director noon]

/-- The checkout finds the wallet eligible, the host asks for a purchase, and it is sent. -/
def buying : List (Floor.Act Unit) :=
  [.checkout 2, .director noon, .director noon, .post (.command (.purchase ⟨none, none⟩)),
    .director noon, .checkout 2]

end Sample

/-- The small sale is in step when it has become ready. -/
theorem Floor.run_inStep_opening :
    (Sample.floor.run Sample.environment Sample.opening).isOpen = true ∧
      (Sample.floor.run Sample.environment Sample.opening).director.phase = .readyForSale ∧
      (Sample.floor.run Sample.environment Sample.opening).director.InStep :=
  ⟨by decide +kernel, by decide +kernel,
    (run_inStep _ _ _ _ _ Sample.opening (by decide +kernel)).1⟩

end MintSale.Sale
