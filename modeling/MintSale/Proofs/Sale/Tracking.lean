import MintSale.Proofs.Sale.Chronicle
import MintSale.Proofs.Sale.Staff

/-!
# Purchases that are followed

Those who follow the purchases are told of a purchase exactly if the director takes the report of it
while the checkout that has sent it still has its place.
-/

namespace MintSale.Sale

/-- What an order tells those who follow the purchases. -/
def Order.notice? : Order → Option Notice
  | .track notice => some notice
  | _ => none

namespace Director

/-- What a director passes on when it takes something in: a purchase that its own checkout has
sent. -/
def notice? (d : Director) : Arrival → Option Notice
  | .message m =>
    if d.current m.role = some m.generation then
      match m.report with
      | .submitted txHash purchaseTo => some ⟨d.trackedId, txHash, purchaseTo⟩
      | _ => none
    else none
  | _ => none

/-- What a director's orders tell those who follow the purchases. -/
def notices (d : Director) : List Notice :=
  d.outbox.filterMap Order.notice?

variable {d : Director}

@[simp] theorem notices_closeFeed (d : Director) : d.closeFeed.notices = d.notices := by
  rw [notices, closeFeed_eq]
  cases d.feed <;> simp [notices, List.filterMap_cons, Order.notice?]

@[simp] theorem notices_closeCheckout (d : Director) : d.closeCheckout.notices = d.notices := by
  rw [notices, closeCheckout_eq]
  cases d.checkout <;> simp [notices, List.filterMap_cons, Order.notice?]

@[simp] theorem notices_openFeed (d : Director) : d.openFeed.notices = d.notices := by
  rcases d.openFeed_cases with hsame | ⟨project, chain, hfeed, hproject, hchain⟩
  · rw [hsame]
  · rw [openFeed_of_none hfeed hproject hchain]
    simp [notices, List.filterMap_cons, Order.notice?]

@[simp] theorem notices_openCheckout (d : Director) : d.openCheckout.notices = d.notices := by
  rcases d.openCheckout_cases with
    hsame | ⟨project, chain, wallet, kind, hcheckout, hproject, hchain, hwallet, hkind⟩
  · rw [hsame]
  · rw [openCheckout_of_none hcheckout hproject hchain hwallet hkind]
    simp [notices, List.filterMap_cons, Order.notice?]

theorem Sound.notices_settle (h : d.Sound) (accounts : Accounts) (now : Timestamp) :
    (d.settle accounts now).notices = d.notices := by
  have houtcome := h.settle_outcome accounts now
  generalize d.settle accounts now = d' at houtcome ⊢
  cases houtcome with
  | stays hphase => rfl
  | ready hphase hready => exact (notices_openCheckout d.openFeed).trans (notices_openFeed d)
  | failed | ruledOut | complete | unplugged =>
      exact (notices_closeFeed d.closeCheckout).trans (notices_closeCheckout d)
  | waiting hphase hobjection hchain =>
      exact (notices_openFeed d.closeCheckout).trans (notices_closeCheckout d)

theorem notices_takeEvent (d : Director) (event : Event) :
    (d.takeEvent event).notices = d.notices := by
  cases event with
  | chainAvailable client =>
      rw [takeEvent]
      split
      · rfl
      · exact (notices_closeCheckout _).trans (notices_closeFeed _)
  | chainUnavailable => exact (notices_closeCheckout _).trans (notices_closeFeed _)
  | walletAvailable client =>
      rw [takeEvent]
      split
      · rfl
      · exact notices_closeCheckout _
  | walletUnavailable => exact notices_closeCheckout _
  | liveData | error => rfl
  | command command =>
      rw [takeEvent]
      split
      · simp [notices, order, List.filterMap_cons, Order.notice?]
      · rfl

theorem notices_receive (d : Director) (a : Arrival) :
    (d.receive a).notices = d.notices ++ (d.notice? a).toList := by
  cases a with
  | project result => simp [receive, takeProject, notices, notice?]
  | event event => simpa [receive, notice?] using d.notices_takeEvent event
  | message m =>
      obtain ⟨role, generation, report⟩ := m
      simp only [receive, takeMessage, notice?]
      by_cases hcurrent : d.current role = some generation
      · simp only [hcurrent, if_true]
        cases report with
        | submitted txHash purchaseTo => simp [notices, order, Order.notice?]
        | failed message => cases role <;> simp [notices, takeError]
        | liveData | purchaseState => simp [notices, takeLiveData]
      · simp [hcurrent]

end Director

/-! ## Chronicles -/

/-- What a director passes on when something happens. -/
def Happening.notice? (d : Director) : Happening → Option Notice
  | .received arrival _ => d.notice? arrival
  | _ => none

/-- What the director passes on. -/
def noticesIn {σ : Type} (log : List (Moment σ)) : List Notice :=
  log.filterMap fun m => m.happening.notice? m.floor.director

namespace Floor

variable {σ : Type} {env : Environment σ} {f g : Floor σ}

theorem noticesIn_moments (f : Floor σ) (act : Act σ) :
    noticesIn (f.moments env act) =
      (f.happenings env act).filterMap (·.notice? f.director) := by
  simp [noticesIn, moments, List.filterMap_map]

theorem enact_tracked (f : Floor σ) (orders : List Order) :
    (f.enact orders).tracked =
      f.tracked ++ if f.isTracked then orders.filterMap Order.notice? else [] := by
  induction orders generalizing f with
  | nil => simp
  | cons o orders ih =>
      have hrest := ih (f.carryOut o)
      have hkept : (f.carryOut o).isTracked = f.isTracked := enact_isTracked f [o]
      have hfirst : (f.carryOut o).tracked =
          f.tracked ++ if f.isTracked then o.notice?.toList else [] := by
        cases o with
        | track notice =>
            cases htracked : f.isTracked <;> simp [carryOut, htracked, Order.notice?]
        | _ => simp [carryOut, mapFeed, mapCheckout, Order.notice?]
      rw [hkept, hfirst] at hrest
      refine hrest.trans ?_
      cases f.isTracked <;> cases hnotice : o.notice? <;> simp [hnotice]

theorem seat_tracked (f : Floor σ) (d : Director) (s : Snapshot) :
    (f.seat d s).tracked = f.tracked ++ if f.isTracked then d.notices else [] := by
  rw [seat, enact_tracked]
  rfl

/-- In an act those who follow the purchases are told what the director passes on. -/
theorem act_tracked (h : f.Orderly) (act : Act σ) :
    (f.act env act).tracked =
      f.tracked ++ if f.isTracked then noticesIn (f.moments env act) else [] := by
  rw [noticesIn_moments]
  cases act with
  | director now =>
      have hnone : f.director.notices = [] := by simp [Director.notices, h.outbox_eq]
      have hinquired : ((f.inquiries env).map Happening.inquired).filterMap
          (·.notice? f.director) = [] := by
        simp [List.filterMap_map, Happening.notice?]
      have hturned := directorTurn_turned env now f
      change (f.directorTurn env now).2.2.tracked = _
      generalize (f.directorTurn env now).2.2 = g at hturned ⊢
      cases hturned with
      | closed hopen => simp [happenings_of_closed (.inl hopen)]
      | shut hopen hshut =>
          rw [seat_tracked, happenings_of_closed (.inr hshut), Director.dispose]
          simp [giveUp, hnone]
      | waits hopen hshut hnext =>
          rw [happenings_of_next hopen hshut hnext, List.filterMap_append, hinquired,
            (next_reach hnext).spared.tracked_eq]
          simp
      | @took a g hopen hshut hnext =>
          have hspared := (next_reach hnext).spared
          obtain ⟨hg, hadmits⟩ := h.reach (next_reach hnext)
          rw [happenings_of_next hopen hshut hnext, List.filterMap_append, hinquired, reached,
            seat_tracked, (hg.sound.receive hadmits).notices_settle, Director.notices_receive,
            hspared.director_eq, hspared.tracked_eq, hspared.isTracked_eq, hnone]
          cases hnotice : f.director.notice? a <;> simp [Happening.notice?, hnotice]
  | feed generation =>
      rcases feedTurn_cases env generation f with ⟨hnone, hsame⟩ | ⟨feed, -, -, hfeed, hturn⟩
      · simp [happenings, hnone, Floor.act, hsame]
      · rw [happenings_feed hfeed, Floor.act, hturn]
        simp [List.filterMap_map, Happening.notice?, mapFeed]
  | checkout generation =>
      rcases checkoutTurn_cases env generation f with ⟨hnone, hsame⟩ | ⟨c, -, -, hc, hturn⟩
      · simp [happenings, hnone, Floor.act, hsame]
      · rw [happenings_checkout hc, Floor.act, hturn]
        simp [List.filterMap_map, Happening.notice?, mapCheckout]
  | post event =>
      rw [Floor.act, post]
      split <;> simp [happenings]
  | shutDown | wait | change => simp [happenings, Floor.act, Floor.shutDown, wait, change]

theorem act_isTracked (f : Floor σ) (act : Act σ) : (f.act env act).isTracked = f.isTracked := by
  by_cases hdirector : ∃ now, act = .director now
  · obtain ⟨now, rfl⟩ := hdirector
    refine directorTurn_keeps (P := fun g => g.isTracked = f.isTracked) now rfl rfl
      (fun hreach => hreach.spared.isTracked_eq) ?_
    rintro g d s - hg
    simpa [seat] using hg
  · have hother : ∀ now, act ≠ .director now := by simpa using hdirector
    exact (act_unmoved hother f).isTracked_eq

theorem run_tracked (h : f.Orderly) (acts : List (Act σ)) :
    (f.run env acts).tracked =
      f.tracked ++ if f.isTracked then noticesIn (f.chronicle env acts) else [] := by
  have hrun := chronicle_invariant env
    (P := fun log g => g.Orderly ∧ g.isTracked = f.isTracked ∧
      g.tracked = f.tracked ++ if f.isTracked then noticesIn log else [])
    ?_ ⟨h, rfl, by simp [noticesIn]⟩ acts
  · exact hrun.2.2
  · rintro log g act ⟨hg, hkept, htracked⟩
    refine ⟨hg.act env act, (act_isTracked g act).trans hkept, ?_⟩
    rw [act_tracked hg, htracked, hkept, List.append_assoc]
    cases f.isTracked <;> simp [noticesIn]

/-! ## Every run -/

/-- The purchase that a message reports. -/
def purchase? (m : Message) : Option (Hash × Address) :=
  match m.report with
  | .submitted txHash purchaseTo => some (txHash, purchaseTo)
  | _ => none

/-- The purchases of which somebody has been told. -/
def purchasesOf (notices : List Notice) : List (Hash × Address) :=
  notices.map fun notice => (notice.txHash, notice.purchaseTo)

/-- The report of a purchase that the director takes now, if any, is from the checkout that has its
place. -/
def IsTimely (moment : Moment σ) : Prop :=
  ∀ m, moment.happening.taken? = some m → (purchase? m).isSome →
    moment.floor.director.current m.role = some m.generation

/-- What is passed on of a moment is the purchase that is reported then, unless it is too late. -/
theorem notice?_purchase (moment : Moment σ) :
    let passed := (moment.happening.notice? moment.floor.director).map fun notice =>
      (notice.txHash, notice.purchaseTo)
    let reported := moment.happening.taken?.bind purchase?
    (passed = none ∨ passed = reported) ∧ (passed = reported ↔ IsTimely moment) := by
  obtain ⟨floor, happening⟩ := moment
  cases happening with
  | inquired | did => simp [Happening.notice?, Happening.taken?, IsTimely]
  | received arrival now =>
      cases arrival with
      | project | event =>
          simp [Happening.notice?, Director.notice?, Happening.taken?, Arrival.message?, IsTimely]
      | message m =>
          obtain ⟨role, generation, report⟩ := m
          by_cases hcurrent : floor.director.current role = some generation <;> cases report <;>
            simp [Happening.notice?, Director.notice?, Happening.taken?, Arrival.message?, IsTimely,
              purchase?, hcurrent]

theorem purchasesOf_eq_iff (log : List (Moment σ)) :
    purchasesOf (noticesIn log) = (takenIn log).filterMap purchase? ↔
      ∀ moment ∈ log, IsTimely moment := by
  rw [purchasesOf, noticesIn, takenIn, List.map_filterMap, List.filterMap_filterMap,
    History.filterMap_eq_iff fun moment => (notice?_purchase moment).1]
  exact forall₂_congr fun moment _ => (notice?_purchase moment).2

/-- Those who follow the purchases are told of each purchase whose report arrives, once and in
order, or will be when the director gets to it, exactly if the director takes every such report
while the checkout that has sent it has its place. -/
theorem run_follows_iff (env : Environment σ) (start : Start) (interval : Nat) (world : σ)
    (acts : List (Act σ)) :
    purchasesOf ((initial start interval true world).run env acts).tracked ++
        ((initial start interval true world).run env acts).messages.filterMap purchase? =
      (postedIn ((initial start interval true world).chronicle env acts)).filterMap purchase? ↔
    ∀ moment ∈ (initial start interval true world).chronicle env acts, IsTimely moment := by
  have htracked : ((initial start interval true world).run env acts).tracked =
      noticesIn ((initial start interval true world).chronicle env acts) := by
    simpa [initial] using run_tracked (orderly_initial start interval true world) acts
  have hposted : postedIn ((initial start interval true world).chronicle env acts) =
      takenIn ((initial start interval true world).chronicle env acts) ++
        ((initial start interval true world).run env acts).messages := by
    simpa [initial] using run_messages (initial start interval true world) acts
  rw [htracked, hposted, List.filterMap_append, List.append_cancel_right_eq]
  exact purchasesOf_eq_iff _

end Floor

/-- In the small sale the wallet leaves after a purchase has been sent and its report has arrived.
The director gets to the wallet first and then throws the report away. -/
theorem Floor.run_loses_purchase :
    let acts := Sample.opening ++ Sample.buying ++ [.post .walletUnavailable, .director Sample.noon,
      .director Sample.noon, .director Sample.noon, .director Sample.noon]
    let f := Sample.floor.run Sample.environment acts
    f.isOpen = true ∧ f.isShutDown = false ∧ f.isTracked = true ∧ f.messages = [] ∧
      (postedIn (Sample.floor.chronicle Sample.environment acts)).filterMap Floor.purchase? =
        [(.replicate 32 7, Sample.buyer)] ∧
      f.tracked = [] := by
  decide +kernel

end MintSale.Sale
