import MintSale.Proofs.Checkout.Reporting
import MintSale.Proofs.Sale.Chronicle
import MintSale.Proofs.Sale.Files

/-!
# What the host is shown of the checkout

The host is shown the last state that the director has heard from the checkout in its place. The
states that come after it are still on their way, and the last of them is the checkout's own.
-/

namespace MintSale.Sale

/-- The state that a message reports, if it is from the worker with a number. -/
def stateFrom? (n : Nat) (m : Message) : Option PurchaseState :=
  if m.generation = n then m.state? else none

/-- The states that the worker with a number reports. -/
def statesFrom (n : Nat) (messages : List Message) : List PurchaseState :=
  messages.filterMap (stateFrom? n)

theorem statesFrom_append (n : Nat) (first second : List Message) :
    statesFrom n (first ++ second) = statesFrom n first ++ statesFrom n second :=
  List.filterMap_append

theorem statesFrom_eq_nil {n : Nat} {messages : List Message}
    (h : ∀ m ∈ messages, m.generation ≠ n ∨ m.state? = none) : statesFrom n messages = [] := by
  refine List.filterMap_eq_nil_iff.mpr fun m hm => ?_
  rcases h m hm with hother | hsilent
  · simp [stateFrom?, hother]
  · simp [stateFrom?, hsilent]

theorem statesFrom_own {n : Nat} {messages : List Message} (h : ∀ m ∈ messages, m.generation = n) :
    statesFrom n messages = statesIn messages :=
  List.filterMap_congr fun m hm => by simp [stateFrom?, h m hm]

/-! ## What the director makes of reports -/

namespace Director

variable {d : Director}

theorem takeMessage_place {m : Message} (hm : m.IsProper) {slot : CheckoutSlot}
    (hslot : (d.takeMessage m).checkout = some slot) :
    d.checkout = some slot ∧
      (d.takeMessage m).purchase = (stateFrom? slot.generation m <|> d.purchase) := by
  obtain ⟨role, generation, report⟩ := m
  by_cases hcurrent : d.current role = some generation
  · simp only [takeMessage, hcurrent, if_true] at hslot ⊢
    cases report with
    | liveData data => exact ⟨hslot, by simp [stateFrom?, Message.state?, takeLiveData]⟩
    | failed message =>
        cases role <;> exact ⟨hslot, by simp [stateFrom?, Message.state?, takeError]⟩
    | submitted txHash purchaseTo =>
        exact ⟨hslot, by simp [stateFrom?, Message.state?, order]⟩
    | purchaseState state =>
        cases role with
        | feed => exact hm.elim
        | checkout =>
            have hnumber : generation = slot.generation := by
              simpa [current, show d.checkout = some slot from hslot, eq_comm] using hcurrent
            exact ⟨hslot, by simp [stateFrom?, Message.state?, hnumber]⟩
  · rw [takeMessage, if_neg hcurrent] at hslot ⊢
    refine ⟨hslot, ?_⟩
    have hother : stateFrom? slot.generation ⟨role, generation, report⟩ = none := by
      unfold stateFrom?
      split
      · next hnumber =>
        cases report with
        | purchaseState state =>
            cases role with
            | feed => exact hm.elim
            | checkout => exact absurd (by simp [current, hslot, ← hnumber]) hcurrent
        | liveData | failed | submitted => rfl
      · rfl
    simp [hother]

theorem takeEvent_place {event : Event} {slot : CheckoutSlot}
    (hslot : (d.takeEvent event).checkout = some slot) :
    d.checkout = some slot ∧ (d.takeEvent event).purchase = d.purchase := by
  cases event with
  | chainAvailable client =>
      simp only [takeEvent] at hslot ⊢
      split at hslot
      · next hsame => simpa [hsame] using hslot
      · simp [dropChainState] at hslot
  | walletAvailable client =>
      simp only [takeEvent] at hslot ⊢
      split at hslot
      · next hsame => simpa [hsame] using hslot
      · simp at hslot
  | chainUnavailable => simp [takeEvent, dropChainState] at hslot
  | walletUnavailable => simp [takeEvent] at hslot
  | liveData | error => exact ⟨hslot, rfl⟩
  | command command =>
      simp only [takeEvent] at hslot ⊢
      split at hslot <;> exact ⟨hslot, rfl⟩

/-- A checkout that has a place after something has come in had it before, and is shown as it was,
unless its state has come in. -/
theorem receive_place {a : Arrival} (ha : d.Admits a) {slot : CheckoutSlot}
    (hslot : (d.receive a).checkout = some slot) :
    d.checkout = some slot ∧
      (d.receive a).purchase = (a.message?.bind (stateFrom? slot.generation) <|> d.purchase) := by
  cases a with
  | project result => exact ⟨hslot, rfl⟩
  | event event => exact takeEvent_place hslot
  | message m => exact takeMessage_place ha hslot

@[simp] theorem receive_generation (d : Director) (a : Arrival) :
    (d.receive a).generation = d.generation := by
  cases a with
  | project result => rfl
  | event event =>
      cases event with
      | chainAvailable | walletAvailable =>
          simp only [receive, takeEvent]
          split <;> simp [dropChainState, closeFeed_eq, closeCheckout_eq]
      | command =>
          simp only [receive, takeEvent]
          split <;> rfl
      | chainUnavailable | walletUnavailable =>
          simp [receive, takeEvent, dropChainState, closeFeed_eq, closeCheckout_eq]
      | liveData | error => rfl
  | message m =>
      obtain ⟨role, generation, report⟩ := m
      simp only [receive, takeMessage]
      split
      · cases report with
        | failed => cases role <;> rfl
        | liveData | purchaseState | submitted => rfl
      · rfl

theorem generation_le_openFeed (d : Director) : d.generation ≤ d.openFeed.generation := by
  unfold openFeed
  split
  · exact Nat.le_succ _
  · exact Nat.le_refl _

theorem settle_place (h : d.Sound) {accounts : Accounts} {now : Timestamp} {slot : CheckoutSlot}
    (hslot : (d.settle accounts now).checkout = some slot) :
    d.checkout = some slot ∧ (d.settle accounts now).purchase = d.purchase ∨
      d.generation < slot.generation ∧ (d.settle accounts now).purchase = some .initial := by
  have houtcome := h.settle_outcome accounts now
  generalize d.settle accounts now = d' at houtcome hslot ⊢
  cases houtcome with
  | stays => exact .inl ⟨hslot, rfl⟩
  | ready hphase hready =>
      rcases d.openFeed.openCheckout_cases with
        hsame | ⟨project, chain, wallet, kind, hnone, hproject, hchain, hwallet, hkind⟩
      · simp only [hsame, openFeed_checkout] at hslot
        exact .inl ⟨hslot, by simp [hsame]⟩
      · rw [openCheckout_of_none hnone hproject hchain hwallet hkind] at hslot ⊢
        obtain rfl := Option.some.inj hslot
        exact .inr ⟨Nat.lt_succ_of_le d.generation_le_openFeed, rfl⟩
  | failed | ruledOut | complete | unplugged | waiting => simp at hslot

end Director

namespace Floor

variable {σ : Type} {env : Environment σ} {f : Floor σ} {log : List (Moment σ)}

/-! ## What checkouts report -/

/-- A checkout is as the states tell that it has reported, and takes part as long as it is not
stopped. -/
structure Told (file : List PurchaseState) (c : Checkout) : Prop where
  path : PurchaseState.Path .initial file c.state
  inPhase : c.IsInPhase
  isHeard : c.line.isHeard = true

theorem Told.turn {file : List PurchaseState} {c : Checkout} (h : Told file c)
    (env : Environment σ) (price : Option Amount) (world : σ) :
    Told (file ++ statesIn (c.turn env price world).2.1) (c.turn env price world).1 := by
  have hkeeps := c.turn_keeps env price world
  have hstates : (c.turn env price world).1.IsInPhase ∧
      PurchaseState.Path c.state (statesIn (c.turn env price world).2.1)
        (c.turn env price world).1.state := by
    by_cases hstopped : c.line.isStopped
    · unfold Checkout.turn
      by_cases hended : c.hasEnded
      · simpa [hended] using ⟨h.inPhase, .nil _⟩
      · simpa [hended, hstopped, Checkout.IsInPhase] using .nil _
    · exact Checkout.turn_path ⟨by simpa using hstopped, h.isHeard⟩ h.inPhase world
  exact {
    path := h.path.append hstates.2
    inPhase := hstates.1
    isHeard := by rw [hkeeps.line_eq, h.isHeard] }

theorem told_keeping (env : Environment σ) :
    Keeping env Told fun price c world => statesIn (c.turn env price world).2.1 where
  fresh setup generation := ⟨.nil _, by simp [Checkout.IsInPhase, Checkout.fresh], rfl⟩
  tell _ h := { h with }
  stop h := { h with }
  turn price world h := h.turn env price world

/-- The states that arrive in an act are those of the checkout that takes its turn. -/
theorem statesFrom_moments (f : Floor σ) (act : Act σ) (n : Nat) :
    statesFrom n (postedIn (f.moments env act)) =
      f.additions (fun price c world => statesIn (c.turn env price world).2.1) act n := by
  cases act with
  | checkout generation =>
      rcases checkoutTurn_cases env generation f with ⟨hnone, -⟩ | ⟨c, -, hgeneration, hfound, -⟩
      · by_cases hn : generation = n
        · simp [postedIn, moments, happenings, additions, hnone, ← hn, statesFrom]
        · simp [postedIn, moments, happenings, additions, hnone, hn, statesFrom]
      · have hsender : ∀ m ∈ (c.turn env f.price f.world).2.1, m.generation = generation :=
          fun m hm => ((c.turn_keeps env f.price f.world).reports m hm).2.1.trans hgeneration
        rw [postedIn_moments_checkout hfound]
        by_cases hn : generation = n
        · simp [additions, hfound, ← hn, statesFrom_own hsender]
        · simp only [additions, hn, if_false]
          exact statesFrom_eq_nil fun m hm => .inl (by simpa [hsender m hm] using hn)
  | director | feed | post | shutDown | wait | change =>
      refine statesFrom_eq_nil fun m hm => .inr ?_
      rcases report_of_posted (by simp) hm with ⟨data, hreport⟩ | ⟨text, hreport⟩ <;>
        simp [Message.state?, hreport]

/-! ## What the director shows -/

theorem Kept.checkout?_of_mem (h : f.Kept) {c : Checkout} (hc : c ∈ f.checkouts) :
    f.checkout? c.line.generation = some c := by
  rcases hfound : f.checkout? c.line.generation with _ | found
  · have hnone := List.find?_eq_none.mp hfound c hc
    simp at hnone
  · have hsame : found.line.generation = c.line.generation := by
      simpa using List.find?_some hfound
    rw [checkout_unique h.staffed.nodup (List.mem_of_find?_eq_some hfound) hc hsame]

/-- Something is true of the checkout in its place, given the messages that have been taken in. -/
def HoldsInPlace (P : CheckoutSlot → List Message → Director → Prop) (log : List (Moment σ))
    (d : Director) : Prop :=
  ∀ slot, d.checkout = some slot → P slot (takenIn log) d

/-- The director shows the last state that it has heard from the checkout in its place. -/
def ShowsHeard (log : List (Moment σ)) (d : Director) : Prop :=
  HoldsInPlace (fun slot taken d => d.purchase =
    some ((statesFrom slot.generation taken).getLast?.getD .initial)) log d

/-- Of all states that checkouts have reported the last ones are still on their way. -/
structure Heard (log : List (Moment σ)) (f : Floor σ) : Prop where
  kept : f.Kept
  told : Filed Told (fun n => statesFrom n (postedIn log)) f
  posted_eq : postedIn log = takenIn log ++ f.messages
  shows : ShowsHeard log f.director

theorem heard_initial (start : Start) (interval : Nat) (isTracked : Bool) (world : σ) :
    Heard [] (initial start interval isTracked world) where
  kept := kept_initial start interval isTracked world
  told := ⟨by simp [initial], fun _ _ => rfl⟩
  posted_eq := rfl
  shows := by simp [ShowsHeard, HoldsInPlace, initial, Director.initial]

/-- A checkout in its place after something was taken in had it before, and is shown as it was
unless its state has come in, or it has only just been opened. -/
theorem Kept.place_cases (h : f.Kept) {a : Arrival} {g : Floor σ} (hreach : Reach env f (some a) g)
    (now : Timestamp) {slot : CheckoutSlot}
    (hslot : (g.reached env now a).director.checkout = some slot) :
    f.director.checkout = some slot ∧ (g.reached env now a).director.purchase =
        (a.message?.bind (stateFrom? slot.generation) <|> f.director.purchase) ∨
      slot.generation ∉ f.numbers ∧ (g.reached env now a).director.purchase = some .initial := by
  obtain ⟨hg, hadmits⟩ := h.orderly.reach hreach
  have hsame := hreach.spared.director_eq
  simp only [Floor.reached, seat, enact_director] at hslot ⊢
  rcases Director.settle_place (hg.sound.receive hadmits) hslot with
    ⟨hreceived, hpurchase⟩ | ⟨hnew, hpurchase⟩
  · obtain ⟨hold, hshown⟩ := Director.receive_place hadmits hreceived
    rw [hsame] at hold
    exact .inl ⟨hold, by rw [hpurchase, hshown, hsame]⟩
  · rw [Director.receive_generation, hsame] at hnew
    exact .inr ⟨h.staffed.not_mem_numbers hnew, hpurchase⟩

/-- What reaches the director is shown, if it is a state of the checkout in its place. -/
theorem Heard.reached (h : Heard log f) {a : Arrival} {g : Floor σ}
    (hreach : Reach env f (some a) g) (now : Timestamp) {moments : List (Moment σ)}
    (htaken : takenIn moments = a.message?.toList) :
    ShowsHeard (log ++ moments) (g.reached env now a).director := by
  intro slot hslot
  rcases h.kept.place_cases hreach now hslot with ⟨hold, hshown⟩ | ⟨hnumber, hshown⟩
  · have hall : statesFrom slot.generation (takenIn (log ++ moments)) =
        statesFrom slot.generation (takenIn log) ++
          (a.message?.bind (stateFrom? slot.generation)).toList := by
      rw [takenIn_append, htaken, statesFrom_append]
      cases a.message? with
      | none => rfl
      | some m => cases hstate : stateFrom? slot.generation m <;> simp [statesFrom, hstate]
    rw [hshown, hall, h.shows slot hold]
    cases a.message?.bind (stateFrom? slot.generation) <;> simp
  · -- Nothing can have come from a checkout that has only just been opened.
    have hnone : statesFrom slot.generation (postedIn log) = [] := h.told.empty _ hnumber
    have hempty : statesFrom slot.generation (takenIn (log ++ moments)) = [] := by
      rw [h.posted_eq, hreach.messages, ← List.append_assoc, statesFrom_append,
        List.append_eq_nil_iff] at hnone
      rw [takenIn_append, htaken]
      exact hnone.1
    rw [hshown, hempty]
    rfl

theorem takenIn_moments {act : Act σ} (h : ∀ now, act ≠ .director now) (f : Floor σ) :
    takenIn (f.moments env act) = [] := by
  refine List.filterMap_eq_nil_iff.mpr fun m hm => ?_
  cases hhappening : m.happening with
  | received arrival now => exact absurd hhappening (not_received h hm arrival now)
  | inquired | did => rfl

/-- In an act the director takes something in, or it takes no message and stays as it is, unless it
closes its checkout for good. -/
theorem intake_cases (env : Environment σ) (f : Floor σ) (act : Act σ) :
    (∃ (a : Arrival) (g : Floor σ) (now : Timestamp), Reach env f (some a) g ∧
      takenIn (f.moments env act) = a.message?.toList ∧ f.act env act = g.reached env now a) ∨
    takenIn (f.moments env act) = [] ∧
      ((f.act env act).director = f.director ∨ (f.act env act).director.checkout = none) := by
  by_cases hdirector : ∃ now, act = .director now
  · obtain ⟨now, rfl⟩ := hdirector
    have hturned := directorTurn_turned env now f
    rw [show f.act env (.director now) = (f.directorTurn env now).2.2 from rfl]
    generalize (f.directorTurn env now).2.2 = g at hturned ⊢
    cases hturned with
    | closed hopen =>
        exact .inr ⟨by simp [moments, happenings_of_closed (.inl hopen), takenIn], .inl rfl⟩
    | shut hopen hshut =>
        exact .inr ⟨by simp [moments, happenings_of_closed (.inr hshut), takenIn],
          .inr (by simp [seat, Director.dispose])⟩
    | waits hopen hshut hnext =>
        refine .inr ⟨?_, .inl (next_reach hnext).spared.director_eq⟩
        rw [takenIn, filterMap_moments, happenings_of_next hopen hshut hnext]
        simp [Function.comp_def, Happening.taken?]
    | @took a g hopen hshut hnext =>
        refine .inl ⟨a, g, now, next_reach hnext, ?_, rfl⟩
        rw [takenIn, filterMap_moments, happenings_of_next hopen hshut hnext]
        cases a <;>
          simp [Function.comp_def, List.filterMap_cons, Happening.taken?, Arrival.message?]
  · have hother : ∀ now, act ≠ .director now := by simpa using hdirector
    exact .inr ⟨takenIn_moments hother f, .inl (act_unmoved hother f).director_eq⟩

/-- What is true of the checkout in its place is true after every act, if it is after all that is
taken in. -/
theorem HoldsInPlace.act {P : CheckoutSlot → List Message → Director → Prop}
    (h : HoldsInPlace P log f.director) (env : Environment σ) (act : Act σ)
    (htakes : ∀ a g now moments, Reach env f (some a) g → takenIn moments = a.message?.toList →
      HoldsInPlace P (log ++ moments) (g.reached env now a).director) :
    HoldsInPlace P (log ++ f.moments env act) (f.act env act).director := by
  rcases intake_cases env f act with
    ⟨a, g, now, hreach, htaken, hact⟩ | ⟨htaken, hsame | hclosed⟩
  · rw [hact]
    exact htakes a g now _ hreach htaken
  · intro slot hslot
    rw [takenIn_append, htaken, List.append_nil, hsame]
    exact h slot (hsame ▸ hslot)
  · intro slot hslot
    simp [hclosed] at hslot

theorem Heard.act (h : Heard log f) (env : Environment σ) (act : Act σ) :
    Heard (log ++ f.moments env act) (f.act env act) := by
  have hkept := h.kept.act env act
  have hposted := postedIn_append log (f.moments env act)
  exact {
    kept := hkept
    told := by
      refine h.told.act (told_keeping env) act hkept.staffed.nodup fun n => ?_
      rw [hposted, statesFrom_append, statesFrom_moments]
    posted_eq := by
      rw [hposted, h.posted_eq, List.append_assoc, act_messages, takenIn_append, List.append_assoc]
    shows := h.shows.act env act fun _ _ now _ hreach htaken => h.reached hreach now htaken }

theorem run_heard (env : Environment σ) (start : Start) (interval : Nat) (isTracked : Bool)
    (world : σ) (acts : List (Act σ)) :
    Heard ((initial start interval isTracked world).chronicle env acts)
      ((initial start interval isTracked world).run env acts) :=
  chronicle_invariant env (fun _ _ act h => h.act env act)
    (heard_initial start interval isTracked world) acts

/-- When a checkout is shown to be past its check and is not on the way back to it, then it is
past it. -/
theorem Heard.isAdmitted (h : Heard log f) (hopen : f.isOpen = true) {slot : CheckoutSlot}
    (hslot : f.director.checkout = some slot) {shown : PurchaseState}
    (hshown : f.published.purchase = some shown) (hadmitted : shown.phase.IsAdmitted)
    (hno : ∀ state ∈ statesFrom slot.generation f.messages, state.phase ≠ .checkingEligibility) :
    ∃ c, f.checkout? slot.generation = some c ∧ c.setup = slot.setup ∧ c.IsInPhase ∧
      c.state.phase.IsAdmitted := by
  obtain ⟨c, hc, hnumber, hsetup⟩ := h.kept.staffed.checkout_placed slot hslot
  have htold := h.told.holds c hc
  have hlast : (statesFrom slot.generation (takenIn log)).getLast?.getD .initial = shown := by
    rw [h.kept.orderly.published_eq hopen] at hshown
    exact Option.some.inj ((h.shows slot hslot).symm.trans hshown)
  have hpath := htold.path
  rw [hnumber, h.posted_eq, statesFrom_append] at hpath
  have hrest := hpath.rest
  rw [hlast] at hrest
  exact ⟨c, hnumber ▸ h.kept.checkout?_of_mem hc, hsetup, htold.inPhase,
    hrest.isAdmitted hadmitted hno⟩

end Floor

end MintSale.Sale
