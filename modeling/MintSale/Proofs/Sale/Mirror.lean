import MintSale.Proofs.Checkout.States
import MintSale.Proofs.Sale.Showing

/-!
# What the host is shown of a purchase has a meaning

All that checkouts report makes sense, and the host is shown what the checkout in its place has
reported last. It is never shown a failure of it: the news of the failure comes first, and with it
the checkout loses its place.
-/

namespace MintSale

open History

/-- A proper message that reports a state is from a checkout. -/
theorem Message.IsProper.role_of_state {m : Message} (h : m.IsProper) {state : PurchaseState}
    (hstate : m.state? = some state) : m.role = .checkout := by
  obtain ⟨role, generation, report⟩ := m
  cases role with
  | checkout => rfl
  | feed => cases report <;> simp_all [Message.IsProper, Message.state?]

namespace Sale

/-! ## The reports of a checkout -/

/-- The reports of the checkout with a number. -/
def messagesFrom (n : Nat) (messages : List Message) : List Message :=
  messages.filter fun m => m.role = .checkout ∧ m.generation = n

theorem messagesFrom_append (n : Nat) (first second : List Message) :
    messagesFrom n (first ++ second) = messagesFrom n first ++ messagesFrom n second :=
  List.filter_append ..

theorem mem_messagesFrom {n : Nat} {messages : List Message} {m : Message} :
    m ∈ messagesFrom n messages ↔ m ∈ messages ∧ m.role = .checkout ∧ m.generation = n := by
  simp [messagesFrom]

theorem messagesFrom_eq_nil {n : Nat} {messages : List Message}
    (h : ∀ m ∈ messages, m.role ≠ .checkout ∨ m.generation ≠ n) : messagesFrom n messages = [] := by
  refine List.filter_eq_nil_iff.mpr fun m hm => ?_
  have hother := h m hm
  simp only [decide_eq_true_eq]
  tauto

theorem messagesFrom_own {n : Nat} {messages : List Message}
    (h : ∀ m ∈ messages, m.role = .checkout ∧ m.generation = n) :
    messagesFrom n messages = messages :=
  List.filter_eq_self.mpr fun m hm => by simpa using h m hm

/-! ## Failures cost a checkout its place -/

namespace Director

variable {d : Director}

/-- No checkout has a place where an error is on record. -/
theorem Sound.error_of_settle (h : d.Sound) {accounts : Accounts} {now : Timestamp}
    (hslot : (d.settle accounts now).checkout.isSome) : d.context.error = none := by
  have houtcome := h.settle_outcome accounts now
  generalize d.settle accounts now = d' at houtcome hslot
  cases houtcome with
  | stays hphase => exact absurd (.inr (h.phase_of_checkout hslot)) hphase
  | ready hphase hready => exact Context.error_of_isReady hready
  | failed | ruledOut | complete | unplugged | waiting => simp at hslot

/-- The news that a checkout has failed is put on record if the checkout is in its place. -/
theorem error_of_failed {m : Message} {text : String} (hreport : m.report = .failed text)
    (hcurrent : d.current m.role = some m.generation) :
    (d.takeMessage m).context.error.isSome := by
  simp only [takeMessage, hcurrent, hreport, if_true, takeError]
  split <;> cases d.context.error <;> simp

/-- A checkout that keeps its place after a message of it was taken in has not failed. -/
theorem Sound.not_failed_of_settle {m : Message} (h : (d.takeMessage m).Sound) {slot : CheckoutSlot}
    (hplace : d.checkout = some slot) (hrole : m.role = .checkout)
    (hnumber : m.generation = slot.generation) {accounts : Accounts} {now : Timestamp}
    (hslot : ((d.takeMessage m).settle accounts now).checkout.isSome) (text : String) :
    m.report ≠ .failed text := by
  intro hfailed
  have hcurrent : d.current m.role = some m.generation := by
    simp [Director.current, hrole, hplace, hnumber]
  have hrecorded := error_of_failed hfailed hcurrent
  simp [h.error_of_settle hslot] at hrecorded

end Director

namespace Floor

variable {σ : Type} {env : Environment σ} {f : Floor σ} {log : List (Moment σ)}

/-! ## Files of reports -/

theorem sensible_keeping (env : Environment σ) :
    Keeping env Checkout.Sensible fun price c world => (c.turn env price world).2.1 where
  fresh := Checkout.Sensible.fresh
  tell command h := h.tell command
  stop h := h.stop
  turn price world h := h.turn env price world

/-- Only feeds report in the acts of others than checkouts. -/
theorem Orderly.role_of_posted (h : f.Orderly) {act : Act σ}
    (hact : ∀ generation, act ≠ .checkout generation) {m : Message}
    (hm : m ∈ postedIn (f.moments env act)) : m.role = .feed := by
  obtain ⟨moment, hmoment, hposted⟩ := List.mem_filterMap.mp hm
  obtain ⟨-, hhappens⟩ := happens_of_moment hmoment
  generalize moment.happening = happening at hhappens hposted
  cases hhappens with
  | inquired | received => simp [Happening.posted?] at hposted
  | checkout => exact absurd rfl (hact _)
  | @feed generation feed deed hfeed hdeed =>
      rcases List.mem_append.mp hdeed with hdeed | hdeed
      · obtain ⟨call, -, rfl⟩ := List.mem_map.mp hdeed
        simp [Happening.posted?, Deed.message?] at hposted
      · obtain ⟨message, hmessage, rfl⟩ := List.mem_map.mp hdeed
        obtain rfl : message = m := by simpa [Happening.posted?, Deed.message?] using hposted
        have hsender := (feed.turn_keeps env f.clock f.world).reports message hmessage
        exact hsender.1.trans (h.role_of_feed feed hfeed)

/-- The reports that arrive in an act are those of the checkout that takes its turn. -/
theorem Orderly.messagesFrom_moments (h : f.Orderly) (act : Act σ) (n : Nat) :
    messagesFrom n (postedIn (f.moments env act)) =
      f.additions (fun price c world => (c.turn env price world).2.1) act n := by
  cases act with
  | checkout generation =>
      rcases checkoutTurn_cases env generation f with ⟨hnone, -⟩ | ⟨c, hc, hgeneration, hfound, -⟩
      · by_cases hn : generation = n
        · simp [postedIn, moments, happenings, additions, hnone, ← hn, messagesFrom]
        · simp [postedIn, moments, happenings, additions, hnone, hn, messagesFrom]
      · have hsender : ∀ m ∈ (c.turn env f.price f.world).2.1,
            m.role = .checkout ∧ m.generation = generation := by
          intro m hm
          obtain ⟨hrole, hnumber, -⟩ := (c.turn_keeps env f.price f.world).reports m hm
          exact ⟨hrole.trans (h.role_of_checkout c hc), hnumber.trans hgeneration⟩
        rw [postedIn_moments_checkout hfound]
        by_cases hn : generation = n
        · simp [additions, hfound, ← hn, messagesFrom_own hsender]
        · simp only [additions, hn, if_false]
          exact messagesFrom_eq_nil fun m hm => .inr (by simpa [(hsender m hm).2] using hn)
  | director | feed | post | shutDown | wait | change =>
      exact messagesFrom_eq_nil fun m hm => .inl (by simp [h.role_of_posted (by simp) hm])

/-! ## What is shown -/

/-- A state that may be shown: no failure, and one with a meaning of its own. -/
def IsShowable (purchase : Option PurchaseState) : Prop :=
  ∀ state, purchase = some state → state.phase ≠ .error ∧ state.IsMeaningful []

theorem isShowable_none : IsShowable none := by
  simp [IsShowable]

theorem isShowable_initial : IsShowable (some .initial) := by
  rintro state ⟨⟩
  exact ⟨by simp [PurchaseState.initial], rfl⟩

/-- No failure of the checkout in its place was taken, and what it is shown as has a meaning. -/
def ShowsMeaning (log : List (Moment σ)) (d : Director) : Prop :=
  HoldsInPlace (fun slot taken d =>
    (∀ m ∈ messagesFrom slot.generation taken, ∀ text, m.report ≠ .failed text) ∧
      IsShowable d.purchase) log d

/-- A director only knows the state of a checkout that has a place. -/
theorem ShowsMeaning.isShowable {d : Director} (h : ShowsMeaning log d) (hsound : d.Sound) :
    IsShowable d.purchase := by
  intro state hstate
  have hplaced : d.checkout.isSome := hsound.purchase_iff.mp (by simp [hstate])
  obtain ⟨slot, hslot⟩ := Option.isSome_iff_exists.mp hplaced
  exact (h slot hslot).2 state hstate

/-- All that checkouts have reported makes sense, and so does what is shown of it. -/
structure Mirrored (log : List (Moment σ)) (f : Floor σ) : Prop where
  heard : Heard log f
  sensible : Filed Checkout.Sensible (fun n => messagesFrom n (postedIn log)) f
  shows : ShowsMeaning log f.director
  published : IsShowable f.published.purchase

theorem mirrored_initial (start : Start) (interval : Nat) (isTracked : Bool) (world : σ) :
    Mirrored [] (initial start interval isTracked world) where
  heard := heard_initial start interval isTracked world
  sensible := ⟨by simp [initial], fun _ _ => rfl⟩
  shows := by simp [ShowsMeaning, HoldsInPlace, initial, Director.initial]
  published := isShowable_none

/-- The reports of a checkout make sense, also if it has never been opened. -/
theorem Filed.makesSense {file : Nat → List Message} (h : Filed Checkout.Sensible file f)
    (n : Nat) : MakesSense (file n) := by
  by_cases hn : n ∈ f.numbers
  · obtain ⟨c, hc, rfl⟩ := List.mem_map.mp hn
    exact (h.holds c hc).sense
  · rw [h.empty n hn]
    exact .nil

/-- A state that the checkout in its place has reported may be shown. -/
theorem Mirrored.taken (h : Mirrored log f) {g : Floor σ} {m : Message}
    (hreach : Reach env f (some (.message m)) g) {slot : CheckoutSlot}
    (hslot : f.director.checkout = some slot) {state : PurchaseState}
    (hstate : stateFrom? slot.generation m = some state) :
    state.phase ≠ .error ∧ state.IsMeaningful [] := by
  have hmessages : f.messages = m :: g.messages := by
    simpa [Arrival.message?] using hreach.messages
  have hnumber : m.generation = slot.generation ∧ m.state? = some state := by
    simpa [stateFrom?] using hstate
  have hrole := (h.heard.kept.orderly.isProper m (by simp [hmessages])).role_of_state hnumber.2
  have hposted : messagesFrom slot.generation (postedIn log) =
      messagesFrom slot.generation (takenIn log) ++
        m :: messagesFrom slot.generation g.messages := by
    rw [h.heard.posted_eq, hmessages, messagesFrom_append]
    simp [messagesFrom, hrole, hnumber.1]
  have hmeaningful := (h.sensible.makesSense slot.generation).meaningful _ m _ hposted
  exact (hmeaningful state hnumber.2).of_no_failure (h.shows slot hslot).1

/-- While a checkout keeps its place, nothing that was taken in tells that it has failed. -/
theorem Mirrored.unbroken (h : Mirrored log f) {a : Arrival} {g : Floor σ}
    (hreach : Reach env f (some a) g) (now : Timestamp) {slot : CheckoutSlot}
    (hold : f.director.checkout = some slot)
    (hslot : (g.reached env now a).director.checkout = some slot) :
    ∀ m ∈ messagesFrom slot.generation (takenIn log) ++
      messagesFrom slot.generation a.message?.toList, ∀ text, m.report ≠ .failed text := by
  obtain ⟨hg, hadmits⟩ := h.heard.kept.orderly.reach hreach
  have hplace : g.director.checkout = some slot := by rw [hreach.spared.director_eq, hold]
  simp only [Floor.reached, seat, enact_director] at hslot
  intro m hm
  rcases List.mem_append.mp hm with hm | hm
  · exact (h.shows slot hold).1 m hm
  · obtain ⟨hmem, hrole, hnumber⟩ := mem_messagesFrom.mp hm
    cases a with
    | project | event => simp [Arrival.message?] at hmem
    | message own =>
        obtain rfl : m = own := by simpa [Arrival.message?] using hmem
        have hsound : (g.director.takeMessage m).Sound := hg.sound.receive hadmits
        exact hsound.not_failed_of_settle hplace hrole hnumber (Option.isSome_of_eq_some hslot)

theorem Mirrored.reached (h : Mirrored log f) {a : Arrival} {g : Floor σ}
    (hreach : Reach env f (some a) g) (now : Timestamp) {moments : List (Moment σ)}
    (htaken : takenIn moments = a.message?.toList) :
    ShowsMeaning (log ++ moments) (g.reached env now a).director := by
  intro slot hslot
  rw [takenIn_append, htaken, messagesFrom_append]
  rcases h.heard.kept.place_cases hreach now hslot with ⟨hold, hshown⟩ | ⟨hnumber, hshown⟩
  · refine ⟨h.unbroken hreach now hold hslot, ?_⟩
    have hshowable : IsShowable f.director.purchase := (h.shows slot hold).2
    rw [hshown]
    cases a with
    | project | event => simpa [Arrival.message?] using hshowable
    | message own =>
        cases hstate : stateFrom? slot.generation own with
        | none => simpa [Arrival.message?, hstate] using hshowable
        | some state =>
            have htold := h.taken hreach hold hstate
            intro shown hsame
            obtain rfl : state = shown := by simpa [Arrival.message?, hstate] using hsame
            exact htold
  · -- Nothing can have come from a checkout that has only just been opened.
    have hnone : messagesFrom slot.generation (postedIn log) = [] :=
      h.sensible.empty _ hnumber
    rw [h.heard.posted_eq, hreach.messages, ← List.append_assoc, messagesFrom_append,
      messagesFrom_append, List.append_eq_nil_iff] at hnone
    have hempty : messagesFrom slot.generation (takenIn log) ++
        messagesFrom slot.generation a.message?.toList = [] := hnone.1
    rw [hempty, hshown]
    exact ⟨by simp, isShowable_initial⟩

/-- Only what the director knows is published. -/
theorem published_act (env : Environment σ) (f : Floor σ) (act : Act σ) :
    (f.act env act).published = f.published ∨
      (f.act env act).published = (f.act env act).director.snapshot := by
  cases act with
  | director now =>
      have hturned := directorTurn_turned env now f
      change (f.directorTurn env now).2.2.published = _ ∨
        (f.directorTurn env now).2.2.published = (f.directorTurn env now).2.2.director.snapshot
      generalize (f.directorTurn env now).2.2 = g at hturned ⊢
      cases hturned with
      | closed => exact .inl rfl
      | shut => exact .inl (by simp [seat])
      | waits hopen hshut hnext => exact .inl (next_reach hnext).spared.published_eq
      | took => exact .inr (by simp [Floor.reached, seat, Director.snapshot])
  | feed generation =>
      rcases feedTurn_cases env generation f with ⟨-, hsame⟩ | ⟨feed, -, -, -, hturn⟩
      · exact .inl (by rw [Floor.act, hsame])
      · exact .inl (by rw [Floor.act, hturn]; rfl)
  | checkout generation =>
      rcases checkoutTurn_cases env generation f with ⟨-, hsame⟩ | ⟨c, -, -, -, hturn⟩
      · exact .inl (by rw [Floor.act, hsame])
      · exact .inl (by rw [Floor.act, hturn]; rfl)
  | post event =>
      rw [Floor.act, post]
      split <;> exact .inl rfl
  | shutDown | wait | change => exact .inl rfl

theorem Mirrored.act (h : Mirrored log f) (env : Environment σ) (act : Act σ) :
    Mirrored (log ++ f.moments env act) (f.act env act) := by
  have hheard := h.heard.act env act
  have hshows : ShowsMeaning (log ++ f.moments env act) (f.act env act).director :=
    h.shows.act env act fun _ _ now _ hreach htaken => h.reached hreach now htaken
  refine ⟨hheard, ?_, hshows, ?_⟩
  · refine h.sensible.act (sensible_keeping env) act hheard.kept.staffed.nodup fun n => ?_
    rw [postedIn_append, messagesFrom_append, h.heard.kept.orderly.messagesFrom_moments]
  · rcases published_act env f act with hold | hnew
    · rw [hold]
      exact h.published
    · rw [hnew]
      exact hshows.isShowable hheard.kept.orderly.sound

/-- Whatever a checkout is told and asked, and whatever the world does meanwhile, the states that it
reports make sense. So do those of every checkout of a sale, and the host of the sale is only ever
shown states that have a meaning of their own and are no failures. -/
theorem run_makesSense (env : Environment σ) :
    (∀ (setup : Checkout.Setup) (generation : Nat) (world : σ) (acts : List (Checkout.Act σ)),
      MakesSense ((deedsOf ((Checkout.fresh setup generation).story env world acts)).filterMap
        Deed.message?)) ∧
    ∀ (start : Start) (interval : Nat) (isTracked : Bool) (world : σ) (acts : List (Act σ)),
      let f := initial start interval isTracked world
      (∀ n, MakesSense (messagesFrom n (postedIn (f.chronicle env acts)))) ∧
        ∀ state, (f.run env acts).published.purchase = some state →
          state.phase ≠ .error ∧ state.IsMeaningful [] := by
  constructor
  · intro setup generation world acts
    simpa using (Checkout.Sensible.fresh setup generation).story env world acts
  · intro start interval isTracked world acts
    have hmirrored := chronicle_invariant (P := Mirrored) env (fun _ _ act h => h.act env act)
      (mirrored_initial start interval isTracked world) acts
    exact ⟨hmirrored.sensible.makesSense, hmirrored.published⟩

/-- The purchase of the small sale is shown ready to be made. -/
theorem run_makesSense_buying :
    ∃ state, (Sample.floor.run Sample.environment
        (Sample.opening ++ Sample.buying)).published.purchase = some state ∧
      state.phase = .readyForPurchase ∧ state.IsMeaningful [] := by
  have hphase : (Sample.floor.run Sample.environment
      (Sample.opening ++ Sample.buying)).published.purchase.map (·.phase) =
        some .readyForPurchase := by decide +kernel
  obtain ⟨state, hstate, hready⟩ := Option.map_eq_some_iff.mp hphase
  have hshown := ((run_makesSense Sample.environment).2 _ _ _ _ _).2 state hstate
  exact ⟨state, hstate, hready, hshown.2⟩

/-- A check that fails tells so between the states before and after it. -/
example :
    let c : Checkout := .fresh ⟨Sample.project, .merkle, ⟨"chain"⟩, ⟨"wallet"⟩⟩ 2
    ((deedsOf (c.story Sample.environment () [.turn none])).filterMap Deed.message?).map
        (fun m => m.state?.map (·.phase)) =
      [some .checkingEligibility, none, some .error] := by
  decide +kernel

end Floor

end Sale

end MintSale
