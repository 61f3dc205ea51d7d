import Mathlib.Data.List.Infix
import MintSale.Proofs.Checkout.Serving
import MintSale.Proofs.Sale.Showing
import MintSale.Proofs.Sale.Truth

/-!
# How commands are delivered

The host's commands wait with the director for the checkout in its place, and then with the
checkout. As long as the checkout keeps its place, each arrives once and in order.
-/

namespace MintSale.Sale

/-! ## What the director passes on -/

/-- The command in an event. -/
def Event.command? : Event → Option Command
  | .command told => some told
  | _ => none

/-- The command in an order to the checkout with a number. -/
def Order.commandFor? (n : Nat) : Order → Option Command
  | .command generation told => if generation = n then some told else none
  | _ => none

namespace Director

variable {d : Director} {n : Nat}

/-- A director that keeps its checkout has passed on to it what has come in for it, if anything. -/
theorem receive_orders (houtbox : d.outbox = []) {a : Arrival}
    (hcurrent : (d.receive a).current .checkout = some n) :
    (d.receive a).outbox.filterMap (Order.commandFor? n) =
        (a.event?.bind Event.command?).toList ∧
      .closeCheckout n ∉ (d.receive a).outbox := by
  cases a with
  | project result => simp [receive, takeProject, houtbox, Arrival.event?]
  | event event =>
      cases event with
      | chainAvailable client =>
          by_cases hsame : d.context.chain = some client
          · simp [receive, takeEvent, hsame, houtbox, Arrival.event?, Event.command?]
          · simp [receive, takeEvent, hsame, dropChainState, current] at hcurrent
      | walletAvailable client =>
          by_cases hsame : d.context.wallet = some client
          · simp [receive, takeEvent, hsame, houtbox, Arrival.event?, Event.command?]
          · simp [receive, takeEvent, hsame, current] at hcurrent
      | chainUnavailable => simp [receive, takeEvent, dropChainState, current] at hcurrent
      | walletUnavailable => simp [receive, takeEvent, current] at hcurrent
      | liveData | error =>
          simp [receive, takeEvent, takeLiveData, takeError, houtbox, Arrival.event?,
            Event.command?]
      | command command =>
          cases hslot : d.checkout with
          | none => simp [receive, takeEvent, hslot, current] at hcurrent
          | some slot =>
              have hnumber : slot.generation = n := by
                simpa [receive, takeEvent, hslot, current, order] using hcurrent
              simp [receive, takeEvent, hslot, order, houtbox, Arrival.event?, Event.command?,
                Order.commandFor?, hnumber]
  | message m =>
      obtain ⟨role, generation, report⟩ := m
      simp only [receive, takeMessage]
      split
      · cases report with
        | failed => cases role <;> simp [takeError, houtbox, Arrival.event?]
        | liveData | purchaseState => simp [takeLiveData, houtbox, Arrival.event?]
        | submitted => simp [order, houtbox, Arrival.event?, Order.commandFor?]
      · simp [houtbox, Arrival.event?]

/-- Settling passes nothing on. -/
theorem settle_orders (h : d.Sound) {accounts : Accounts} {now : Timestamp} (hn : n ≤ d.generation)
    (hcurrent : (d.settle accounts now).current .checkout = some n) :
    d.current .checkout = some n ∧ ∃ orders, (d.settle accounts now).outbox = d.outbox ++ orders ∧
      orders.filterMap (Order.commandFor? n) = [] ∧ .closeCheckout n ∉ orders := by
  have houtcome := h.settle_outcome accounts now
  generalize d.settle accounts now = d' at houtcome hcurrent ⊢
  cases houtcome with
  | stays => exact ⟨hcurrent, [], by simp, rfl, by simp⟩
  | ready hphase hready =>
      have hkept : d.openFeed.openCheckout = d.openFeed := by
        rcases d.openFeed.openCheckout_cases with
          hsame | ⟨project, chain, wallet, kind, hnone, hproject, hchain, hwallet, hkind⟩
        · exact hsame
        · -- A checkout that is opened now would have a new number.
          rw [openCheckout_of_none hnone hproject hchain hwallet hkind] at hcurrent
          have hnumber : d.openFeed.generation + 1 = n := Option.some.inj hcurrent
          have hle := d.generation_le_openFeed
          omega
      rw [hkept] at hcurrent ⊢
      refine ⟨by simpa [current] using hcurrent, ?_⟩
      rcases d.openFeed_cases with hsame | ⟨project, chain, hfeed, hproject, hchain⟩
      · exact ⟨[], by simp [hsame], rfl, by simp⟩
      · exact ⟨_, by rw [openFeed_of_none hfeed hproject hchain], by simp [Order.commandFor?],
          by simp⟩
  | failed | ruledOut | complete | unplugged | waiting => simp [current] at hcurrent

end Director

namespace Floor

variable {σ : Type} {env : Environment σ} {f : Floor σ} {n : Nat} {c : Checkout}

/-! ## Orders for a checkout -/

theorem checkout?_mapCheckout {m : Nat} {change : Checkout → Checkout}
    (hchange : ∀ c, c.line.generation = m → (change c).line.generation = m)
    (hfound : f.checkout? n = some c) :
    (f.mapCheckout m change).checkout? n = some (if n = m then change c else c) := by
  have hnumber : c.line.generation = n := by simpa using List.find?_some hfound
  simp only [checkout?, mapCheckout] at hfound ⊢
  rw [List.find?_map, ← hnumber]
  rw [← hnumber] at hfound
  suffices hsame : f.checkouts.find? ((fun c' : Checkout =>
      Decidable.decide (c'.line.generation = c.line.generation)) ∘ fun c' : Checkout =>
        if c'.line.generation = m then change c' else c') = some c by
    rw [hsame, Option.map_some]
  rw [← hfound]
  congr 1
  funext c'
  by_cases hm : c'.line.generation = m
  · simp [hm, hchange c' hm]
  · simp [hm]

/-- Orders tell a checkout what is in them for it, unless it is closed. -/
theorem checkout?_enact (hfound : f.checkout? n = some c) {orders : List Order}
    (hclose : .closeCheckout n ∉ orders) : (f.enact orders).checkout? n =
      some { c with commands := c.commands ++ orders.filterMap (Order.commandFor? n) } := by
  induction orders generalizing f c with
  | nil => simpa using hfound
  | cons o orders ih =>
      rw [List.mem_cons, not_or] at hclose
      have hfirst : (f.carryOut o).checkout? n =
          some { c with commands := c.commands ++ (Order.commandFor? n o).toList } := by
        cases o with
        | openFeed | closeFeed =>
            simpa [carryOut, checkout?, mapFeed, Order.commandFor?] using hfound
        | openCheckout slot =>
            simp only [carryOut, checkout?, Order.commandFor?, Option.toList_none,
              List.append_nil] at hfound ⊢
            rw [List.find?_append, hfound]
            rfl
        | closeCheckout generation =>
            have hother : n ≠ generation := by
              rintro rfl
              exact hclose.1 rfl
            have hkept : (f.mapCheckout generation Checkout.stop).checkout? n = _ :=
              checkout?_mapCheckout (fun _ hnumber => hnumber) hfound
            simpa [carryOut, Order.commandFor?, hother] using hkept
        | command generation command =>
            have htold : (f.carryOut (.command generation command)).checkout? n = _ :=
              checkout?_mapCheckout (fun _ hnumber => hnumber) hfound
            by_cases hn : n = generation
            · simpa [carryOut, Order.commandFor?, hn] using htold
            · simpa [carryOut, Order.commandFor?, hn, Ne.symm hn] using htold
        | track notice =>
            rw [carryOut]
            split <;> simpa [checkout?, Order.commandFor?] using hfound
      have hrest := ih hfirst hclose.2
      rw [enact, List.foldl_cons, ← enact, hrest]
      cases hcommand : Order.commandFor? n o <;> simp [hcommand]

/-! ## A checkout at work -/

/-- The commands that a checkout has not taken yet. -/
def commandsAt (n : Nat) (f : Floor σ) : List Command :=
  ((f.checkout? n).map (·.commands)).getD []

/-- The commands on their way to the checkout with a number, when it has its place. -/
def waiting (n : Nat) (f : Floor σ) : List Command :=
  f.commandsAt n ++ f.events.filterMap Event.command?

/-- The sale goes on, and the checkout with a number works in its place. -/
structure Serves (n : Nat) (f : Floor σ) : Prop where
  isOpen_eq : f.isOpen = true
  current_eq : f.director.current .checkout = some n
  atWork : (f.checkout? n).any (fun c => !c.line.isStopped && !c.hasEnded) = true

instance (n : Nat) (f : Floor σ) : Decidable (f.Serves n) :=
  decidable_of_iff (f.isOpen = true ∧ f.director.current .checkout = some n ∧
    (f.checkout? n).any (fun c => !c.line.isStopped && !c.hasEnded) = true)
    ⟨fun ⟨hopen, hcurrent, hwork⟩ => ⟨hopen, hcurrent, hwork⟩,
      fun h => ⟨h.isOpen_eq, h.current_eq, h.atWork⟩⟩

theorem Serves.works (h : f.Serves n) :
    ∃ c, f.checkout? n = some c ∧ c.line.isStopped = false ∧ c.hasEnded = false := by
  have hwork := h.atWork
  cases hfound : f.checkout? n with
  | none => simp [hfound] at hwork
  | some c => exact ⟨c, rfl, by simpa [hfound] using hwork⟩

/-- The events that the director takes. -/
def eventsIn (log : List (Moment σ)) : List Event :=
  log.filterMap fun moment => match moment.happening with
    | .received arrival _ => arrival.event?
    | _ => none

/-- The events that the host sends in an act. -/
def Act.sent : Act σ → List Event
  | .post event => [event]
  | _ => []

theorem eventsIn_moments {act : Act σ} (h : ∀ now, act ≠ .director now) (f : Floor σ) :
    eventsIn (f.moments env act) = [] := by
  refine List.filterMap_eq_nil_iff.mpr fun m hm => ?_
  cases hhappening : m.happening with
  | received arrival now => exact absurd hhappening (not_received h hm arrival now)
  | inquired | did => rfl

theorem eventsIn_of_next {now : Timestamp} (hopen : f.isOpen = true) (hshut : f.isShutDown = false)
    {a : Option Arrival} {g : Floor σ} (hnext : f.next env = (a, g)) :
    eventsIn (f.moments env (.director now)) = (a.bind Arrival.event?).toList := by
  rw [eventsIn, moments, happenings_of_next hopen hshut hnext]
  cases a with
  | none => simp [Function.comp_def]
  | some a => cases hevent : a.event? <;> simp [Function.comp_def, hevent]

/-- Every event that the host sends is taken in order or waits still. -/
theorem act_events (env : Environment σ) (hopen : f.isOpen = true) (act : Act σ) :
    f.events ++ act.sent = eventsIn (f.moments env act) ++ (f.act env act).events := by
  by_cases hdirector : ∃ now, act = .director now
  · obtain ⟨now, rfl⟩ := hdirector
    have hturned := directorTurn_turned env now f
    change f.events ++ [] = _ ++ (f.directorTurn env now).2.2.events
    generalize (f.directorTurn env now).2.2 = g at hturned ⊢
    cases hturned with
    | closed hclosed => simp [hopen] at hclosed
    | shut _ hshut =>
        simp [eventsIn, moments, happenings_of_closed (.inr hshut), seat, giveUp]
    | waits _ hshut hnext =>
        rw [eventsIn_of_next hopen hshut hnext, (next_reach hnext).events, List.append_nil]
    | took _ hshut hnext =>
        rw [eventsIn_of_next hopen hshut hnext, (next_reach hnext).events, List.append_nil]
        simp [Floor.reached, seat]
  · have hother : ∀ now, act ≠ .director now := by simpa using hdirector
    rw [eventsIn_moments hother]
    cases act with
    | director now => exact absurd rfl (hother now)
    | feed generation =>
        rcases feedTurn_cases env generation f with ⟨-, hsame⟩ | ⟨feed, -, -, -, hturn⟩
        · simp [Act.sent, Floor.act, hsame]
        · simp [Act.sent, Floor.act, hturn, mapFeed]
    | checkout generation =>
        rcases checkoutTurn_cases env generation f with ⟨-, hsame⟩ | ⟨c, -, -, -, hturn⟩
        · simp [Act.sent, Floor.act, hsame]
        · simp [Act.sent, Floor.act, hturn, mapCheckout]
    | post event => simp [Act.sent, Floor.act, post, hopen]
    | shutDown | wait | change => simp [Act.sent, Floor.act, Floor.shutDown, wait, change]

/-- A sale that goes on has not been told to shut down. -/
theorem Serves.isShutDown_eq (h : f.Serves n) {now : Timestamp}
    (hact : (f.act env (.director now)).Serves n) : f.isShutDown = false := by
  have hturned := directorTurn_turned env now f
  have hcurrent : (f.directorTurn env now).2.2.director.current .checkout = some n :=
    hact.current_eq
  generalize (f.directorTurn env now).2.2 = g at hturned hcurrent
  cases hturned with
  | closed hclosed => simp [h.isOpen_eq] at hclosed
  | shut => simp [seat, Director.dispose, Director.current] at hcurrent
  | waits _ hshut | took _ hshut => exact hshut

/-- The director takes an event in each of its turns as long as there are any. -/
theorem Serves.event_taken (hkept : f.Kept) (h : f.Serves n) {now : Timestamp}
    (hact : (f.act env (.director now)).Serves n) :
    min 1 f.events.length ≤ (eventsIn (f.moments env (.director now))).length := by
  cases hevents : f.events with
  | nil => simp
  | cons event events =>
      have hmetadata : f.metadata = none := by
        obtain ⟨slot, hslot, -⟩ := Option.map_eq_some_iff.mp h.current_eq
        have hready := hkept.orderly.sound.phase_of_checkout (by simp [hslot])
        cases hmetadata : f.metadata with
        | none => rfl
        | some job =>
            have hfetching := hkept.orderly.phase_of_metadata (by simp [hmetadata])
            simp [hready] at hfetching
      have hnext : f.next env = (some (.event event), { f with events := events }) := by
        simp [next, fetch, hmetadata, hevents]
      rw [eventsIn_of_next h.isOpen_eq (h.isShutDown_eq hact) hnext]
      simp [Arrival.event?]

/-- What reaches a director that keeps its checkout is passed on, if it is a command. -/
theorem reached_checkout? (hkept : f.Kept) (hfound : f.checkout? n = some c) {a : Arrival}
    {g : Floor σ} (hreach : Reach env f (some a) g) {now : Timestamp}
    (hcurrent : (g.reached env now a).director.current .checkout = some n) :
    (g.reached env now a).checkout? n = some { c with
      commands := c.commands ++ (a.event?.bind Event.command?).toList } := by
  obtain ⟨hg, hadmits⟩ := hkept.orderly.reach hreach
  have hle : n ≤ g.director.generation := by
    have hc : c ∈ f.checkouts := List.mem_of_find?_eq_some hfound
    have hnumber : c.line.generation = n := by simpa using List.find?_some hfound
    rw [hreach.spared.director_eq, ← hnumber]
    exact hkept.staffed.le_generation _ (mem_generations_checkout hc)
  simp only [Floor.reached, seat, enact_director] at hcurrent
  obtain ⟨hreceived, orders, houtbox, hcommands, hclose⟩ :=
    Director.settle_orders (hg.sound.receive hadmits)
      (by rwa [Director.receive_generation]) hcurrent
  obtain ⟨hpassed, hopened⟩ := Director.receive_orders hg.outbox_eq hreceived
  rw [Floor.reached, seat]
  refine (checkout?_enact (c := c) ?_ ?_).trans ?_
  · simpa [checkout?, hreach.spared.checkouts_eq] using hfound
  · simp [houtbox, hclose, hopened]
  · rw [houtbox, List.filterMap_append, hcommands, hpassed, List.append_nil]

/-- The director passes on to a checkout that keeps its place what comes in for it. -/
theorem Serves.passed_on (hkept : f.Kept) (h : f.Serves n) {now : Timestamp}
    (hact : (f.act env (.director now)).Serves n) (hfound : f.checkout? n = some c) :
    (f.act env (.director now)).checkout? n = some { c with
      commands := c.commands ++
        (eventsIn (f.moments env (.director now))).filterMap Event.command? } := by
  have hturned := directorTurn_turned env now f
  have hcurrent : (f.directorTurn env now).2.2.director.current .checkout = some n :=
    hact.current_eq
  change (f.directorTurn env now).2.2.checkout? n = _
  generalize (f.directorTurn env now).2.2 = g at hturned hcurrent ⊢
  cases hturned with
  | closed hclosed => simp [h.isOpen_eq] at hclosed
  | shut => simp [seat, Director.dispose, Director.current] at hcurrent
  | waits hopen hshut hnext =>
      rw [eventsIn_of_next hopen hshut hnext, checkout?, (next_reach hnext).spared.checkouts_eq]
      simpa [checkout?] using hfound
  | @took a g hopen hshut hnext =>
      rw [eventsIn_of_next hopen hshut hnext, Option.bind_some,
        reached_checkout? hkept hfound (next_reach hnext) hcurrent]
      cases a.event? with
      | none => rfl
      | some event => cases hcommand : event.command? <;> simp [hcommand]

/-- In what others do a checkout that stays at work only gets what the director passes on. -/
theorem Serves.told (hkept : f.Kept) (h : f.Serves n) {act : Act σ}
    (hact : (f.act env act).Serves n) (hother : act ≠ .checkout n)
    (hfound : f.checkout? n = some c) : (f.act env act).checkout? n = some { c with
      commands := c.commands ++ (eventsIn (f.moments env act)).filterMap Event.command? } := by
  by_cases hdirector : ∃ now, act = .director now
  · obtain ⟨now, rfl⟩ := hdirector
    exact h.passed_on hkept hact hfound
  · rw [eventsIn_moments (by simpa using hdirector)]
    simp only [List.filterMap_nil, List.append_nil]
    cases act with
    | director now => exact absurd ⟨now, rfl⟩ hdirector
    | feed generation =>
        rcases feedTurn_cases env generation f with ⟨-, hsame⟩ | ⟨feed, -, -, -, hturn⟩
        · rw [Floor.act, hsame, hfound]
        · rw [Floor.act, hturn]
          exact hfound
    | checkout generation =>
        have hne : n ≠ generation := fun hsame => hother (by rw [hsame])
        rcases checkoutTurn_cases env generation f with ⟨-, hsame⟩ | ⟨d, -, hnumber, -, hturn⟩
        · rw [Floor.act, hsame, hfound]
        · have hline := (d.turn_keeps env f.price f.world).line_eq
          let turned := (d.turn env f.price f.world).1
          have hkept : (f.mapCheckout generation fun _ => turned).checkout? n = _ :=
            checkout?_mapCheckout (fun _ _ => by rw [hline, hnumber]) hfound
          rw [if_neg hne] at hkept
          rw [Floor.act, hturn]
          exact hkept
    | post event =>
        rw [Floor.act, post]
        split <;> exact hfound
    | shutDown =>
        obtain ⟨d, hd, hstopped, -⟩ := hact.works
        obtain ⟨old, -, rfl⟩ := List.mem_map.mp (List.mem_of_find?_eq_some hd)
        simp [Checkout.stop] at hstopped
    | wait | change => exact hfound

theorem checkout?_own (hfound : f.checkout? n = some c) :
    (f.act env (.checkout n)).checkout? n = some (c.turn env f.price f.world).1 := by
  rcases checkoutTurn_cases env n f with ⟨hnone, -⟩ | ⟨d, -, hnumber, hd, hturn⟩
  · simp [hnone] at hfound
  · obtain rfl : d = c := Option.some.inj (hd.symm.trans hfound)
    have hline := (d.turn_keeps env f.price f.world).line_eq
    have hturned : (f.mapCheckout n fun _ => (d.turn env f.price f.world).1).checkout? n = _ :=
      checkout?_mapCheckout (fun _ _ => by rw [hline, hnumber]) hfound
    rw [if_pos rfl] at hturned
    rw [Floor.act, hturn]
    exact hturned

theorem scenesIn_of_ne {act : Act σ} (h : act ≠ .checkout n) (f : Floor σ) :
    scenesIn n (f.scenes env act) = [] := by
  rw [scenesIn_scenes]
  cases act with
  | checkout generation =>
      have hne : generation ≠ n := fun hsame => h (by rw [hsame])
      simp [additions, hne]
  | director | feed | post | shutDown | wait | change => rfl

theorem scenesIn_own (hfound : f.checkout? n = some c) :
    scenesIn n (f.scenes env (.checkout n)) = c.scenes env f.price f.world := by
  simp [scenesIn_scenes, additions, hfound]

/-- Every command that the director passes on is taken in order or waits with the checkout. -/
theorem Serves.act_commands (hkept : f.Kept) (h : f.Serves n) {act : Act σ}
    (hact : (f.act env act).Serves n) :
    f.commandsAt n ++ (eventsIn (f.moments env act)).filterMap Event.command? =
      commandsOf (scenesIn n (f.scenes env act)) ++ (f.act env act).commandsAt n := by
  obtain ⟨c, hfound, hstopped, hended⟩ := h.works
  by_cases hown : act = .checkout n
  · subst hown
    rw [eventsIn_moments (by simp), scenesIn_own hfound,
      Checkout.commandsOf_scenes hended hstopped]
    simp [commandsAt, hfound, checkout?_own hfound, Checkout.turn_commands hended hstopped]
  · rw [scenesIn_of_ne hown]
    simp [commandsAt, hfound, h.told hkept hact hown hfound, commandsOf]

/-- Whether the director takes its turn. -/
def Act.isDirector : Act σ → Bool
  | .director _ => true
  | _ => false

/-- Whether the checkout with a number takes its turn. -/
def Act.isCheckout (n : Nat) : Act σ → Bool
  | .checkout generation => generation == n
  | _ => false

theorem Serves.act_events_le (hkept : f.Kept) (h : f.Serves n) {act : Act σ}
    (hact : (f.act env act).Serves n) (hdirector : act.isDirector = true) :
    min 1 f.events.length ≤ (eventsIn (f.moments env act)).length := by
  cases act with
  | director now => exact h.event_taken hkept hact
  | feed | checkout | post | shutDown | wait | change => simp [Act.isDirector] at hdirector

/-- The checkout takes as many commands as fit into its turn. -/
theorem Serves.act_commands_le (env : Environment σ) (h : f.Serves n) {act : Act σ}
    (hown : act.isCheckout n = true) : min turnLimit (f.commandsAt n).length ≤
      (commandsOf (scenesIn n (f.scenes env act))).length := by
  cases act with
  | checkout generation =>
      obtain rfl : generation = n := by simpa [Act.isCheckout] using hown
      obtain ⟨c, hfound, hstopped, hended⟩ := h.works
      rw [scenesIn_own hfound, Checkout.commandsOf_scenes hended hstopped]
      simp [commandsAt, hfound]
  | director | feed | post | shutDown | wait | change => simp [Act.isCheckout] at hown

/-! ## Runs -/

/-- The checkout with a number is at work in its place throughout a run. -/
def Stays (env : Environment σ) (n : Nat) (f : Floor σ) (acts : List (Act σ)) : Prop :=
  ∀ first, first <+: acts → (f.run env first).Serves n

instance (env : Environment σ) (n : Nat) (f : Floor σ) (acts : List (Act σ)) :
    Decidable (f.Stays env n acts) :=
  decidable_of_iff (∀ first ∈ acts.inits, (f.run env first).Serves n)
    (by simp [Stays, List.mem_inits])

theorem Stays.serves {acts : List (Act σ)} (h : f.Stays env n acts) : f.Serves n :=
  h [] List.nil_prefix

theorem Stays.tail {act : Act σ} {acts : List (Act σ)} (h : f.Stays env n (act :: acts)) :
    (f.act env act).Stays env n acts :=
  fun first hfirst => h (act :: first) (List.cons_prefix_cons.mpr ⟨rfl, hfirst⟩)

theorem Stays.append {first second : List (Act σ)} (h : f.Stays env n (first ++ second)) :
    f.Stays env n first ∧ (f.run env first).Stays env n second := by
  refine ⟨fun part hpart => h part (hpart.trans (List.prefix_append first second)),
    fun part hpart => ?_⟩
  rw [← run_append]
  exact h (first ++ part) ((List.prefix_append_right_inj first).mpr hpart)

theorem play_cons (act : Act σ) (acts : List (Act σ)) :
    f.play env (act :: acts) = f.scenes env act ++ (f.act env act).play env acts :=
  rfl

theorem play_append (f : Floor σ) (first second : List (Act σ)) :
    f.play env (first ++ second) = f.play env first ++ (f.run env first).play env second := by
  induction first generalizing f with
  | nil => rfl
  | cons act first ih =>
      rw [List.cons_append, play_cons, play_cons, ih, List.append_assoc]
      rfl

theorem eventsIn_append (first second : List (Moment σ)) :
    eventsIn (first ++ second) = eventsIn first ++ eventsIn second :=
  List.filterMap_append

/-- What has become of the events that waited for the director and of the commands that waited for
the checkout: they have been taken in order, and in each turn as many as fit into it. -/
structure Delivered (env : Environment σ) (n : Nat) (f : Floor σ) (acts : List (Act σ)) : Prop where
  events_eq : f.events ++ acts.flatMap Act.sent =
    eventsIn (f.chronicle env acts) ++ (f.run env acts).events
  commands_eq : f.commandsAt n ++ (eventsIn (f.chronicle env acts)).filterMap Event.command? =
    commandsOf (scenesIn n (f.play env acts)) ++ (f.run env acts).commandsAt n
  events_le : min (acts.countP Act.isDirector) f.events.length ≤
    (eventsIn (f.chronicle env acts)).length
  commands_le : min (turnLimit * acts.countP (Act.isCheckout n)) (f.commandsAt n).length ≤
    (commandsOf (scenesIn n (f.play env acts))).length

theorem Stays.delivered (hkept : f.Kept) {acts : List (Act σ)} (h : f.Stays env n acts) :
    Delivered env n f acts := by
  induction acts generalizing f with
  | nil =>
      constructor <;> simp [chronicle, eventsIn, run, play, telling, scenesIn, commandsOf]
  | cons act acts ih =>
      have hrest := ih (hkept.act env act) h.tail
      have hevents := act_events env h.serves.isOpen_eq act
      have hcommands := h.serves.act_commands hkept h.tail.serves
      have hrun : f.run env (act :: acts) = (f.act env act).run env acts := rfl
      have hplay : commandsOf (scenesIn n (f.play env (act :: acts))) =
          commandsOf (scenesIn n (f.scenes env act)) ++
            commandsOf (scenesIn n ((f.act env act).play env acts)) := by
        rw [play_cons, scenesIn_append, commandsOf_append]
      constructor
      · rw [List.flatMap_cons, chronicle, eventsIn_append, hrun, ← List.append_assoc, hevents,
          List.append_assoc, hrest.events_eq, List.append_assoc]
      · rw [chronicle, eventsIn_append, List.filterMap_append, hplay, hrun, ← List.append_assoc,
          hcommands, List.append_assoc, hrest.commands_eq, List.append_assoc]
      · have hlength := congrArg List.length hevents
        have hle := hrest.events_le
        rw [chronicle, eventsIn_append, List.countP_cons]
        simp only [List.length_append] at hlength ⊢
        split
        · have hfirst := h.serves.act_events_le hkept h.tail.serves ‹_›
          omega
        · omega
      · have hlength := congrArg List.length hcommands
        have hle := hrest.commands_le
        rw [hplay, List.countP_cons]
        simp only [List.length_append] at hlength ⊢
        split
        · have hfirst := h.serves.act_commands_le env ‹_›
          rw [Nat.mul_succ]
          omega
        · simp only [Nat.add_zero]
          omega

/-- Every command arrives in order or waits still. -/
theorem Delivered.waiting_eq {acts : List (Act σ)} (h : Delivered env n f acts) :
    f.waiting n ++ (acts.flatMap Act.sent).filterMap Event.command? =
      commandsOf (scenesIn n (f.play env acts)) ++ (f.run env acts).waiting n := by
  calc f.waiting n ++ (acts.flatMap Act.sent).filterMap Event.command?
      = f.commandsAt n ++ (f.events ++ acts.flatMap Act.sent).filterMap Event.command? := by
        simp [waiting]
    _ = (f.commandsAt n ++ (eventsIn (f.chronicle env acts)).filterMap Event.command?) ++
          (f.run env acts).events.filterMap Event.command? := by
        rw [h.events_eq, List.filterMap_append, List.append_assoc]
    _ = commandsOf (scenesIn n (f.play env acts)) ++ (f.run env acts).waiting n := by
        rw [h.commands_eq, waiting, List.append_assoc]

/-- All that has been waiting has arrived as soon as the director has had enough turns, and the
checkout after it. -/
theorem Stays.in_time (hkept : f.Kept) {first second : List (Act σ)}
    (h : f.Stays env n (first ++ second))
    (hdirector : f.events.length ≤ first.countP Act.isDirector)
    (hcheckout : ((f.run env first).commandsAt n).length ≤
      turnLimit * second.countP (Act.isCheckout n)) :
    f.waiting n <+: commandsOf (scenesIn n (f.play env (first ++ second))) := by
  obtain ⟨hfirst, hsecond⟩ := h.append
  have hpassed := hfirst.delivered hkept
  have htaken := hsecond.delivered (run_invariant (fun _ act hf => hf.act env act) hkept first)
  have hevents : f.events <+: eventsIn (f.chronicle env first) := by
    have hwhole := List.prefix_append f.events (first.flatMap Act.sent)
    rw [hpassed.events_eq] at hwhole
    refine List.prefix_of_prefix_length_le hwhole (List.prefix_append _ _) ?_
    rw [← Nat.min_eq_right hdirector]
    exact hpassed.events_le
  have hcommands : (f.run env first).commandsAt n <+:
      commandsOf (scenesIn n ((f.run env first).play env second)) := by
    have hwhole := List.prefix_append ((f.run env first).commandsAt n)
      ((eventsIn ((f.run env first).chronicle env second)).filterMap Event.command?)
    rw [htaken.commands_eq] at hwhole
    refine List.prefix_of_prefix_length_le hwhole (List.prefix_append _ _) ?_
    rw [← Nat.min_eq_right hcheckout]
    exact htaken.commands_le
  rw [play_append, scenesIn_append, commandsOf_append]
  have hwaiting : f.waiting n <+:
      f.commandsAt n ++ (eventsIn (f.chronicle env first)).filterMap Event.command? :=
    (List.prefix_append_right_inj _).mpr (hevents.filterMap _)
  rw [hpassed.commands_eq] at hwaiting
  exact hwaiting.trans ((List.prefix_append_right_inj _).mpr hcommands)

end Floor

end MintSale.Sale
