import MintSale.Proofs.Sale.Director
import MintSale.Sale.Floor

/-!
# How a floor changes

The director's turn has one of four outcomes. Carrying out orders only touches the workers and what
has been told to those who follow the purchases.
-/

namespace MintSale.Sale.Floor

variable {σ : Type} {env : Environment σ} {now : Timestamp} {f g : Floor σ}

/-! ## Orders -/

/-- The floor with other workers and another record of purchases. -/
def withWorkers (f : Floor σ) (feeds : List LiveFeed) (checkouts : List Checkout)
    (tracked : List Notice) : Floor σ :=
  { f with feeds := feeds, checkouts := checkouts, tracked := tracked }

theorem carryOut_frame (f : Floor σ) (o : Order) :
    ∃ feeds checkouts tracked, f.carryOut o = f.withWorkers feeds checkouts tracked := by
  cases o with
  | track notice =>
      by_cases htracked : f.isTracked
      · refine ⟨f.feeds, f.checkouts, f.tracked ++ [notice], ?_⟩
        simp [carryOut, htracked, withWorkers]
      · exact ⟨f.feeds, f.checkouts, f.tracked, by rw [carryOut, if_neg htracked]; rfl⟩
  | _ => exact ⟨_, _, _, rfl⟩

/-- The floor after orders have been carried out. -/
def enact (f : Floor σ) (orders : List Order) : Floor σ :=
  orders.foldl carryOut f

@[simp] theorem enact_nil (f : Floor σ) : f.enact [] = f :=
  rfl

@[simp] theorem enact_concat (f : Floor σ) (orders : List Order) (o : Order) :
    f.enact (orders ++ [o]) = (f.enact orders).carryOut o := by
  simp [enact]

theorem enact_frame (f : Floor σ) (orders : List Order) :
    ∃ feeds checkouts tracked, f.enact orders = f.withWorkers feeds checkouts tracked := by
  induction orders generalizing f with
  | nil => exact ⟨_, _, _, rfl⟩
  | cons o orders ih =>
      obtain ⟨feeds, checkouts, tracked, ho⟩ := carryOut_frame f o
      obtain ⟨feeds', checkouts', tracked', horders⟩ := ih (f.carryOut o)
      refine ⟨feeds', checkouts', tracked', ?_⟩
      rw [enact, List.foldl_cons, ← enact, horders, ho]
      rfl

@[simp] theorem enact_director (f : Floor σ) (orders : List Order) :
    (f.enact orders).director = f.director := by
  obtain ⟨feeds, checkouts, tracked, h⟩ := enact_frame f orders
  rw [h]
  rfl

@[simp] theorem enact_metadata (f : Floor σ) (orders : List Order) :
    (f.enact orders).metadata = f.metadata := by
  obtain ⟨feeds, checkouts, tracked, h⟩ := enact_frame f orders
  rw [h]
  rfl

@[simp] theorem enact_isOpen (f : Floor σ) (orders : List Order) :
    (f.enact orders).isOpen = f.isOpen := by
  obtain ⟨feeds, checkouts, tracked, h⟩ := enact_frame f orders
  rw [h]
  rfl

@[simp] theorem enact_events (f : Floor σ) (orders : List Order) :
    (f.enact orders).events = f.events := by
  obtain ⟨feeds, checkouts, tracked, h⟩ := enact_frame f orders
  rw [h]
  rfl

@[simp] theorem enact_messages (f : Floor σ) (orders : List Order) :
    (f.enact orders).messages = f.messages := by
  obtain ⟨feeds, checkouts, tracked, h⟩ := enact_frame f orders
  rw [h]
  rfl

@[simp] theorem enact_published (f : Floor σ) (orders : List Order) :
    (f.enact orders).published = f.published := by
  obtain ⟨feeds, checkouts, tracked, h⟩ := enact_frame f orders
  rw [h]
  rfl

@[simp] theorem enact_isTracked (f : Floor σ) (orders : List Order) :
    (f.enact orders).isTracked = f.isTracked := by
  obtain ⟨feeds, checkouts, tracked, h⟩ := enact_frame f orders
  rw [h]
  rfl

@[simp] theorem enact_asked (f : Floor σ) (orders : List Order) :
    (f.enact orders).asked = f.asked := by
  obtain ⟨feeds, checkouts, tracked, h⟩ := enact_frame f orders
  rw [h]
  rfl

/-! ## Workers -/

theorem forall_mapFeed {P : LiveFeed → Prop} (h : ∀ feed ∈ f.feeds, P feed) {generation : Nat}
    {change : LiveFeed → LiveFeed}
    (hchange : ∀ feed ∈ f.feeds, feed.line.generation = generation → P (change feed)) :
    ∀ feed ∈ (f.mapFeed generation change).feeds, P feed := by
  intro feed hfeed
  obtain ⟨old, hold, rfl⟩ := List.mem_map.mp hfeed
  split
  · next hgeneration => exact hchange old hold hgeneration
  · exact h old hold

theorem forall_mapCheckout {P : Checkout → Prop} (h : ∀ c ∈ f.checkouts, P c) {generation : Nat}
    {change : Checkout → Checkout}
    (hchange : ∀ c ∈ f.checkouts, c.line.generation = generation → P (change c)) :
    ∀ c ∈ (f.mapCheckout generation change).checkouts, P c := by
  intro c hc
  obtain ⟨old, hold, rfl⟩ := List.mem_map.mp hc
  split
  · next hgeneration => exact hchange old hold hgeneration
  · exact h old hold

/-- Orders keep what holds of new feeds and does not depend on whether a feed is stopped. -/
theorem enact_feeds {P : LiveFeed → Prop}
    (hfresh : ∀ setup generation interval, P (.fresh setup generation interval))
    (hstop : ∀ feed, P feed → P feed.stop) (h : ∀ feed ∈ f.feeds, P feed) (orders : List Order) :
    ∀ feed ∈ (f.enact orders).feeds, P feed := by
  induction orders generalizing f with
  | nil => exact h
  | cons o orders ih =>
      refine ih (f := f.carryOut o) ?_
      cases o with
      | openFeed slot =>
          intro feed hfeed
          rcases List.mem_append.mp hfeed with hfeed | hfeed
          · exact h feed hfeed
          · obtain rfl := List.mem_singleton.mp hfeed
            exact hfresh _ _ _
      | closeFeed generation => exact forall_mapFeed h fun feed hfeed _ => hstop feed (h feed hfeed)
      | openCheckout | closeCheckout | command => exact h
      | track notice =>
          rw [carryOut]
          split <;> exact h

/-- Orders keep what holds of the checkouts that they open and does not depend on whether a checkout
is stopped and what it is told. -/
theorem enact_checkouts {P : Checkout → Prop} {orders : List Order}
    (hfresh : ∀ slot, .openCheckout slot ∈ orders → P (.fresh slot.setup slot.generation))
    (hstop : ∀ c, P c → P c.stop)
    (hcommand : ∀ c command, P c → P { c with commands := c.commands ++ [command] })
    (h : ∀ c ∈ f.checkouts, P c) : ∀ c ∈ (f.enact orders).checkouts, P c := by
  induction orders generalizing f with
  | nil => exact h
  | cons o orders ih =>
      have hlater : ∀ slot, .openCheckout slot ∈ orders →
          P (.fresh slot.setup slot.generation) :=
        fun slot hslot => hfresh slot (List.mem_cons_of_mem o hslot)
      refine ih (f := f.carryOut o) hlater ?_
      cases o with
      | openCheckout slot =>
          intro c hc
          rcases List.mem_append.mp hc with hc | hc
          · exact h c hc
          · obtain rfl := List.mem_singleton.mp hc
            exact hfresh slot List.mem_cons_self
      | closeCheckout generation => exact forall_mapCheckout h fun c hc _ => hstop c (h c hc)
      | command generation command => exact forall_mapCheckout h fun c hc _ => hcommand c _ (h c hc)
      | openFeed | closeFeed => exact h
      | track notice =>
          rw [carryOut]
          split <;> exact h

/-! ## The director's turn -/

/-- The floor on which a director takes its place, with its orders carried out. -/
def seat (f : Floor σ) (d : Director) (published : Snapshot) : Floor σ :=
  { f with director := { d with outbox := [] }, published := published }.enact d.outbox

/-- What reaches the director in its next turn, if anything does, and the floor without it. -/
def next (env : Environment σ) (f : Floor σ) : Option Arrival × Floor σ :=
  let (result, f) := f.fetch env
  match result, f.events, f.messages with
  | some result, _, _ => (some (.project result), f)
  | none, event :: events, _ => (some (.event event), { f with events := events })
  | none, [], message :: messages => (some (.message message), { f with messages := messages })
  | none, [], [] => (none, f)

/-- The floor after something has reached the director. -/
def reached (env : Environment σ) (now : Timestamp) (f : Floor σ) (a : Arrival) : Floor σ :=
  let d := (f.director.receive a).settle (env.account f.world) now
  f.seat d d.snapshot

/-- The floor without a way to the project, in a world that does not owe it any more. -/
def giveUp (env : Environment σ) (f : Floor σ) : Floor σ :=
  { f with
    isOpen := false
    metadata := none
    world := (f.metadata.map fun job => job.abandon env f.world).getD f.world }

/-- The outcomes of a director's turn. -/
inductive Turned (env : Environment σ) (now : Timestamp) (f : Floor σ) : Floor σ → Prop where
  | closed (hopen : f.isOpen = false) : Turned env now f f
  | shut (hopen : f.isOpen = true) (hshut : f.isShutDown = true) :
      Turned env now f ((f.giveUp env).seat f.director.dispose f.published)
  | waits {g : Floor σ} (hopen : f.isOpen = true) (hshut : f.isShutDown = false)
      (hnext : f.next env = (none, g)) : Turned env now f g
  | took {a : Arrival} {g : Floor σ} (hopen : f.isOpen = true) (hshut : f.isShutDown = false)
      (hnext : f.next env = (some a, g)) : Turned env now f (g.reached env now a)

theorem directorTurn_turned (env : Environment σ) (now : Timestamp) (f : Floor σ) :
    Turned env now f (f.directorTurn env now).2.2 := by
  cases hopen : f.isOpen with
  | false =>
      have hturn : (f.directorTurn env now).2.2 = f := by simp [directorTurn, hopen]
      rw [hturn]
      exact .closed hopen
  | true =>
      cases hshut : f.isShutDown with
      | true =>
          have hturn : (f.directorTurn env now).2.2 =
              (f.giveUp env).seat f.director.dispose f.published := by
            simp [directorTurn, hopen, hshut, close, giveUp, seat, enact, Director.collect]
          rw [hturn]
          exact .shut hopen hshut
      | false =>
          have hturn : (f.directorTurn env now).2.2 =
              match f.next env with
              | (some a, g) => g.reached env now a
              | (none, g) => g := by
            rcases hfetch : f.fetch env with ⟨result, g⟩
            simp only [directorTurn, hopen, hshut, next, hfetch]
            cases result with
            | some result => rfl
            | none =>
                cases hevents : g.events with
                | cons event events => rfl
                | nil => cases hmessages : g.messages <;> rfl
          rcases hnext : f.next env with ⟨arrival, g⟩
          rw [hturn, hnext]
          cases arrival with
          | none => exact .waits hopen hshut hnext
          | some a => exact .took hopen hshut hnext

/-! ## What reaches the director -/

/-- The calls that the director asks on the way to the project in its next turn. -/
def inquiries (env : Environment σ) (f : Floor σ) : List Call :=
  match f.metadata with
  | none => []
  | some job => (job.resume env f.world).2.1

/-- What the director's next arrival leaves as it was on the floor. -/
structure Spared (f g : Floor σ) : Prop where
  director_eq : g.director = f.director
  isOpen_eq : g.isOpen = f.isOpen
  feeds_eq : g.feeds = f.feeds
  checkouts_eq : g.checkouts = f.checkouts
  published_eq : g.published = f.published
  isTracked_eq : g.isTracked = f.isTracked
  tracked_eq : g.tracked = f.tracked
  metadata_of : g.metadata.isSome → f.metadata.isSome

/-- The ways in which something reaches the director, or nothing does. -/
inductive Reach (env : Environment σ) (f : Floor σ) : Option Arrival → Floor σ → Prop where
  | project {result : Except Fault Project} {g : Floor σ}
      (hfetch : f.fetch env = (some result, g)) :
      Reach env f (some (.project result)) g
  | event {event : Event} {events : List Event} {g : Floor σ} (hfetch : f.fetch env = (none, g))
      (hevents : g.events = event :: events) :
      Reach env f (some (.event event)) { g with events := events }
  | message {message : Message} {messages : List Message} {g : Floor σ}
      (hfetch : f.fetch env = (none, g)) (hmessages : g.messages = message :: messages) :
      Reach env f (some (.message message)) { g with messages := messages }
  | nothing {g : Floor σ} (hfetch : f.fetch env = (none, g)) : Reach env f none g

theorem next_reach {a : Option Arrival} (h : f.next env = (a, g)) : Reach env f a g := by
  unfold next at h
  rcases hfetch : f.fetch env with ⟨result, g'⟩
  cases result with
  | some result =>
      obtain ⟨rfl, rfl⟩ := Prod.mk.inj (by simpa [hfetch] using h)
      exact .project hfetch
  | none =>
      cases hevents : g'.events with
      | cons event events =>
          obtain ⟨rfl, rfl⟩ := Prod.mk.inj (by simpa [hfetch, hevents] using h)
          exact .event hfetch hevents
      | nil =>
          cases hmessages : g'.messages with
          | cons message messages =>
              obtain ⟨rfl, rfl⟩ := Prod.mk.inj (by simpa [hfetch, hevents, hmessages] using h)
              simpa [hevents] using Reach.message hfetch hmessages
          | nil =>
              obtain ⟨rfl, rfl⟩ := Prod.mk.inj (by simpa [hfetch, hevents, hmessages] using h)
              exact .nothing hfetch

/-- What the arrivals and the work for the director keep, its turn keeps. -/
theorem directorTurn_keeps {P : Floor σ → Prop} (now : Timestamp) (h : P f)
    (hgone : P (f.giveUp env)) (hreach : ∀ {a g}, Reach env f a g → P g)
    (hseat : ∀ {g : Floor σ} d s, (f.directorTurn env now).2.2 = g.seat d s → P g →
      P (g.seat d s)) : P (f.directorTurn env now).2.2 := by
  have hturned := directorTurn_turned env now f
  generalize (f.directorTurn env now).2.2 = g at hturned hseat ⊢
  cases hturned with
  | closed hopen => exact h
  | shut hopen hshut => exact hseat _ _ rfl hgone
  | waits hopen hshut hnext => exact hreach (next_reach hnext)
  | took hopen hshut hnext => exact hseat _ _ rfl (hreach (next_reach hnext))

theorem fetch_spared (env : Environment σ) (f : Floor σ) : Spared f (f.fetch env).2 := by
  unfold fetch
  cases hmetadata : f.metadata with
  | none => constructor <;> simp [hmetadata]
  | some job =>
      rcases hjob : job.resume env f.world with ⟨result | next, asked, world⟩ <;>
        constructor <;> simp [hmetadata, hjob]

theorem fetch_events (env : Environment σ) (f : Floor σ) :
    (f.fetch env).2.events = f.events := by
  unfold fetch
  cases hmetadata : f.metadata with
  | none => rfl
  | some job =>
      rcases hjob : job.resume env f.world with ⟨result | next, asked, world⟩ <;> simp [hjob]

theorem fetch_messages (env : Environment σ) (f : Floor σ) :
    (f.fetch env).2.messages = f.messages := by
  unfold fetch
  cases hmetadata : f.metadata with
  | none => rfl
  | some job =>
      rcases hjob : job.resume env f.world with ⟨result | next, asked, world⟩ <;> simp [hjob]

theorem fetch_asked (env : Environment σ) (f : Floor σ) :
    (f.fetch env).2.asked = f.asked ++ f.inquiries env := by
  unfold fetch inquiries
  cases hmetadata : f.metadata with
  | none => simp
  | some job =>
      rcases hjob : job.resume env f.world with ⟨result | next, asked, world⟩ <;> simp [hjob]

/-- The project is there once, after which nobody is on the way to it. -/
theorem fetch_some {result : Except Fault Project} (h : f.fetch env = (some result, g)) :
    f.metadata.isSome ∧ g.metadata = none := by
  unfold fetch at h
  cases hmetadata : f.metadata with
  | none => simp [hmetadata] at h
  | some job =>
      rcases hjob : job.resume env f.world with ⟨result' | next, asked, world⟩
      · simp only [hmetadata, hjob, Prod.mk.injEq] at h
        obtain ⟨-, rfl⟩ := h
        exact ⟨rfl, rfl⟩
      · simp [hmetadata, hjob] at h

theorem Reach.spared {a : Option Arrival} (h : Reach env f a g) : Spared f g := by
  have hspared := fetch_spared env f
  cases h with
  | project hfetch => simpa [hfetch] using hspared
  | event hfetch hevents =>
      rw [hfetch] at hspared
      exact { hspared with }
  | message hfetch hmessages =>
      rw [hfetch] at hspared
      exact { hspared with }
  | nothing hfetch => simpa [hfetch] using hspared

theorem Reach.asked {a : Option Arrival} (h : Reach env f a g) :
    g.asked = f.asked ++ f.inquiries env := by
  have hasked := fetch_asked env f
  cases h with
  | project hfetch | event hfetch _ | message hfetch _ | nothing hfetch =>
      simpa [hfetch] using hasked

/-- The project reaches the director once. -/
theorem Reach.metadata {result : Except Fault Project}
    (h : Reach env f (some (.project result)) g) : f.metadata.isSome ∧ g.metadata = none := by
  cases h with
  | project hfetch => exact fetch_some hfetch

/-- Events reach the director in order. -/
theorem Reach.events {a : Option Arrival} (h : Reach env f a g) :
    f.events = (a.bind Arrival.event?).toList ++ g.events := by
  have hkept := fetch_events env f
  cases h with
  | project hfetch | message hfetch _ | nothing hfetch =>
      simpa [hfetch, Arrival.event?] using hkept.symm
  | event hfetch hevents => simpa [hfetch, hevents, Arrival.event?] using hkept.symm

/-- Messages reach the director in order. -/
theorem Reach.messages {a : Option Arrival} (h : Reach env f a g) :
    f.messages = (a.bind Arrival.message?).toList ++ g.messages := by
  have hkept := fetch_messages env f
  cases h with
  | project hfetch | event hfetch _ | nothing hfetch =>
      simpa [hfetch, Arrival.message?] using hkept.symm
  | message hfetch hmessages => simpa [hfetch, hmessages, Arrival.message?] using hkept.symm

/-! ## Turns of workers -/

/-- A feed with a number takes its turn, or there is none. -/
theorem feedTurn_cases (env : Environment σ) (generation : Nat) (f : Floor σ) :
    (f.feed? generation = none ∧ f.feedTurn env generation = f) ∨
      ∃ feed ∈ f.feeds, feed.line.generation = generation ∧ f.feed? generation = some feed ∧
        f.feedTurn env generation =
          { f.mapFeed generation fun _ => (feed.turn env f.clock f.world).1 with
            messages := f.messages ++ (feed.turn env f.clock f.world).2.1
            asked := f.asked ++ (feed.turn env f.clock f.world).2.2.1
            world := (feed.turn env f.clock f.world).2.2.2 } := by
  cases hfeed : f.feed? generation with
  | none => exact .inl ⟨rfl, by simp [feedTurn, hfeed]⟩
  | some feed =>
      have hmem := List.mem_of_find?_eq_some hfeed
      have hgeneration : feed.line.generation = generation := by
        simpa using List.find?_some hfeed
      exact .inr ⟨feed, hmem, hgeneration, rfl, by simp [feedTurn, hfeed, mapFeed]⟩

/-- A checkout with a number takes its turn, or there is none. -/
theorem checkoutTurn_cases (env : Environment σ) (generation : Nat) (f : Floor σ) :
    (f.checkout? generation = none ∧ f.checkoutTurn env generation = f) ∨
      ∃ checkout ∈ f.checkouts, checkout.line.generation = generation ∧
        f.checkout? generation = some checkout ∧
        f.checkoutTurn env generation =
          { f.mapCheckout generation fun _ => (checkout.turn env f.price f.world).1 with
            messages := f.messages ++ (checkout.turn env f.price f.world).2.1
            asked := f.asked ++ (checkout.turn env f.price f.world).2.2.1
            world := (checkout.turn env f.price f.world).2.2.2 } := by
  cases hcheckout : f.checkout? generation with
  | none => exact .inl ⟨rfl, by simp [checkoutTurn, hcheckout]⟩
  | some checkout =>
      have hmem := List.mem_of_find?_eq_some hcheckout
      have hgeneration : checkout.line.generation = generation := by
        simpa using List.find?_some hcheckout
      exact .inr ⟨checkout, hmem, hgeneration, rfl, by simp [checkoutTurn, hcheckout, mapCheckout]⟩

/-- What only the director changes. -/
structure Unmoved (f g : Floor σ) : Prop where
  director_eq : g.director = f.director
  metadata_eq : g.metadata = f.metadata
  isTracked_eq : g.isTracked = f.isTracked

theorem act_unmoved {act : Act σ} (h : ∀ now, act ≠ .director now) (f : Floor σ) :
    Unmoved f (f.act env act) := by
  cases act with
  | director now => exact absurd rfl (h now)
  | feed generation =>
      rcases feedTurn_cases env generation f with ⟨-, hsame⟩ | ⟨feed, -, -, -, hturn⟩
      · rw [Floor.act, hsame]
        exact ⟨rfl, rfl, rfl⟩
      · rw [Floor.act, hturn]
        exact ⟨rfl, rfl, rfl⟩
  | checkout generation =>
      rcases checkoutTurn_cases env generation f with ⟨-, hsame⟩ | ⟨checkout, -, -, -, hturn⟩
      · rw [Floor.act, hsame]
        exact ⟨rfl, rfl, rfl⟩
      · rw [Floor.act, hturn]
        exact ⟨rfl, rfl, rfl⟩
  | post event =>
      rw [Floor.act, post]
      split <;> exact ⟨rfl, rfl, rfl⟩
  | shutDown | wait | change => exact ⟨rfl, rfl, rfl⟩

/-! ## Runs -/

/-- A run in two parts. -/
theorem run_append (f : Floor σ) (first second : List (Act σ)) :
    f.run env (first ++ second) = (f.run env first).run env second :=
  List.foldl_append

/-- What every act preserves, a run preserves. -/
theorem run_invariant {P : Floor σ → Prop} (hact : ∀ f act, P f → P (f.act env act))
    (h : P f) (acts : List (Act σ)) : P (f.run env acts) := by
  induction acts generalizing f with
  | nil => exact h
  | cons act acts ih => exact ih (hact f act h)

/-- What is told of a run, given what is told of an act on a floor. -/
def telling {α : Type} (env : Environment σ) (tell : Floor σ → Act σ → List α) (f : Floor σ) :
    List (Act σ) → List α
  | [] => []
  | act :: acts => tell f act ++ (f.act env act).telling env tell acts

/-- What holds of what is told and the floor after it, and is preserved by every act, holds of a
run. -/
theorem telling_invariant {α : Type} (env : Environment σ) (tell : Floor σ → Act σ → List α)
    {P : List α → Floor σ → Prop}
    (hact : ∀ log f act, P log f → P (log ++ tell f act) (f.act env act)) (h : P [] f)
    (acts : List (Act σ)) : P (f.telling env tell acts) (f.run env acts) := by
  -- The induction is on the acts to come, so it starts from anything told before.
  have hfrom : ∀ log f, P log f → P (log ++ f.telling env tell acts) (f.run env acts) := by
    induction acts with
    | nil =>
        intro log f hlog
        simpa [telling, run] using hlog
    | cons act acts ih =>
        intro log f hlog
        simpa [telling, run, List.append_assoc] using ih _ _ (hact log f act hlog)
  simpa using hfrom [] f h

end MintSale.Sale.Floor
