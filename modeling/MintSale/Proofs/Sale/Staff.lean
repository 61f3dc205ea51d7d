import Mathlib.Data.List.Nodup
import MintSale.Proofs.Sale.Phases

/-!
# The staff of a sale

Workers are numbered as they are opened. Those that have a place with the director work with what
the director knows, and all others have been stopped or have ended.
-/

namespace MintSale.Sale.Floor

variable {σ : Type} {env : Environment σ} {f g : Floor σ} {d : Director}

/-! ## The invariant -/

/-- The numbers of all workers that were ever opened. -/
def generations (f : Floor σ) : List Nat :=
  f.feeds.map (·.line.generation) ++ f.checkouts.map (·.line.generation)

/-- The numbers of the checkouts among them. -/
def numbers (f : Floor σ) : List Nat :=
  f.checkouts.map (·.line.generation)

/-- The workers on the floor are those that a director knows of, or have been dismissed. -/
structure Staffed (d : Director) (f : Floor σ) : Prop where
  nodup : f.generations.Nodup
  le_generation : ∀ n ∈ f.generations, n ≤ d.generation
  feed_placed : ∀ slot, d.feed = some slot →
    ∃ feed ∈ f.feeds, feed.line.generation = slot.generation ∧ feed.setup = slot.setup
  checkout_placed : ∀ slot, d.checkout = some slot →
    ∃ c ∈ f.checkouts, c.line.generation = slot.generation ∧ c.setup = slot.setup
  feed_dismissed : ∀ feed ∈ f.feeds, d.current .feed = some feed.line.generation ∨
    feed.line.isStopped = true ∨ feed.exit?.isSome
  checkout_dismissed : ∀ c ∈ f.checkouts, d.current .checkout = some c.line.generation ∨
    c.line.isStopped = true ∨ c.hasEnded = true
  message_le : ∀ m ∈ f.messages, m.generation ≤ d.generation
  /-- A feed that says that it has failed has ended. -/
  ended_of_failed : ∀ m ∈ f.messages, m.role = .feed → (∃ text, m.report = .failed text) →
    ∀ feed ∈ f.feeds, feed.line.generation = m.generation → feed.exit?.isSome

theorem staffed_initial (start : Start) (interval : Nat) (isTracked : Bool) (world : σ) :
    Staffed (.initial start) (initial start interval isTracked world) := by
  constructor <;> simp [initial, generations, Director.initial]

theorem mem_generations_feed {feed : LiveFeed} (h : feed ∈ f.feeds) :
    feed.line.generation ∈ f.generations :=
  List.mem_append_left _ (List.mem_map_of_mem h)

/-- A number that has not been given yet is no checkout's. -/
theorem Staffed.not_mem_numbers {d : Director} (h : Staffed d f) {n : Nat}
    (hn : d.generation < n) : n ∉ f.numbers := by
  intro hmem
  have hle := h.le_generation _ (List.mem_append_right _ hmem)
  omega

theorem mem_generations_checkout {c : Checkout} (h : c ∈ f.checkouts) :
    c.line.generation ∈ f.generations :=
  List.mem_append_right _ (List.mem_map_of_mem h)

/-- A number belongs to one feed only. -/
theorem feed_unique (h : f.generations.Nodup) {a b : LiveFeed} (ha : a ∈ f.feeds)
    (hb : b ∈ f.feeds) (hab : a.line.generation = b.line.generation) : a = b :=
  List.inj_on_of_nodup_map h.of_append_left ha hb hab

/-- A number belongs to one checkout only. -/
theorem checkout_unique (h : f.generations.Nodup) {a b : Checkout} (ha : a ∈ f.checkouts)
    (hb : b ∈ f.checkouts) (hab : a.line.generation = b.line.generation) : a = b :=
  List.inj_on_of_nodup_map h.of_append_right ha hb hab

theorem generations_mapFeed {generation : Nat} {change : LiveFeed → LiveFeed}
    (hchange : ∀ feed ∈ f.feeds, feed.line.generation = generation →
      (change feed).line.generation = generation) :
    (f.mapFeed generation change).generations = f.generations := by
  simp only [generations, mapFeed, List.map_map, List.append_cancel_right_eq]
  refine List.map_congr_left fun feed hfeed => ?_
  by_cases hgeneration : feed.line.generation = generation
  · simp [hgeneration, hchange feed hfeed hgeneration]
  · simp [hgeneration]

theorem numbers_mapCheckout {generation : Nat} {change : Checkout → Checkout}
    (hchange : ∀ c ∈ f.checkouts, c.line.generation = generation →
      (change c).line.generation = generation) :
    (f.mapCheckout generation change).numbers = f.numbers := by
  simp only [numbers, mapCheckout, List.map_map]
  refine List.map_congr_left fun c hc => ?_
  by_cases hgeneration : c.line.generation = generation
  · simp [hgeneration, hchange c hc hgeneration]
  · simp [hgeneration]

theorem generations_mapCheckout {generation : Nat} {change : Checkout → Checkout}
    (hchange : ∀ c ∈ f.checkouts, c.line.generation = generation →
      (change c).line.generation = generation) :
    (f.mapCheckout generation change).generations = f.generations :=
  congrArg (f.feeds.map (·.line.generation) ++ ·) (numbers_mapCheckout hchange)

/-! ## Opening and closing -/

/-- Only the places of the workers and the count of those opened matter. -/
theorem Staffed.congr {d' : Director} (h : Staffed d f) (hfeed : d'.feed = d.feed)
    (hcheckout : d'.checkout = d.checkout) (hgeneration : d'.generation = d.generation) :
    Staffed d' f where
  nodup := h.nodup
  le_generation := by simpa [hgeneration] using h.le_generation
  feed_placed := by simpa [hfeed] using h.feed_placed
  checkout_placed := by simpa [hcheckout] using h.checkout_placed
  feed_dismissed := by simpa [Director.current, hfeed] using h.feed_dismissed
  checkout_dismissed := by simpa [Director.current, hcheckout] using h.checkout_dismissed
  message_le := by simpa [hgeneration] using h.message_le
  ended_of_failed := h.ended_of_failed

theorem Staffed.closeFeed (h : Staffed d f) {slot : FeedSlot} (hslot : d.feed = some slot) :
    Staffed { d with feed := none } (f.carryOut (.closeFeed slot.generation)) := by
  have hgenerations : (f.carryOut (.closeFeed slot.generation)).generations = f.generations :=
    generations_mapFeed fun _ _ hgeneration => hgeneration
  refine {
    nodup := by simpa [hgenerations] using h.nodup
    le_generation := by simpa [hgenerations] using h.le_generation
    feed_placed := by simp
    checkout_placed := h.checkout_placed
    feed_dismissed := ?_
    checkout_dismissed := h.checkout_dismissed
    message_le := h.message_le
    ended_of_failed := ?_ }
  · intro feed hfeed
    obtain ⟨old, hold, rfl⟩ := List.mem_map.mp hfeed
    by_cases hgeneration : old.line.generation = slot.generation
    · simp [hgeneration, LiveFeed.stop]
    · have hother := h.feed_dismissed old hold
      simp only [Director.current, hslot, Option.map_some, Option.some.injEq,
        Ne.symm hgeneration, false_or] at hother
      simpa [hgeneration] using .inr hother
  · intro m hm hrole hreport
    exact forall_mapFeed (P := fun feed => feed.line.generation = m.generation → feed.exit?.isSome)
      (h.ended_of_failed m hm hrole hreport)
      fun feed hfeed _ => h.ended_of_failed m hm hrole hreport feed hfeed

theorem Staffed.closeCheckout (h : Staffed d f) {slot : CheckoutSlot}
    (hslot : d.checkout = some slot) :
    Staffed { d with checkout := none } (f.carryOut (.closeCheckout slot.generation)) := by
  have hgenerations : (f.carryOut (.closeCheckout slot.generation)).generations = f.generations :=
    generations_mapCheckout fun _ _ hgeneration => hgeneration
  refine {
    nodup := by simpa [hgenerations] using h.nodup
    le_generation := by simpa [hgenerations] using h.le_generation
    feed_placed := h.feed_placed
    checkout_placed := by simp
    feed_dismissed := h.feed_dismissed
    checkout_dismissed := ?_
    message_le := h.message_le
    ended_of_failed := h.ended_of_failed }
  intro c hc
  obtain ⟨old, hold, rfl⟩ := List.mem_map.mp hc
  by_cases hgeneration : old.line.generation = slot.generation
  · simp [hgeneration, Checkout.stop]
  · have hother := h.checkout_dismissed old hold
    simp only [Director.current, hslot, Option.map_some, Option.some.injEq,
      Ne.symm hgeneration, false_or] at hother
    simpa [hgeneration] using .inr hother

theorem Staffed.openFeed (h : Staffed d f) (hfeed : d.feed = none) (setup : LiveFeed.Setup) :
    Staffed { d with feed := some ⟨d.generation + 1, setup⟩, generation := d.generation + 1 }
      (f.carryOut (.openFeed ⟨d.generation + 1, setup⟩)) := by
  have hgenerations : (f.carryOut (.openFeed ⟨d.generation + 1, setup⟩)).generations =
      f.feeds.map (·.line.generation) ++ (d.generation + 1) ::
        f.checkouts.map (·.line.generation) := by
    simp [generations, Floor.carryOut, LiveFeed.fresh, Line.fresh]
  have hfresh : d.generation + 1 ∉ f.generations := by
    intro hmem
    have hle := h.le_generation _ hmem
    omega
  refine {
    nodup := ?_
    le_generation := ?_
    feed_placed := ?_
    checkout_placed := h.checkout_placed
    feed_dismissed := ?_
    checkout_dismissed := h.checkout_dismissed
    message_le := fun m hm => Nat.le_succ_of_le (h.message_le m hm)
    ended_of_failed := ?_ }
  · rw [hgenerations, List.nodup_middle]
    exact List.nodup_cons.mpr ⟨hfresh, h.nodup⟩
  · intro n hn
    rw [hgenerations, List.mem_append, List.mem_cons] at hn
    rcases hn with hn | rfl | hn
    · exact Nat.le_succ_of_le (h.le_generation n (List.mem_append_left _ hn))
    · exact Nat.le_refl _
    · exact Nat.le_succ_of_le (h.le_generation n (List.mem_append_right _ hn))
  · rintro slot ⟨⟩
    exact ⟨_, List.mem_append_right _ (List.mem_singleton_self _), rfl, rfl⟩
  · intro feed hmem
    rcases List.mem_append.mp hmem with hmem | hmem
    · have hold := h.feed_dismissed feed hmem
      simp only [Director.current, hfeed, Option.map_none, reduceCtorEq, false_or] at hold
      exact .inr hold
    · obtain rfl := List.mem_singleton.mp hmem
      exact .inl rfl
  · intro m hm hrole hreport feed hmem hgeneration
    rcases List.mem_append.mp hmem with hmem | hmem
    · exact h.ended_of_failed m hm hrole hreport feed hmem hgeneration
    · obtain rfl := List.mem_singleton.mp hmem
      have hle := h.message_le m hm
      have hsame : d.generation + 1 = m.generation := hgeneration
      omega

theorem Staffed.openCheckout (h : Staffed d f) (hcheckout : d.checkout = none)
    (setup : Checkout.Setup) :
    Staffed { d with checkout := some ⟨d.generation + 1, setup⟩, generation := d.generation + 1 }
      (f.carryOut (.openCheckout ⟨d.generation + 1, setup⟩)) := by
  have hgenerations : (f.carryOut (.openCheckout ⟨d.generation + 1, setup⟩)).generations =
      f.generations ++ [d.generation + 1] := by
    simp [generations, Floor.carryOut, Checkout.fresh, Line.fresh]
  have hfresh : d.generation + 1 ∉ f.generations := by
    intro hmem
    have hle := h.le_generation _ hmem
    omega
  refine {
    nodup := ?_
    le_generation := ?_
    feed_placed := h.feed_placed
    checkout_placed := ?_
    feed_dismissed := h.feed_dismissed
    checkout_dismissed := ?_
    message_le := fun m hm => Nat.le_succ_of_le (h.message_le m hm)
    ended_of_failed := h.ended_of_failed }
  · rw [hgenerations, List.nodup_middle, List.append_nil]
    exact List.nodup_cons.mpr ⟨hfresh, h.nodup⟩
  · intro n hn
    rw [hgenerations, List.mem_append, List.mem_singleton] at hn
    rcases hn with hn | rfl
    · exact Nat.le_succ_of_le (h.le_generation n hn)
    · exact Nat.le_refl _
  · rintro slot ⟨⟩
    exact ⟨_, List.mem_append_right _ (List.mem_singleton_self _), rfl, rfl⟩
  · intro c hmem
    rcases List.mem_append.mp hmem with hmem | hmem
    · have hold := h.checkout_dismissed c hmem
      simp only [Director.current, hcheckout, Option.map_none, reduceCtorEq, false_or] at hold
      exact .inr hold
    · obtain rfl := List.mem_singleton.mp hmem
      exact .inl rfl

theorem Staffed.command (h : Staffed d f) (generation : Nat) (command : Command) :
    Staffed d (f.carryOut (.command generation command)) := by
  have hgenerations : (f.carryOut (.command generation command)).generations = f.generations :=
    generations_mapCheckout fun _ _ hgeneration => hgeneration
  refine { h with
    nodup := by simpa [hgenerations] using h.nodup
    le_generation := by simpa [hgenerations] using h.le_generation
    checkout_placed := ?_
    checkout_dismissed := ?_ }
  · intro slot hslot
    obtain ⟨c, hc, hgeneration, hsetup⟩ := h.checkout_placed slot hslot
    refine ⟨_, List.mem_map_of_mem hc, ?_⟩
    split <;> exact ⟨hgeneration, hsetup⟩
  · exact forall_mapCheckout h.checkout_dismissed fun c hc _ => h.checkout_dismissed c hc

theorem Staffed.track (h : Staffed d f) (notice : Notice) :
    Staffed d (f.carryOut (.track notice)) := by
  rw [Floor.carryOut]
  split
  · exact { h with }
  · exact h

/-! ## The director's turn -/

/-- The floor is staffed for a director once its orders have been carried out. -/
def Manned (f : Floor σ) (d : Director) : Prop :=
  Staffed d (f.enact d.outbox)

theorem Manned.congr {d' : Director} (h : f.Manned d) (hfeed : d'.feed = d.feed)
    (hcheckout : d'.checkout = d.checkout) (hgeneration : d'.generation = d.generation)
    (houtbox : d'.outbox = d.outbox) : f.Manned d' := by
  rw [Manned, houtbox]
  exact Staffed.congr h hfeed hcheckout hgeneration

theorem Manned.closeFeed (h : f.Manned d) : f.Manned d.closeFeed := by
  cases hfeed : d.feed with
  | none => rwa [Director.closeFeed_of_none hfeed]
  | some slot =>
      rw [Manned, Director.closeFeed_eq]
      simp only [hfeed, Option.map_some, Option.toList_some, enact_concat]
      exact (Staffed.closeFeed h hfeed).congr rfl rfl rfl

theorem Manned.closeCheckout (h : f.Manned d) : f.Manned d.closeCheckout := by
  rw [Director.closeCheckout_eq]
  cases hcheckout : d.checkout with
  | none =>
      refine h.congr rfl hcheckout.symm rfl ?_
      simp
  | some slot =>
      simp only [Manned, Option.map_some, Option.toList_some, enact_concat]
      exact (Staffed.closeCheckout h hcheckout).congr rfl rfl rfl

theorem Manned.openFeed (h : f.Manned d) : f.Manned d.openFeed := by
  rcases d.openFeed_cases with hsame | ⟨project, chain, hfeed, hproject, hchain⟩
  · rwa [hsame]
  · rw [Manned, Director.openFeed_of_none hfeed hproject hchain, enact_concat]
    exact (Staffed.openFeed h hfeed ⟨project, chain⟩).congr rfl rfl rfl

theorem Manned.openCheckout (h : f.Manned d) : f.Manned d.openCheckout := by
  rcases d.openCheckout_cases with
    hsame | ⟨project, chain, wallet, kind, hcheckout, hproject, hchain, hwallet, hkind⟩
  · rwa [hsame]
  · rw [Manned, Director.openCheckout_of_none hcheckout hproject hchain hwallet hkind, enact_concat]
    exact (Staffed.openCheckout h hcheckout ⟨project, kind, chain, wallet⟩).congr rfl rfl rfl

/-- A feed that has ended by itself leaves its place. -/
theorem Staffed.forgetFeed (h : Staffed d f) {generation : Nat}
    (hcurrent : d.current .feed = some generation)
    (hended : ∀ feed ∈ f.feeds, feed.line.generation = generation → feed.exit?.isSome) :
    Staffed { d with feed := none } f := by
  refine { h with feed_placed := by simp, feed_dismissed := ?_ }
  intro feed hfeed
  rcases h.feed_dismissed feed hfeed with hplace | hgone
  · rw [hcurrent] at hplace
    exact .inr (.inr (hended feed hfeed (Option.some.inj hplace).symm))
  · exact .inr hgone

theorem Manned.takeEvent (h : f.Manned d) (event : Event) : f.Manned (d.takeEvent event) := by
  cases event with
  | chainAvailable client =>
      rw [Director.takeEvent]
      split
      · exact h
      · have hswapped : f.Manned { d with context := { d.context with chain := some client } } :=
          h.congr rfl rfl rfl rfl
        exact hswapped.closeFeed.closeCheckout.congr rfl rfl rfl rfl
  | chainUnavailable =>
      have hswapped : f.Manned { d with context := { d.context with chain := none } } :=
        h.congr rfl rfl rfl rfl
      exact hswapped.closeFeed.closeCheckout.congr rfl rfl rfl rfl
  | walletAvailable client =>
      rw [Director.takeEvent]
      split
      · exact h
      · have hswapped : f.Manned { d with context := { d.context with wallet := some client } } :=
          h.congr rfl rfl rfl rfl
        exact hswapped.closeCheckout
  | walletUnavailable =>
      have hswapped : f.Manned { d with context := { d.context with wallet := none } } :=
        h.congr rfl rfl rfl rfl
      exact hswapped.closeCheckout
  | liveData data => exact h.congr rfl rfl rfl rfl
  | error message => exact h.congr rfl rfl rfl rfl
  | command command =>
      rw [Director.takeEvent]
      split
      · next slot hslot =>
        change Staffed _ (f.enact (d.outbox ++ [_]))
        rw [enact_concat]
        exact (Staffed.command h slot.generation command).congr rfl rfl rfl
      · exact h

theorem Manned.takeMessage (h : f.Manned d) (houtbox : d.outbox = []) {m : Message}
    (hended : m.role = .feed → (∃ text, m.report = .failed text) →
      ∀ feed ∈ f.feeds, feed.line.generation = m.generation → feed.exit?.isSome) :
    f.Manned (d.takeMessage m) := by
  obtain ⟨role, generation, report⟩ := m
  rw [Director.takeMessage]
  by_cases hcurrent : d.current role = some generation
  · rw [if_pos hcurrent]
    cases report with
    | liveData data => exact h.congr rfl rfl rfl rfl
    | failed message =>
        cases role with
        | feed =>
            have hstaffed : Staffed d f := by simpa [Manned, houtbox] using h
            have hforgotten : f.Manned { d with feed := none } := by
              simpa [Manned, houtbox] using
                hstaffed.forgetFeed hcurrent (hended rfl ⟨message, rfl⟩)
            exact hforgotten.congr rfl rfl rfl rfl
        | checkout => exact h.congr rfl rfl rfl rfl
    | purchaseState state => exact h.congr rfl rfl rfl rfl
    | submitted txHash purchaseTo =>
        change Staffed _ (f.enact (d.outbox ++ [_]))
        rw [enact_concat]
        exact (Staffed.track h _).congr rfl rfl rfl
  · rw [if_neg hcurrent]
    exact h

theorem Manned.settle {accounts : Accounts} {now : Timestamp} (h : f.Manned d) (hd : d.Sound) :
    f.Manned (d.settle accounts now) := by
  have houtcome := hd.settle_outcome accounts now
  generalize d.settle accounts now = d' at houtcome ⊢
  cases houtcome with
  | stays hphase => exact h
  | ready hphase hready => exact h.openFeed.openCheckout.congr rfl rfl rfl rfl
  | failed | ruledOut | complete | unplugged =>
      exact h.closeCheckout.closeFeed.congr rfl rfl rfl rfl
  | waiting hphase hobjection hchain => exact h.closeCheckout.openFeed.congr rfl rfl rfl rfl

/-! ## Acts -/

theorem Staffed.spared (h : Staffed f.director f) (hg : Spared f g)
    (hmessages : ∀ m ∈ g.messages, m ∈ f.messages) : Staffed g.director g where
  nodup := by simpa [generations, hg.feeds_eq, hg.checkouts_eq] using h.nodup
  le_generation := by
    simpa [generations, hg.feeds_eq, hg.checkouts_eq, hg.director_eq] using h.le_generation
  feed_placed := by simpa [hg.feeds_eq, hg.director_eq] using h.feed_placed
  checkout_placed := by simpa [hg.checkouts_eq, hg.director_eq] using h.checkout_placed
  feed_dismissed := by simpa [hg.feeds_eq, hg.director_eq] using h.feed_dismissed
  checkout_dismissed := by simpa [hg.checkouts_eq, hg.director_eq] using h.checkout_dismissed
  message_le := by
    intro m hm
    simpa [hg.director_eq] using h.message_le m (hmessages m hm)
  ended_of_failed := by
    intro m hm
    simpa [hg.feeds_eq] using h.ended_of_failed m (hmessages m hm)

/-- Who sits at the director's place does not matter for the staff. -/
theorem Staffed.reseat (h : Staffed d f) (e : Director) (s : Snapshot) :
    Staffed d { f with director := e, published := s } :=
  { h with }

theorem Manned.seat {s : Snapshot}
    (h : { f with director := { d with outbox := [] }, published := s : Floor σ }.Manned d) :
    Staffed (f.seat d s).director (f.seat d s) := by
  rw [Floor.seat, enact_director]
  exact Staffed.congr h rfl rfl rfl

theorem Staffed.manned (h : Staffed d f) (houtbox : d.outbox = []) : f.Manned d := by
  rwa [Manned, houtbox, enact_nil]

theorem Staffed.directorTurn (h : Staffed f.director f) (hf : f.Orderly) (env : Environment σ)
    (now : Timestamp) :
    Staffed (f.directorTurn env now).2.2.director (f.directorTurn env now).2.2 := by
  have hturned := directorTurn_turned env now f
  generalize (f.directorTurn env now).2.2 = g at hturned ⊢
  cases hturned with
  | closed hopen => exact h
  | shut hopen hshut =>
      have hgone : Staffed f.director (f.giveUp env) := { h with }
      refine Manned.seat (Manned.closeCheckout (Manned.closeFeed ?_))
      exact (hgone.reseat _ _).manned hf.outbox_eq
  | waits hopen hshut hnext =>
      have hreach := next_reach hnext
      exact h.spared hreach.spared (by simp [hreach.messages])
  | @took a g hopen hshut hnext =>
      have hreach := next_reach hnext
      have hstaffed := h.spared hreach.spared (by simp +contextual [hreach.messages])
      obtain ⟨hg, hadmits⟩ := hf.reach hreach
      refine Manned.seat (Manned.settle ?_ (hg.sound.receive hadmits))
      have hmanned := fun e s => (hstaffed.reseat e s).manned hg.outbox_eq
      cases a with
      | project result => exact (hmanned _ _).congr rfl rfl rfl rfl
      | event event => exact (hmanned _ _).takeEvent event
      | message m =>
          refine (hmanned _ _).takeMessage hg.outbox_eq fun hrole hreport feed hfeed => ?_
          rw [hreach.spared.feeds_eq] at hfeed
          exact h.ended_of_failed m (by simp [hreach.messages, Arrival.message?]) hrole hreport feed
            hfeed

theorem Staffed.feedTurn (h : Staffed f.director f) (env : Environment σ) (generation : Nat) :
    Staffed (f.feedTurn env generation).director (f.feedTurn env generation) := by
  rcases feedTurn_cases env generation f with ⟨-, hsame⟩ | ⟨feed, hfeed, hgeneration, -, hturn⟩
  · rwa [hsame]
  · have hkeeps := feed.turn_keeps env f.clock f.world
    have hline : (feed.turn env f.clock f.world).1.line.generation = generation := by
      rw [hkeeps.line_eq, hgeneration]
    have hgenerations : (f.feedTurn env generation).generations = f.generations := by
      rw [hturn]
      exact generations_mapFeed (f := f) fun _ _ _ => hline
    rw [hturn] at hgenerations ⊢
    refine { h with
      nodup := by simpa [hgenerations] using h.nodup
      le_generation := by
        rw [hgenerations]
        exact h.le_generation
      feed_placed := ?_
      feed_dismissed := ?_
      message_le := ?_
      ended_of_failed := ?_ }
    · intro slot hslot
      obtain ⟨placed, hplaced, hnumber, hsetup⟩ := h.feed_placed slot hslot
      refine ⟨_, List.mem_map_of_mem hplaced, ?_⟩
      split
      · next hsame =>
        obtain rfl := feed_unique h.nodup hplaced hfeed (hsame.trans hgeneration.symm)
        exact ⟨by rw [hkeeps.line_eq, hnumber], by rw [hkeeps.setup_eq, hsetup]⟩
      · exact ⟨hnumber, hsetup⟩
    · refine forall_mapFeed h.feed_dismissed fun _ _ _ => ?_
      rw [hkeeps.line_eq]
      rcases h.feed_dismissed feed hfeed with hplace | hstopped | hended
      · exact .inl hplace
      · exact .inr (.inl hstopped)
      · exact .inr (.inr (hkeeps.ended_of hended))
    · intro m hm
      rcases List.mem_append.mp hm with hm | hm
      · exact h.message_le m hm
      · rw [(hkeeps.reports m hm).2.1]
        exact h.le_generation _ (mem_generations_feed hfeed)
    · intro m hm hrole hreport
      rcases List.mem_append.mp hm with hm | hm
      · refine forall_mapFeed (P := fun feed => feed.line.generation = m.generation → _)
          (h.ended_of_failed m hm hrole hreport) fun _ _ _ hnumber => ?_
        rw [hkeeps.line_eq] at hnumber
        exact hkeeps.ended_of (h.ended_of_failed m hm hrole hreport feed hfeed hnumber)
      · -- A new report of failure is the feed's own, and it has ended with it.
        obtain ⟨-, hsender, hsaid⟩ := hkeeps.reports m hm
        obtain ⟨text, hreport⟩ := hreport
        have hended : (feed.turn env f.clock f.world).1.exit?.isSome := by
          rcases hsaid with ⟨data, hdata⟩ | ⟨-, hended⟩
          · simp [hreport] at hdata
          · exact hended
        intro later hlater hnumber
        obtain ⟨old, -, rfl⟩ := List.mem_map.mp hlater
        split at hnumber
        · next hsame => simpa [hsame] using hended
        · next hother => exact absurd (hnumber.trans (hsender.trans hgeneration)) hother

theorem Staffed.checkoutTurn (h : Staffed f.director f) (hf : f.Orderly) (env : Environment σ)
    (generation : Nat) :
    Staffed (f.checkoutTurn env generation).director (f.checkoutTurn env generation) := by
  rcases checkoutTurn_cases env generation f with ⟨-, hsame⟩ | ⟨c, hc, hgeneration, -, hturn⟩
  · rwa [hsame]
  · have hkeeps := c.turn_keeps env f.price f.world
    have hgenerations : (f.checkoutTurn env generation).generations = f.generations := by
      rw [hturn]
      exact generations_mapCheckout (f := f) fun _ _ _ => by rw [hkeeps.line_eq, hgeneration]
    rw [hturn] at hgenerations ⊢
    refine { h with
      nodup := by simpa [hgenerations] using h.nodup
      le_generation := by
        rw [hgenerations]
        exact h.le_generation
      checkout_placed := ?_
      checkout_dismissed := ?_
      message_le := ?_
      ended_of_failed := ?_ }
    · intro slot hslot
      obtain ⟨placed, hplaced, hnumber, hsetup⟩ := h.checkout_placed slot hslot
      refine ⟨_, List.mem_map_of_mem hplaced, ?_⟩
      split
      · next hsame =>
        obtain rfl := checkout_unique h.nodup hplaced hc (hsame.trans hgeneration.symm)
        exact ⟨by rw [hkeeps.line_eq, hnumber], by rw [hkeeps.setup_eq, hsetup]⟩
      · exact ⟨hnumber, hsetup⟩
    · refine forall_mapCheckout h.checkout_dismissed fun _ _ _ => ?_
      rw [hkeeps.line_eq]
      rcases h.checkout_dismissed c hc with hplace | hstopped | hended
      · exact .inl hplace
      · exact .inr (.inl hstopped)
      · exact .inr (.inr (hkeeps.ended_of hended))
    · intro m hm
      rcases List.mem_append.mp hm with hm | hm
      · exact h.message_le m hm
      · rw [(hkeeps.reports m hm).2.1]
        exact h.le_generation _ (mem_generations_checkout hc)
    · intro m hm hrole
      rcases List.mem_append.mp hm with hm | hm
      · exact h.ended_of_failed m hm hrole
      · obtain ⟨hsender, -, -⟩ := hkeeps.reports m hm
        simp [hrole, hf.role_of_checkout c hc] at hsender

theorem Staffed.shutDown (h : Staffed f.director f) : Staffed f.director f.shutDown := by
  have hgenerations : f.shutDown.generations = f.generations := by
    simp [generations, Floor.shutDown, Function.comp_def, LiveFeed.stop, Checkout.stop]
  refine { h with
    nodup := by simpa [hgenerations] using h.nodup
    le_generation := by simpa [hgenerations] using h.le_generation
    feed_placed := ?_
    checkout_placed := ?_
    feed_dismissed := ?_
    checkout_dismissed := ?_
    ended_of_failed := ?_ }
  · intro slot hslot
    obtain ⟨feed, hfeed, hplace⟩ := h.feed_placed slot hslot
    exact ⟨feed.stop, List.mem_map_of_mem hfeed, hplace⟩
  · intro slot hslot
    obtain ⟨c, hc, hplace⟩ := h.checkout_placed slot hslot
    exact ⟨c.stop, List.mem_map_of_mem hc, hplace⟩
  · intro feed hfeed
    obtain ⟨old, -, rfl⟩ := List.mem_map.mp hfeed
    exact .inr (.inl rfl)
  · intro c hc
    obtain ⟨old, -, rfl⟩ := List.mem_map.mp hc
    exact .inr (.inl rfl)
  · intro m hm hrole hreport feed hfeed
    obtain ⟨old, hold, rfl⟩ := List.mem_map.mp hfeed
    exact h.ended_of_failed m hm hrole hreport old hold

theorem Staffed.act (h : Staffed f.director f) (hf : f.Orderly) (env : Environment σ)
    (act : Act σ) : Staffed (f.act env act).director (f.act env act) := by
  cases act with
  | director now => exact h.directorTurn hf env now
  | feed generation => exact h.feedTurn env generation
  | checkout generation => exact h.checkoutTurn hf env generation
  | post event =>
      rw [Floor.act, post]
      split
      · exact { h with }
      · exact h
  | shutDown => exact h.shutDown
  | wait milliseconds => exact { h with }
  | change event => exact { h with }

/-! ## Every run -/

/-- The floor is in order and staffed. -/
structure Kept (f : Floor σ) : Prop where
  orderly : f.Orderly
  staffed : Staffed f.director f

theorem Kept.act (h : f.Kept) (env : Environment σ) (act : Act σ) : (f.act env act).Kept where
  orderly := h.orderly.act env act
  staffed := h.staffed.act h.orderly env act

theorem kept_initial (start : Start) (interval : Nat) (isTracked : Bool) (world : σ) :
    (initial start interval isTracked world).Kept where
  orderly := orderly_initial start interval isTracked world
  staffed := staffed_initial start interval isTracked world

theorem kept_run (env : Environment σ) (start : Start) (interval : Nat) (isTracked : Bool)
    (world : σ) (acts : List (Act σ)) :
    ((initial start interval isTracked world).run env acts).Kept :=
  run_invariant (fun _ act hf => hf.act env act) (kept_initial start interval isTracked world) acts

/-- Nobody on the floor is out of date or there twice. A feed or a checkout with a place is the one
that was opened with the present clients and project, all others have been stopped or have ended,
and no two workers ever had the same number. -/
structure WellStaffed (f : Floor σ) : Prop where
  feed : ∀ slot, f.director.feed = some slot →
    (∃ feed ∈ f.feeds, feed.line.generation = slot.generation ∧ feed.setup = slot.setup) ∧
      f.director.context.project = some slot.setup.project ∧
      f.director.context.chain = some slot.setup.chain
  checkout : ∀ slot, f.director.checkout = some slot →
    (∃ c ∈ f.checkouts, c.line.generation = slot.generation ∧ c.setup = slot.setup) ∧
      f.director.context.project = some slot.setup.project ∧
      f.director.context.chain = some slot.setup.chain ∧
      f.director.context.wallet = some slot.setup.wallet ∧
      slot.setup.project.support = .supported slot.setup.kind
  otherFeeds : ∀ feed ∈ f.feeds, f.director.current .feed ≠ some feed.line.generation →
    feed.line.isStopped = true ∨ feed.exit?.isSome
  otherCheckouts : ∀ c ∈ f.checkouts, f.director.current .checkout ≠ some c.line.generation →
    c.line.isStopped = true ∨ c.hasEnded = true
  nodup : f.generations.Nodup

theorem Kept.wellStaffed (h : f.Kept) : f.WellStaffed where
  feed slot hslot := ⟨h.staffed.feed_placed slot hslot, h.orderly.sound.feed_setup slot hslot⟩
  checkout slot hslot :=
    ⟨h.staffed.checkout_placed slot hslot, h.orderly.sound.checkout_setup slot hslot⟩
  otherFeeds feed hfeed hother := (h.staffed.feed_dismissed feed hfeed).resolve_left hother
  otherCheckouts c hc hother := (h.staffed.checkout_dismissed c hc).resolve_left hother
  nodup := h.staffed.nodup

/-- Whatever happens and in whichever order, the floor is well staffed. -/
theorem run_wellStaffed (env : Environment σ) (start : Start) (interval : Nat) (isTracked : Bool)
    (world : σ) (acts : List (Act σ)) :
    ((initial start interval isTracked world).run env acts).WellStaffed :=
  (kept_run env start interval isTracked world acts).wellStaffed

end MintSale.Sale.Floor
