import MintSale.Proofs.Sale.Chronicle
import MintSale.Proofs.Sale.Staff

/-!
# Where live data comes from

The live data of a sale is what its feed has read last, with the chain client that is still there.
What another feed has read is thrown away, however late it arrives. The board always shows the live
data.
-/

namespace MintSale.Sale

/-! ## Readings -/

/-- Live data that a director takes from the feed that has its place, and that place. -/
def Director.reading? (d : Director) : Arrival → Option (FeedSlot × LiveSaleData)
  | .message ⟨.feed, generation, .liveData data⟩ =>
    d.feed.bind fun slot => if slot.generation = generation then some (slot, data) else none
  | _ => none

/-- Live data that the director takes at a moment, and the feed that it takes it from. -/
def Moment.reading? {σ : Type} (m : Moment σ) : Option (FeedSlot × LiveSaleData) :=
  match m.happening with
  | .received arrival _ => m.floor.director.reading? arrival
  | _ => none

namespace Director

variable {accounts : Accounts} {now : Timestamp} {d : Director}

/-- What becomes of the live data when a director takes something in. -/
inductive Learns (d : Director) (a : Arrival) (ctx : Context) : Prop where
  | keeps (hreading : d.reading? a = none) (hchain : ctx.chain = d.context.chain)
      (hlive : ctx.live = d.context.live)
  | drops (hreading : d.reading? a = none) (hlive : ctx.live = none)
  | reads (slot : FeedSlot) (data : LiveSaleData) (hreading : d.reading? a = some (slot, data))
      (hchain : ctx.chain = d.context.chain) (hlive : ctx.live = some data)

theorem takeEvent_learns (d : Director) {event : Event} (h : ∀ data, event ≠ .liveData data) :
    d.Learns (.event event) (d.takeEvent event).context := by
  cases event with
  | chainAvailable client =>
      rw [takeEvent]
      split
      · exact .keeps rfl rfl rfl
      · exact .drops rfl rfl
  | chainUnavailable => exact .drops rfl rfl
  | walletAvailable client =>
      rw [takeEvent]
      split
      · exact .keeps rfl rfl rfl
      · exact .keeps rfl (by simp) (by simp)
  | walletUnavailable => exact .keeps rfl (by simp [takeEvent]) (by simp [takeEvent])
  | liveData data => exact absurd rfl (h data)
  | error message => exact .keeps rfl rfl rfl
  | command command =>
      rw [takeEvent]
      split <;> exact .keeps rfl rfl rfl

theorem takeMessage_learns (d : Director) {m : Message} (h : m.IsProper) :
    d.Learns (.message m) (d.takeMessage m).context := by
  obtain ⟨role, generation, report⟩ := m
  rw [takeMessage]
  by_cases hcurrent : d.current role = some generation
  · rw [if_pos hcurrent]
    cases report with
    | liveData data =>
        cases role with
        | checkout => exact absurd h (by simp [Message.IsProper])
        | feed =>
            obtain ⟨slot, hslot, hgeneration⟩ := Option.map_eq_some_iff.mp hcurrent
            exact .reads slot data (by simp [reading?, hslot, hgeneration]) rfl rfl
    | failed message => cases role <;> exact .keeps rfl rfl rfl
    | purchaseState | submitted => cases role <;> exact .keeps rfl rfl rfl
  · rw [if_neg hcurrent]
    refine .keeps ?_ rfl rfl
    cases role <;> cases report <;> try rfl
    -- A message of a former feed is no reading.
    cases hfeed : d.feed <;> simp_all [reading?, current]

theorem receive_learns {a : Arrival} (ha : d.Admits a) (h : ∀ data, a ≠ .event (.liveData data)) :
    d.Learns a (d.receive a).context := by
  cases a with
  | project result =>
      rcases result with fault | project
      · cases fault <;> exact .keeps rfl rfl rfl
      · exact .keeps rfl rfl rfl
  | event event => exact d.takeEvent_learns fun data hdata => h data (by rw [hdata])
  | message m => exact d.takeMessage_learns ha

/-- Settling only adds to what is on record against the sale. -/
theorem Sound.settle_source (h : d.Sound) (accounts : Accounts) (now : Timestamp) :
    (d.settle accounts now).context.chain = d.context.chain ∧
      (d.settle accounts now).context.live = d.context.live := by
  have houtcome := h.settle_outcome accounts now
  generalize d.settle accounts now = d' at houtcome ⊢
  cases houtcome with
  | stays | ruledOut => exact ⟨rfl, rfl⟩
  | ready | failed | complete | unplugged | waiting => simp

theorem Learns.settle {a : Arrival} {d' : Director} (h : d.Learns a d'.context) (hd : d'.Sound)
    (accounts : Accounts) (now : Timestamp) : d.Learns a (d'.settle accounts now).context := by
  obtain ⟨hchain, hlive⟩ := hd.settle_source accounts now
  cases h with
  | keeps hreading hchain' hlive' =>
      exact .keeps hreading (hchain.trans hchain') (hlive.trans hlive')
  | drops hreading hlive' => exact .drops hreading (hlive.trans hlive')
  | reads slot data hreading hchain' hlive' =>
      exact .reads slot data hreading (hchain.trans hchain') (hlive.trans hlive')

theorem feed_of_reading? {a : Arrival} {slot : FeedSlot} {data : LiveSaleData}
    (h : d.reading? a = some (slot, data)) :
    d.feed = some slot ∧ a = .message ⟨.feed, slot.generation, .liveData data⟩ := by
  unfold reading? at h
  split at h
  · next generation data' =>
    obtain ⟨slot', hslot, hpair⟩ := Option.bind_eq_some_iff.mp h
    split at hpair
    · next hgeneration =>
      obtain ⟨rfl, rfl⟩ : slot' = slot ∧ data' = data := by simpa using hpair
      exact ⟨hslot, by rw [hgeneration]⟩
    · simp at hpair
  · simp at h

end Director

/-! ## The feed that sent a message -/

namespace Floor

variable {σ : Type} {env : Environment σ} {f g : Floor σ}

/-- Every message of a feed that waits has been sent by the feed whose number it has. -/
def Signed (log : List (Moment σ)) (f : Floor σ) : Prop :=
  ∀ message ∈ f.messages, message.role = .feed →
    ∃ m ∈ log, m.happening = .did .feed message.generation (.posted message)

theorem Signed.mono {log more : List (Moment σ)} (h : Signed log f)
    (hmessages : ∀ message ∈ g.messages, message ∈ f.messages) : Signed (log ++ more) g := by
  intro message hmessage hrole
  obtain ⟨m, hm, hposted⟩ := h message (hmessages message hmessage) hrole
  exact ⟨m, List.mem_append_left _ hm, hposted⟩

theorem Signed.feedTurn {log : List (Moment σ)} (h : Signed log f) (env : Environment σ)
    (generation : Nat) :
    Signed (log ++ f.moments env (.feed generation)) (f.feedTurn env generation) := by
  rcases feedTurn_cases env generation f with ⟨-, hsame⟩ | ⟨feed, -, hgeneration, hfound, hturn⟩
  · rw [hsame]
    exact h.mono fun _ => id
  · rw [hturn]
    intro message hmessage hrole
    rcases List.mem_append.mp hmessage with hold | hnew
    · exact h.mono (fun _ => id) message hold hrole
    · have hsender := ((feed.turn_keeps env f.clock f.world).reports message hnew).2.1
      refine ⟨⟨f, .did .feed generation (.posted message)⟩, List.mem_append_right _ ?_, ?_⟩
      · rw [moments, happenings_feed hfound, LiveFeed.deeds]
        simp [hnew]
      · rw [hsender, hgeneration]

/-- No checkout sends in the name of a feed. -/
theorem Signed.checkoutTurn {log : List (Moment σ)} (h : Signed log f) (hf : f.Orderly)
    (env : Environment σ) (generation : Nat) :
    Signed (log ++ f.moments env (.checkout generation)) (f.checkoutTurn env generation) := by
  rcases checkoutTurn_cases env generation f with ⟨-, hsame⟩ | ⟨c, hc, -, -, hturn⟩
  · rw [hsame]
    exact h.mono fun _ => id
  · rw [hturn]
    intro message hmessage hrole
    rcases List.mem_append.mp hmessage with hold | hnew
    · exact h.mono (fun _ => id) message hold hrole
    · have hsender := ((c.turn_keeps env f.price f.world).reports message hnew).1
      rw [hf.role_of_checkout c hc, hrole] at hsender
      simp at hsender

theorem Signed.act {log : List (Moment σ)} (h : Signed log f) (hf : f.Orderly)
    (env : Environment σ) (act : Act σ) : Signed (log ++ f.moments env act) (f.act env act) := by
  cases act with
  | director now =>
      refine h.mono fun message => ?_
      refine directorTurn_keeps (P := fun g => message ∈ g.messages → message ∈ f.messages) now
        id id ?_ ?_
      · intro a g hreach hmessage
        rw [hreach.messages]
        exact List.mem_append_right _ hmessage
      · rintro g d s - hg hmessage
        exact hg (by simpa [Floor.seat] using hmessage)
  | feed generation => exact h.feedTurn env generation
  | checkout generation => exact h.checkoutTurn hf env generation
  | post event =>
      refine h.mono fun message hmessage => ?_
      rw [Floor.act, post] at hmessage
      split at hmessage <;> exact hmessage
  | shutDown | wait | change => exact h.mono fun _ => id

/-! ## The source of live data -/

/-- Live data has been read by a feed: one that was on the floor, had its place when the director
took the reading and worked with the chain client that is there. That client has been there ever
since, and no other reading has been taken. -/
structure ReadBy (log : List (Moment σ)) (f : Floor σ) (slot : FeedSlot) (data : LiveSaleData) :
    Prop where
  chain_eq : f.director.context.chain = some slot.setup.chain
  latest : ∃ before reading after, log = before ++ reading :: after ∧
    reading.reading? = some (slot, data) ∧ (∀ m ∈ after, m.reading? = none) ∧
    (∀ m ∈ reading :: after, m.floor.director.context.chain = some slot.setup.chain) ∧
    (∃ feed ∈ reading.floor.feeds,
      feed.line.generation = slot.generation ∧ feed.setup = slot.setup) ∧
    ∃ m ∈ before, m.happening =
      .did .feed slot.generation (.posted ⟨.feed, slot.generation, .liveData data⟩)

/-- What is not a reading and leaves the chain client where it is changes nothing. -/
theorem ReadBy.extend {log : List (Moment σ)} {slot : FeedSlot} {data : LiveSaleData}
    (h : ReadBy log f slot data) {act : Act σ} (hnone : ∀ m ∈ f.moments env act, m.reading? = none)
    (hchain : g.director.context.chain = f.director.context.chain) :
    ReadBy (log ++ f.moments env act) g slot data := by
  obtain ⟨before, reading, after, rfl, hreading, hafter, hclient, hfeed, hposted⟩ := h.latest
  refine ⟨hchain.trans h.chain_eq, before, reading, after ++ f.moments env act, by simp, hreading,
    ?_, ?_, hfeed, hposted⟩
  · intro m hm
    exact (List.mem_append.mp hm).elim (hafter m) (hnone m)
  · intro m hm
    rcases List.mem_append.mp (by simpa using hm : m ∈ (reading :: after) ++ f.moments env act) with
      hm | hm
    · exact hclient m hm
    · rw [(happens_of_moment hm).1]
      exact h.chain_eq

theorem reading?_of_ne {act : Act σ} (h : ∀ now, act ≠ .director now) :
    ∀ m ∈ f.moments env act, m.reading? = none := by
  intro m hm
  unfold Moment.reading?
  split
  · next a now hreceived => exact absurd hreceived (not_received h hm a now)
  · rfl

theorem reading?_of_next {now : Timestamp} (hopen : f.isOpen = true) (hshut : f.isShutDown = false)
    {a : Option Arrival} (hnext : f.next env = (a, g))
    (h : ∀ arrival, a = some arrival → f.director.reading? arrival = none) :
    ∀ m ∈ f.moments env (.director now), m.reading? = none := by
  rw [moments, happenings_of_next hopen hshut hnext]
  intro m hm
  obtain ⟨happening, hmem, rfl⟩ := List.mem_map.mp hm
  rcases List.mem_append.mp hmem with hmem | hmem
  · obtain ⟨call, -, rfl⟩ := List.mem_map.mp hmem
    rfl
  · obtain ⟨arrival, harrival, rfl⟩ := Option.map_eq_some_iff.mp (Option.mem_toList.mp hmem)
    exact h arrival harrival

/-- The live data, if there is any, has been read by a feed. -/
def IsRead (log : List (Moment σ)) (f : Floor σ) : Prop :=
  ∀ data, f.director.context.live = some data → ∃ slot, ReadBy log f slot data

theorem IsRead.extend {log : List (Moment σ)} (h : IsRead log f) {act : Act σ}
    (hnone : ∀ m ∈ f.moments env act, m.reading? = none)
    (hkept : g.director.context = f.director.context) : IsRead (log ++ f.moments env act) g := by
  intro data hdata
  obtain ⟨slot, hread⟩ := h data (by rwa [hkept] at hdata)
  exact ⟨slot, hread.extend hnone (by rw [hkept])⟩

/-- The chronicle tells where the live data comes from, unless the host has brought its own. -/
structure Sourced (log : List (Moment σ)) (f : Floor σ) : Prop where
  kept : f.Kept
  signed : Signed log f
  isRead : (∀ m ∈ log, ∀ data now, m.happening ≠ .received (.event (.liveData data)) now) →
    IsRead log f

theorem sourced_initial (start : Start) (interval : Nat) (isTracked : Bool) (world : σ) :
    Sourced [] (initial start interval isTracked world) where
  kept := kept_initial start interval isTracked world
  signed := by simp [Signed, initial]
  isRead := by simp [IsRead, initial, Director.initial]

/-- The director has live data from a reading that it takes now, or from where it had it before. -/
theorem Sourced.took {log : List (Moment σ)} (h : Sourced log f) {now : Timestamp}
    (hopen : f.isOpen = true) (hshut : f.isShutDown = false) {a : Arrival} {f' : Floor σ}
    (hnext : f.next env = (some a, f')) (hlearns : f.director.Learns a g.director.context)
    (hread : IsRead log f) : IsRead (log ++ f.moments env (.director now)) g := by
  intro data hdata
  cases hlearns with
  | keeps hreading hchain hlive =>
      obtain ⟨slot, hread⟩ := hread data (hlive.symm.trans hdata)
      exact ⟨slot, hread.extend
        (reading?_of_next hopen hshut hnext fun _ ha => Option.some.inj ha ▸ hreading) hchain⟩
  | drops hreading hlive => simp [hlive] at hdata
  | reads slot data' hreading hchain hlive =>
      obtain rfl : data' = data := Option.some.inj (hlive.symm.trans hdata)
      obtain ⟨hslot, rfl⟩ := Director.feed_of_reading? hreading
      have hclient := (h.kept.orderly.sound.feed_setup slot hslot).2
      have hwaiting : ⟨.feed, slot.generation, .liveData data'⟩ ∈ f.messages := by
        simp [(next_reach hnext).messages, Arrival.message?]
      obtain ⟨m, hm, hposted⟩ := h.signed _ hwaiting rfl
      have hmoment : Moment.reading? ⟨f, .received (.message ⟨.feed, slot.generation,
          .liveData data'⟩) now⟩ = some (slot, data') := hreading
      refine ⟨slot, hchain.trans hclient, log ++ (f.inquiries env).map fun call =>
        ⟨f, .inquired call⟩, _, [], ?_, hmoment, by simp, by simpa using hclient,
        h.kept.staffed.feed_placed slot hslot, m, List.mem_append_left _ hm, hposted⟩
      simp [moments, happenings_of_next hopen hshut hnext]

theorem Sourced.directorTurn {log : List (Moment σ)} (h : Sourced log f) (env : Environment σ)
    (now : Timestamp) (hread : IsRead log f)
    (hhost : ∀ m ∈ f.moments env (.director now), ∀ data now',
      m.happening ≠ .received (.event (.liveData data)) now') :
    IsRead (log ++ f.moments env (.director now)) (f.directorTurn env now).2.2 := by
  have hturned := directorTurn_turned env now f
  generalize (f.directorTurn env now).2.2 = g at hturned ⊢
  cases hturned with
  | closed hopen =>
      exact hread.extend (by simp [moments, happenings_of_closed (.inl hopen)]) rfl
  | shut hopen hshut =>
      refine hread.extend (by simp [moments, happenings_of_closed (.inr hshut)]) ?_
      simp [Floor.seat, giveUp, Director.dispose]
  | waits hopen hshut hnext =>
      refine hread.extend (reading?_of_next hopen hshut hnext (by simp)) ?_
      rw [(next_reach hnext).spared.director_eq]
  | @took a g hopen hshut hnext =>
      have hreach := next_reach hnext
      obtain ⟨hg, hadmits⟩ := h.kept.orderly.reach hreach
      have hsound := hg.sound.receive hadmits
      rw [hreach.spared.director_eq] at hadmits hsound
      have hbrought : ∀ data, a ≠ .event (.liveData data) := by
        rintro data rfl
        refine hhost ⟨f, .received _ now⟩ ?_ data now rfl
        simp [moments, happenings_of_next hopen hshut hnext]
      have hlearns := (Director.receive_learns hadmits hbrought).settle hsound
        (env.account g.world) now
      refine h.took hopen hshut hnext ?_ hread
      simpa [reached, Floor.seat, hreach.spared.director_eq] using hlearns

theorem Sourced.act {log : List (Moment σ)} (h : Sourced log f) (env : Environment σ)
    (act : Act σ) : Sourced (log ++ f.moments env act) (f.act env act) where
  kept := h.kept.act env act
  signed := h.signed.act h.kept.orderly env act
  isRead := by
    intro hhost
    have hread := h.isRead fun m hm => hhost m (List.mem_append_left _ hm)
    by_cases hdirector : ∃ now, act = .director now
    · obtain ⟨now, rfl⟩ := hdirector
      exact h.directorTurn env now hread fun m hm => hhost m (List.mem_append_right _ hm)
    · have hother : ∀ now, act ≠ .director now := by simpa using hdirector
      exact hread.extend (reading?_of_ne hother) (by rw [(act_unmoved hother f).director_eq])

/-! ## Every run -/

/-- The board shows just the live data of the sale. If the host has brought none of its own, the
live data is what a feed has read last, with the chain client that is there and has been since. -/
theorem run_liveData (env : Environment σ) (start : Start) (interval : Nat) (isTracked : Bool)
    (world : σ) (acts : List (Act σ)) :
    (((initial start interval isTracked world).run env acts).director.board =
        ((initial start interval isTracked world).run env acts).director.context.live ∧
      ((initial start interval isTracked world).run env acts).price =
        ((initial start interval isTracked world).run env acts).director.context.live.map
          (·.price)) ∧
    ((∀ data, .post (.liveData data) ∉ acts) →
      ∀ data, ((initial start interval isTracked world).run env acts).director.context.live =
          some data →
        ∃ slot, ReadBy ((initial start interval isTracked world).chronicle env acts)
          ((initial start interval isTracked world).run env acts) slot data) := by
  have hsourced : Sourced _ _ := chronicle_invariant env (fun _ _ act hlog => hlog.act env act)
    (sourced_initial start interval isTracked world) acts
  have hboard := hsourced.kept.orderly.sound.board_eq
  refine ⟨⟨hboard, by rw [price, hboard]⟩, fun hnone => hsourced.isRead ?_⟩
  intro m hm data now hevent
  exact (event_of_chronicle hm hevent).elim (by simp [initial]) (hnone data)

end Floor

/-- In the small sale the live data is what the first feed has read. -/
theorem Floor.run_liveData_opening :
    ∃ slot, Floor.ReadBy (Sample.floor.chronicle Sample.environment Sample.opening)
      (Sample.floor.run Sample.environment Sample.opening) slot
      (.ofReads ⟨true, .ofUInt64 100⟩ ⟨10, 100, true, false, none⟩) :=
  (run_liveData _ _ _ _ _ Sample.opening).2 (by simp [Sample.opening]) _ (by decide +kernel)

end MintSale.Sale
