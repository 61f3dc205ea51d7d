import Mathlib.Data.List.Basic
import MintSale.Proofs.Checkout.Deeds
import MintSale.Proofs.History
import MintSale.Proofs.LiveFeed
import MintSale.Proofs.Sale.Floor

/-!
# The chronicle of a run

A run is told as a list of moments: what happens, and the floor just before the act that it is part
of. The chronicle tells all calls, which messages arrive and which of them the director takes.
-/

namespace MintSale

/-- What a feed does in a turn. -/
def LiveFeed.deeds {σ : Type} (env : Environment σ) (now : Nat) (feed : LiveFeed) (world : σ) :
    List Deed :=
  (feed.turn env now world).2.2.1.map .asked ++ (feed.turn env now world).2.1.map .posted

namespace Sale

/-- Something that happens on the floor. -/
inductive Happening where
  /-- The director asks for the project. -/
  | inquired (call : Call)
  /-- Something reaches the director, which then settles at a time. -/
  | received (arrival : Arrival) (now : Timestamp)
  /-- The worker with a number does something. -/
  | did (role : Role) (generation : Nat) (deed : Deed)

namespace Happening

/-- The call that is asked. -/
def call? : Happening → Option Call
  | .inquired call => some call
  | .received .. => none
  | .did _ _ deed => deed.call?

/-- The message that arrives at the sale. -/
def posted? : Happening → Option Message
  | .did _ _ deed => deed.message?
  | _ => none

/-- The message that the director takes. -/
def taken? : Happening → Option Message
  | .received arrival _ => arrival.message?
  | _ => none

/-- What the checkout with a number does. -/
def deed? (generation : Nat) : Happening → Option Deed
  | .did .checkout n deed => if n = generation then some deed else none
  | _ => none

theorem eq_of_deed? {generation : Nat} {happening : Happening} {deed : Deed}
    (h : happening.deed? generation = some deed) :
    happening = .did .checkout generation deed := by
  unfold deed? at h
  split at h
  · split at h
    · next hn => rw [hn, Option.some.inj h]
    · simp at h
  · simp at h

end Happening

/-- A happening and the floor before the act that it is part of. -/
structure Moment (σ : Type) where
  floor : Floor σ
  happening : Happening

/-- What the director knows when it settles, and the time. -/
def Moment.settling? {σ : Type} (m : Moment σ) : Option (Context × Timestamp) :=
  match m.happening with
  | .received arrival now => some ((m.floor.director.receive arrival).context, now)
  | _ => none

namespace Floor

variable {σ : Type} (env : Environment σ)

/-- What happens in an act. -/
def happenings (f : Floor σ) : Act σ → List Happening
  | .director now =>
    if f.isOpen && !f.isShutDown then
      (f.inquiries env).map .inquired ++ ((f.next env).1.map (.received · now)).toList
    else []
  | .feed generation =>
    match f.feed? generation with
    | none => []
    | some feed => (feed.deeds env f.clock f.world).map (.did .feed generation)
  | .checkout generation =>
    match f.checkout? generation with
    | none => []
    | some checkout => (checkout.deeds env f.price f.world).map (.did .checkout generation)
  | _ => []

/-- The moments of an act. -/
def moments (f : Floor σ) (act : Act σ) : List (Moment σ) :=
  (f.happenings env act).map (⟨f, ·⟩)

/-- The moments of a run. -/
def chronicle (f : Floor σ) : List (Act σ) → List (Moment σ)
  | [] => []
  | act :: acts => f.moments env act ++ chronicle (f.act env act) acts

end Floor

/-! ## Reading a chronicle -/

section Reading

variable {σ : Type}

/-- All calls that a chronicle tells. -/
def callsIn (log : List (Moment σ)) : List Call :=
  log.filterMap (·.happening.call?)

/-- The messages that arrive. -/
def postedIn (log : List (Moment σ)) : List Message :=
  log.filterMap (·.happening.posted?)

/-- The messages that the director takes. -/
def takenIn (log : List (Moment σ)) : List Message :=
  log.filterMap (·.happening.taken?)

/-- The deeds of the checkout with a number. -/
def deedsIn (generation : Nat) (log : List (Moment σ)) : List Deed :=
  log.filterMap (·.happening.deed? generation)

/-- What the director knew when it settled last, and the time. -/
def lastSettling (log : List (Moment σ)) : Option (Context × Timestamp) :=
  (log.filterMap Moment.settling?).getLast?

end Reading

namespace Floor

variable {σ : Type} {env : Environment σ} {f g : Floor σ}

theorem chronicle_eq (f : Floor σ) (acts : List (Act σ)) :
    f.chronicle env acts = f.telling env (moments env) acts := by
  induction acts generalizing f with
  | nil => rfl
  | cons act acts ih => rw [chronicle, telling, ih]

/-- What holds of a chronicle and the floor after it, and is preserved by every act, holds of a
run. -/
theorem chronicle_invariant (env : Environment σ) {P : List (Moment σ) → Floor σ → Prop}
    (hact : ∀ log f act, P log f → P (log ++ f.moments env act) (f.act env act))
    (h : P [] f) (acts : List (Act σ)) : P (f.chronicle env acts) (f.run env acts) := by
  rw [chronicle_eq]
  exact telling_invariant env (moments env) hact h acts

/-- The chronicle of a run in two parts. -/
theorem chronicle_append (f : Floor σ) (first second : List (Act σ)) :
    f.chronicle env (first ++ second) =
      f.chronicle env first ++ (f.run env first).chronicle env second := by
  induction first generalizing f with
  | nil => rfl
  | cons act first ih => simp [chronicle, run, ih, List.append_assoc]

/-- Every moment of a run is one of an act. -/
theorem moment_of_chronicle {acts : List (Act σ)} {m : Moment σ} (h : m ∈ f.chronicle env acts) :
    ∃ before act after, acts = before ++ act :: after ∧
      m ∈ (f.run env before).moments env act := by
  induction acts generalizing f with
  | nil => simp [chronicle] at h
  | cons act acts ih =>
      rcases List.mem_append.mp h with h | h
      · exact ⟨[], act, acts, rfl, h⟩
      · obtain ⟨before, later, after, rfl, hm⟩ := ih h
        exact ⟨act :: before, later, after, rfl, hm⟩

/-! ## What happens in a turn -/

theorem happenings_of_closed {now : Timestamp} (h : f.isOpen = false ∨ f.isShutDown = true) :
    f.happenings env (.director now) = [] := by
  rcases h with h | h <;> simp [happenings, h]

theorem happenings_of_next {now : Timestamp} (hopen : f.isOpen = true)
    (hshut : f.isShutDown = false) {a : Option Arrival} (hnext : f.next env = (a, g)) :
    f.happenings env (.director now) =
      (f.inquiries env).map .inquired ++ (a.map (.received · now)).toList := by
  simp [happenings, hopen, hshut, hnext]

theorem happenings_feed {generation : Nat} {feed : LiveFeed}
    (h : f.feed? generation = some feed) :
    f.happenings env (.feed generation) =
      (feed.deeds env f.clock f.world).map (.did .feed generation) := by
  simp [happenings, h]

theorem happenings_checkout {generation : Nat} {checkout : Checkout}
    (h : f.checkout? generation = some checkout) :
    f.happenings env (.checkout generation) =
      (checkout.deeds env f.price f.world).map (.did .checkout generation) := by
  simp [happenings, h]

/-- The ways in which something happens in an act. -/
inductive Happens (env : Environment σ) (f : Floor σ) : Act σ → Happening → Prop where
  | inquired {now : Timestamp} {call : Call} (hcall : call ∈ f.inquiries env) :
      Happens env f (.director now) (.inquired call)
  | received (now : Timestamp) (arrival : Arrival) :
      Happens env f (.director now) (.received arrival now)
  | feed {generation : Nat} {feed : LiveFeed} {deed : Deed} (hfeed : feed ∈ f.feeds)
      (hdeed : deed ∈ feed.deeds env f.clock f.world) :
      Happens env f (.feed generation) (.did .feed generation deed)
  | checkout {generation : Nat} {c : Checkout} {deed : Deed}
      (hfound : f.checkout? generation = some c) (hdeed : deed ∈ c.deeds env f.price f.world) :
      Happens env f (.checkout generation) (.did .checkout generation deed)

theorem happens_of_mem {act : Act σ} {happening : Happening}
    (h : happening ∈ f.happenings env act) : Happens env f act happening := by
  cases act with
  | director now =>
      rw [happenings] at h
      split at h
      · rcases List.mem_append.mp h with h | h
        · obtain ⟨call, hcall, rfl⟩ := List.mem_map.mp h
          exact .inquired hcall
        · obtain ⟨arrival, -, rfl⟩ := Option.map_eq_some_iff.mp (Option.mem_toList.mp h)
          exact .received now arrival
      · simp at h
  | feed generation =>
      rcases feedTurn_cases env generation f with ⟨hnone, -⟩ | ⟨feed, hfeed, -, hfound, -⟩
      · simp [happenings, hnone] at h
      · rw [happenings_feed hfound] at h
        obtain ⟨deed, hdeed, rfl⟩ := List.mem_map.mp h
        exact .feed hfeed hdeed
  | checkout generation =>
      rcases checkoutTurn_cases env generation f with ⟨hnone, -⟩ | ⟨c, -, -, hfound, -⟩
      · simp [happenings, hnone] at h
      · rw [happenings_checkout hfound] at h
        obtain ⟨deed, hdeed, rfl⟩ := List.mem_map.mp h
        exact .checkout hfound hdeed
  | post | shutDown | wait | change => simp [happenings] at h

theorem happens_of_moment {act : Act σ} {m : Moment σ} (h : m ∈ f.moments env act) :
    m.floor = f ∧ Happens env f act m.happening := by
  obtain ⟨happening, hmem, rfl⟩ := List.mem_map.mp h
  exact ⟨rfl, happens_of_mem hmem⟩

/-- Only the director takes anything in. -/
theorem not_received {act : Act σ} (h : ∀ now, act ≠ .director now) {m : Moment σ}
    (hm : m ∈ f.moments env act) (a : Arrival) (now : Timestamp) :
    m.happening ≠ .received a now := by
  intro hreceived
  obtain ⟨-, hhappens⟩ := happens_of_moment hm
  rw [hreceived] at hhappens
  cases hhappens with
  | received => exact h now rfl

theorem filterMap_moments {β : Type} (excerpt : Happening → Option β) (f : Floor σ) (act : Act σ) :
    (f.moments env act).filterMap (fun m => excerpt m.happening) =
      (f.happenings env act).filterMap excerpt := by
  simp [moments, List.filterMap_map]

theorem postedIn_append (first second : List (Moment σ)) :
    postedIn (first ++ second) = postedIn first ++ postedIn second :=
  List.filterMap_append

theorem takenIn_append (first second : List (Moment σ)) :
    takenIn (first ++ second) = takenIn first ++ takenIn second :=
  List.filterMap_append

theorem deedsIn_append (generation : Nat) (first second : List (Moment σ)) :
    deedsIn generation (first ++ second) = deedsIn generation first ++ deedsIn generation second :=
  List.filterMap_append

/-- Only the turn of a checkout tells what it does. -/
theorem deedsIn_moments_of_ne {generation : Nat} {act : Act σ} (h : act ≠ .checkout generation)
    (f : Floor σ) : deedsIn generation (f.moments env act) = [] := by
  refine List.filterMap_eq_nil_iff.mpr fun m hm => ?_
  obtain ⟨-, hhappens⟩ := happens_of_moment hm
  generalize m.happening = happening at hhappens ⊢
  cases hhappens with
  | inquired | received | feed => rfl
  | @checkout n c deed hfound hdeed =>
      have hother : n ≠ generation := fun hsame => h (by rw [hsame])
      simp [Happening.deed?, hother]

theorem deedsIn_moments_checkout {generation : Nat} {c : Checkout}
    (h : f.checkout? generation = some c) :
    deedsIn generation (f.moments env (.checkout generation)) = c.deeds env f.price f.world := by
  rw [deedsIn, filterMap_moments, happenings_checkout h]
  simp [List.filterMap_map, Function.comp_def, Happening.deed?]

/-- Nobody but a checkout has anything to report other than live data and failures. -/
theorem report_of_posted {act : Act σ} (h : ∀ generation, act ≠ .checkout generation)
    {m : Message} (hm : m ∈ postedIn (f.moments env act)) :
    (∃ data, m.report = .liveData data) ∨ ∃ text, m.report = .failed text := by
  obtain ⟨moment, hmoment, hposted⟩ := List.mem_filterMap.mp hm
  obtain ⟨-, hhappens⟩ := happens_of_moment hmoment
  generalize moment.happening = happening at hhappens hposted
  cases hhappens with
  | inquired | received => simp [Happening.posted?] at hposted
  | checkout => exact absurd rfl (h _)
  | @feed generation feed deed hfeed hdeed =>
      rcases List.mem_append.mp hdeed with hdeed | hdeed
      · obtain ⟨call, -, rfl⟩ := List.mem_map.mp hdeed
        simp [Happening.posted?, Deed.message?] at hposted
      · obtain ⟨message, hmessage, rfl⟩ := List.mem_map.mp hdeed
        obtain rfl : message = m := by simpa [Happening.posted?, Deed.message?] using hposted
        obtain ⟨-, -, hdata | ⟨hfailed, -⟩⟩ :=
          (feed.turn_keeps env f.clock f.world).reports message hmessage
        · exact .inl hdata
        · exact .inr hfailed

/-- What arrives in the turn of a checkout is what it reports. -/
theorem postedIn_moments_checkout {generation : Nat} {c : Checkout}
    (h : f.checkout? generation = some c) :
    postedIn (f.moments env (.checkout generation)) = (c.turn env f.price f.world).2.1 := by
  rw [postedIn, filterMap_moments, happenings_checkout h, ← (c.deeds_tell env f.price f.world).1]
  simp [List.filterMap_map, Function.comp_def, Happening.posted?]

/-! ## Events -/

/-- An event waits for the director since before an act, or is sent in it. -/
theorem event_of_act {act : Act σ} {event : Event} (h : event ∈ (f.act env act).events) :
    event ∈ f.events ∨ act = .post event := by
  cases act with
  | director now =>
      refine .inl (directorTurn_keeps (P := fun g => event ∈ g.events → event ∈ f.events) now
        id id ?_ ?_ h)
      · intro a g hreach hevent
        rw [hreach.events]
        exact List.mem_append_right _ hevent
      · rintro g d s - hg hevent
        exact hg (by simpa [seat] using hevent)
  | feed generation =>
      rcases feedTurn_cases env generation f with ⟨-, hsame⟩ | ⟨feed, -, -, -, hturn⟩
      · exact .inl (by simpa [Floor.act, hsame] using h)
      · exact .inl (by simpa [Floor.act, hturn, mapFeed] using h)
  | checkout generation =>
      rcases checkoutTurn_cases env generation f with ⟨-, hsame⟩ | ⟨c, -, -, -, hturn⟩
      · exact .inl (by simpa [Floor.act, hsame] using h)
      · exact .inl (by simpa [Floor.act, hturn, mapCheckout] using h)
  | post sent =>
      rw [Floor.act, post] at h
      split at h
      · rcases List.mem_append.mp h with h | h
        · exact .inl h
        · exact .inr (by rw [List.mem_singleton.mp h])
      · exact .inl h
  | shutDown | wait | change => exact .inl h

/-- What the director takes in has reached it. -/
theorem reach_of_moment {act : Act σ} {m : Moment σ} (h : m ∈ f.moments env act)
    {arrival : Arrival} {now : Timestamp} (hreceived : m.happening = .received arrival now) :
    ∃ g, Reach env f (some arrival) g := by
  obtain ⟨happening, hmem, rfl⟩ := List.mem_map.mp h
  subst hreceived
  obtain ⟨-, hhappens⟩ := happens_of_moment h
  cases hhappens with
  | received =>
      rw [happenings] at hmem
      split at hmem
      · rcases hnext : f.next env with ⟨a, g⟩
        obtain rfl : a = some arrival := by simpa [hnext] using hmem
        exact ⟨g, next_reach hnext⟩
      · simp at hmem

theorem event_of_moment {act : Act σ} {m : Moment σ} (h : m ∈ f.moments env act) {event : Event}
    {now : Timestamp} (hevent : m.happening = .received (.event event) now) :
    event ∈ f.events := by
  obtain ⟨g, hreach⟩ := reach_of_moment h hevent
  simp [hreach.events, Arrival.event?]

/-- Every event that reaches the director has been sent by the host. -/
theorem event_of_chronicle {acts : List (Act σ)} {m : Moment σ} (h : m ∈ f.chronicle env acts)
    {event : Event} {now : Timestamp} (hevent : m.happening = .received (.event event) now) :
    event ∈ f.events ∨ .post event ∈ acts := by
  induction acts generalizing f with
  | nil => simp [chronicle] at h
  | cons act acts ih =>
      rcases List.mem_append.mp h with h | h
      · exact .inl (event_of_moment h hevent)
      · rcases ih h with hwaiting | hsent
        · rcases event_of_act hwaiting with hbefore | rfl
          · exact .inl hbefore
          · exact .inr List.mem_cons_self
        · exact .inr (List.mem_cons_of_mem act hsent)

/-! ## Calls and messages -/

theorem act_asked (f : Floor σ) (act : Act σ) :
    (f.act env act).asked = f.asked ++ callsIn (f.moments env act) := by
  rw [callsIn, filterMap_moments]
  cases act with
  | director now =>
      have hturned := directorTurn_turned env now f
      change (f.directorTurn env now).2.2.asked = _
      generalize (f.directorTurn env now).2.2 = g at hturned ⊢
      cases hturned with
      | closed hopen => simp [happenings_of_closed (.inl hopen)]
      | shut hopen hshut => simp [happenings_of_closed (.inr hshut), seat, giveUp]
      | waits hopen hshut hnext =>
          rw [happenings_of_next hopen hshut hnext, (next_reach hnext).asked]
          simp [Function.comp_def, Happening.call?]
      | took hopen hshut hnext =>
          rw [happenings_of_next hopen hshut hnext, reached, seat, enact_asked]
          simp [(next_reach hnext).asked, Function.comp_def, Happening.call?]
  | feed generation =>
      rcases feedTurn_cases env generation f with ⟨hnone, hsame⟩ | ⟨feed, -, -, hfeed, hturn⟩
      · simp [happenings, hnone, Floor.act, hsame]
      · rw [happenings_feed hfeed, Floor.act, hturn]
        simp [LiveFeed.deeds, Function.comp_def, Happening.call?, Deed.call?]
  | checkout generation =>
      rcases checkoutTurn_cases env generation f with ⟨hnone, hsame⟩ | ⟨c, -, -, hc, hturn⟩
      · simp [happenings, hnone, Floor.act, hsame]
      · rw [happenings_checkout hc, Floor.act, hturn, ← (c.deeds_tell env f.price f.world).2]
        simp [List.filterMap_map, Function.comp_def, Happening.call?]
  | post event =>
      rw [Floor.act, post]
      split <;> simp [happenings]
  | shutDown | wait | change => simp [happenings, Floor.act, Floor.shutDown, wait, change]

/-- Every message that arrives is taken in order or waits still. -/
theorem act_messages (f : Floor σ) (act : Act σ) :
    f.messages ++ postedIn (f.moments env act) =
      takenIn (f.moments env act) ++ (f.act env act).messages := by
  rw [postedIn, takenIn, filterMap_moments, filterMap_moments]
  cases act with
  | director now =>
      have hturned := directorTurn_turned env now f
      change _ = _ ++ (f.directorTurn env now).2.2.messages
      generalize (f.directorTurn env now).2.2 = g at hturned ⊢
      cases hturned with
      | closed hopen => simp [happenings_of_closed (.inl hopen)]
      | shut hopen hshut => simp [happenings_of_closed (.inr hshut), seat, giveUp]
      | waits hopen hshut hnext =>
          rw [happenings_of_next hopen hshut hnext, (next_reach hnext).messages]
          simp [Function.comp_def, Happening.posted?, Happening.taken?]
      | @took a g hopen hshut hnext =>
          rw [happenings_of_next hopen hshut hnext, reached, seat, enact_messages,
            (next_reach hnext).messages]
          cases a <;>
            simp [Function.comp_def, List.filterMap_cons, Happening.posted?, Happening.taken?,
              Arrival.message?]
  | feed generation =>
      rcases feedTurn_cases env generation f with ⟨hnone, hsame⟩ | ⟨feed, -, -, hfeed, hturn⟩
      · simp [happenings, hnone, Floor.act, hsame]
      · rw [happenings_feed hfeed, Floor.act, hturn]
        simp [LiveFeed.deeds, Function.comp_def, Happening.posted?, Happening.taken?, Deed.message?]
  | checkout generation =>
      rcases checkoutTurn_cases env generation f with ⟨hnone, hsame⟩ | ⟨c, -, -, hc, hturn⟩
      · simp [happenings, hnone, Floor.act, hsame]
      · rw [happenings_checkout hc, Floor.act, hturn, ← (c.deeds_tell env f.price f.world).1]
        simp [List.filterMap_map, Function.comp_def, Happening.posted?, Happening.taken?]
  | post event =>
      rw [Floor.act, post]
      split <;> simp [happenings]
  | shutDown | wait | change => simp [happenings, Floor.act, Floor.shutDown, wait, change]

/-- A chronicle tells all calls. -/
theorem run_asked (f : Floor σ) (acts : List (Act σ)) :
    (f.run env acts).asked = f.asked ++ callsIn (f.chronicle env acts) := by
  refine chronicle_invariant env (P := fun log g => g.asked = f.asked ++ callsIn log) ?_ ?_ acts
  · intro log g act hlog
    rw [act_asked, hlog, callsIn, callsIn, callsIn, List.filterMap_append, List.append_assoc]
  · simp [callsIn]

/-- A chronicle tells all messages that have arrived, the taken ones first. -/
theorem run_messages (f : Floor σ) (acts : List (Act σ)) :
    f.messages ++ postedIn (f.chronicle env acts) =
      takenIn (f.chronicle env acts) ++ (f.run env acts).messages := by
  refine chronicle_invariant env
    (P := fun log g => f.messages ++ postedIn log = takenIn log ++ g.messages) ?_ ?_ acts
  · intro log g act hlog
    calc f.messages ++ postedIn (log ++ g.moments env act)
        = (f.messages ++ postedIn log) ++ postedIn (g.moments env act) := by simp [postedIn]
      _ = takenIn log ++ (g.messages ++ postedIn (g.moments env act)) := by simp [hlog]
      _ = takenIn log ++ (takenIn (g.moments env act) ++ (g.act env act).messages) := by
          rw [act_messages]
      _ = takenIn (log ++ g.moments env act) ++ (g.act env act).messages := by simp [takenIn]
  · simp [postedIn, takenIn]

end Floor

end Sale

end MintSale
