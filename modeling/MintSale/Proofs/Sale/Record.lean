import MintSale.Proofs.Checkout.Approval
import MintSale.Proofs.Sale.Chronicle
import MintSale.Proofs.Sale.Files

/-!
# What is on record

A chronicle has on record all that checkouts do and when the director settles. The floor after a run
is as one expects by that record.
-/

namespace MintSale.Sale.Floor

variable {σ : Type} {env : Environment σ} {accounts : Accounts} {f g : Floor σ}
  {log : List (Moment σ)}

/-! ## Those who never send -/

/-- The director and the feeds let no wallet send anything. -/
structure Harmless (f : Floor σ) : Prop where
  fetches : ∀ job, f.metadata = some job → job.Within (¬ ·.IsSend) fun _ => True
  reads : ∀ feed ∈ f.feeds, feed.OnlyReads

theorem metadataProgram_within (start : Start) :
    (metadataProgram start).Within (¬ ·.IsSend) fun _ => True := by
  unfold metadataProgram
  split
  · trivial
  · trivial
  · refine (Program.within_bind _ _ _ _).mpr ((Program.within_attempt _ _ _).mpr ?_)
    refine (Program.within_call _ _ _).mpr ⟨id, ?_⟩
    rintro (fault | project)
    · cases fault with
      | projectNotFound missing => trivial
      | _ =>
          -- Any other fault leaves the project on record, if it is the one.
          simp only [Program.andThen]
          split
          · split <;> trivial
          · trivial
    · trivial

theorem harmless_initial (start : Start) (interval : Nat) (isTracked : Bool) (world : σ) :
    (initial start interval isTracked world).Harmless where
  fetches := by
    rintro job ⟨⟩
    exact metadataProgram_within start
  reads := by simp [initial]

theorem Harmless.inquiries (h : f.Harmless) (env : Environment σ) :
    ∀ call ∈ f.inquiries env, ¬ call.IsSend := by
  unfold Floor.inquiries
  cases hmetadata : f.metadata with
  | none => simp
  | some job => exact ((h.fetches job hmetadata).resume env f.world).2

theorem Harmless.reach (h : f.Harmless) {a : Option Arrival} (hreach : Reach env f a g) :
    g.Harmless := by
  have hfetch : ∀ job, (f.fetch env).2.metadata = some job →
      job.Within (¬ ·.IsSend) fun _ => True := by
    unfold fetch
    cases hmetadata : f.metadata with
    | none => simp [hmetadata]
    | some job =>
        obtain ⟨hnext, -⟩ := (h.fetches job hmetadata).resume env f.world
        rcases hjob : job.resume env f.world with ⟨result | next, asked, world⟩
        · simp [hjob]
        · simpa [hjob, Progress.Within] using hnext
  refine ⟨?_, by simpa [hreach.spared.feeds_eq] using h.reads⟩
  cases hreach with
  | project hf | event hf _ | message hf _ | nothing hf => simpa [hf] using hfetch

theorem Harmless.seat (h : f.Harmless) (d : Director) (s : Snapshot) : (f.seat d s).Harmless where
  fetches := by simpa [Floor.seat] using h.fetches
  reads := by
    rw [Floor.seat]
    refine enact_feeds (LiveFeed.onlyReads_fresh) (fun _ hreads => hreads) ?_ d.outbox
    exact h.reads

theorem Harmless.act (h : f.Harmless) (env : Environment σ) (act : Act σ) :
    (f.act env act).Harmless := by
  cases act with
  | director now =>
      have hgone : (f.giveUp env).Harmless := { h with fetches := by simp [giveUp] }
      exact directorTurn_keeps now h hgone (fun hreach => h.reach hreach)
        fun d s _ hg => hg.seat d s
  | feed generation =>
      rcases feedTurn_cases env generation f with ⟨-, hsame⟩ | ⟨feed, hfeed, -, -, hturn⟩
      · rwa [Floor.act, hsame]
      · rw [Floor.act, hturn]
        refine { h with reads := forall_mapFeed h.reads fun _ _ _ => ?_ }
        exact (feed.turn_onlyReads env f.clock (h.reads feed hfeed) f.world).1
  | checkout generation =>
      rcases checkoutTurn_cases env generation f with ⟨-, hsame⟩ | ⟨c, -, -, -, hturn⟩
      · rwa [Floor.act, hsame]
      · rw [Floor.act, hturn]
        exact { h with }
  | post event =>
      rw [Floor.act, post]
      split
      · exact { h with }
      · exact h
  | shutDown =>
      refine { h with reads := ?_ }
      intro feed hfeed
      obtain ⟨old, hold, rfl⟩ := List.mem_map.mp hfeed
      exact h.reads old hold
  | wait milliseconds => exact { h with }
  | change event => exact { h with }

/-- Only checkouts let a wallet send something. -/
theorem Harmless.sender (h : f.Harmless) {act : Act σ} {m : Moment σ} (hm : m ∈ f.moments env act)
    {call : Call} (hcall : m.happening.call? = some call) (hsend : call.IsSend) :
    ∃ generation c, act = .checkout generation ∧ f.checkout? generation = some c := by
  obtain ⟨-, hhappens⟩ := happens_of_moment hm
  generalize m.happening = happening at hhappens hcall
  cases hhappens with
  | inquired hasked =>
      obtain rfl := Option.some.inj hcall
      exact absurd hsend (h.inquiries env _ hasked)
  | received now arrival => simp [Happening.call?] at hcall
  | @feed n feed deed hfeed hdeed =>
      rcases List.mem_append.mp hdeed with hdeed | hdeed
      · obtain ⟨asked, hasked, rfl⟩ := List.mem_map.mp hdeed
        obtain rfl := Option.some.inj hcall
        have honly := (feed.turn_onlyReads env f.clock (h.reads feed hfeed) f.world).2
        exact absurd hsend (honly _ hasked)
      · obtain ⟨message, -, rfl⟩ := List.mem_map.mp hdeed
        simp [Happening.call?, Deed.call?] at hcall
  | @checkout n c deed hfound hdeed => exact ⟨n, c, rfl, hfound⟩

/-! ## What is on record of a checkout -/

/-- The checkouts are as one expects by what they have done, and one that is still to come has done
nothing. -/
structure Recorded (accounts : Accounts) (log : List (Moment σ)) (f : Floor σ) : Prop where
  consistent : ∀ c ∈ f.checkouts, Checkout.Consistent accounts (deedsIn c.line.generation log) c
  unheard : ∀ n, n ∉ f.numbers → deedsIn n log = []

theorem recorded_initial (accounts : Accounts) (start : Start) (interval : Nat) (isTracked : Bool)
    (world : σ) : Recorded accounts [] (initial start interval isTracked world) where
  consistent := by simp [initial]
  unheard := by simp [deedsIn]

/-- Every turn of a checkout adds what it does to what is on record of it. -/
theorem consistent_keeping (haccounts : ∀ world, env.account world = accounts) :
    Keeping env (Checkout.Consistent accounts) fun price c world => c.deeds env price world where
  fresh := Checkout.consistent_fresh accounts
  tell _ h := { h with }
  stop h := { h with }
  turn price world h := h.turn haccounts price world

theorem deedsIn_moments (f : Floor σ) (act : Act σ) (n : Nat) :
    deedsIn n (f.moments env act) =
      f.additions (fun price c world => c.deeds env price world) act n := by
  by_cases hact : act = .checkout n
  · subst hact
    cases hfound : f.checkout? n with
    | none => simp [deedsIn, moments, happenings, additions, hfound]
    | some c => simp [deedsIn_moments_checkout hfound, additions, hfound]
  · rw [deedsIn_moments_of_ne hact]
    cases act with
    | checkout generation =>
        have hne : generation ≠ n := fun hsame => hact (by rw [hsame])
        simp [additions, hne]
    | director | feed | post | shutDown | wait | change => rfl

theorem Recorded.act (haccounts : ∀ world, env.account world = accounts)
    (h : Recorded accounts log f) (act : Act σ) (hnodup : (f.act env act).generations.Nodup) :
    Recorded accounts (log ++ f.moments env act) (f.act env act) := by
  have hfiled : Filed (Checkout.Consistent accounts) (deedsIn · log) f :=
    ⟨h.consistent, h.unheard⟩
  have hfile : ∀ n, deedsIn n (log ++ f.moments env act) = deedsIn n log ++
      f.additions (fun price c world => c.deeds env price world) act n := by
    intro n
    rw [deedsIn_append, deedsIn_moments]
  obtain ⟨hconsistent, hunheard⟩ := hfiled.act (consistent_keeping haccounts) act hnodup hfile
  exact ⟨hconsistent, hunheard⟩

/-! ## When the director settled last -/

/-- A sale that is ready was so by what the director knew when it settled last, and still knows. -/
def Settled (accounts : Accounts) (log : List (Moment σ)) (f : Floor σ) : Prop :=
  f.director.phase = .readyForSale →
    ∃ now, lastSettling log = some (f.director.context, now) ∧
      f.director.context.isReady accounts now = true

theorem lastSettling_append {more : List (Moment σ)} (h : ∀ m ∈ more, m.settling? = none) :
    lastSettling (log ++ more) = lastSettling log := by
  rw [lastSettling, List.filterMap_append, List.filterMap_eq_nil_iff.mpr h, List.append_nil]
  rfl

/-- Only the director settles. -/
theorem not_settling {act : Act σ} (h : ∀ now, act ≠ .director now) (f : Floor σ) :
    ∀ m ∈ f.moments env act, m.settling? = none := by
  intro m hm
  obtain ⟨-, hhappens⟩ := happens_of_moment hm
  rw [Moment.settling?]
  generalize m.happening = happening at hhappens ⊢
  cases hhappens with
  | inquired | feed | checkout => rfl
  | received now arrival => exact absurd rfl (h now)

theorem Settled.quiet (h : Settled accounts log f) {more : List (Moment σ)}
    (hmore : ∀ m ∈ more, m.settling? = none) (hphase : g.director.phase = f.director.phase)
    (hcontext : g.director.context = f.director.context) : Settled accounts (log ++ more) g := by
  intro hready
  rw [lastSettling_append hmore, hcontext]
  exact h (hphase ▸ hready)

theorem Settled.directorTurn (haccounts : ∀ world, env.account world = accounts)
    (h : Settled accounts log f) (hf : f.Orderly) (now : Timestamp) :
    Settled accounts (log ++ f.moments env (.director now)) (f.directorTurn env now).2.2 := by
  have hturned := directorTurn_turned env now f
  generalize (f.directorTurn env now).2.2 = g at hturned ⊢
  cases hturned with
  | closed hopen =>
      refine h.quiet ?_ rfl rfl
      simp [moments, happenings_of_closed (.inl hopen)]
  | shut hopen hshut =>
      have hsame : ((f.giveUp env).seat f.director.dispose f.published).director.phase =
            f.director.phase ∧
          ((f.giveUp env).seat f.director.dispose f.published).director.context =
            f.director.context := by
        simp [Floor.seat, Director.dispose]
      refine h.quiet ?_ hsame.1 hsame.2
      simp [moments, happenings_of_closed (.inr hshut)]
  | waits hopen hshut hnext =>
      have hdirector := (next_reach hnext).spared.director_eq
      refine h.quiet ?_ (by rw [hdirector]) (by rw [hdirector])
      simp [moments, happenings_of_next hopen hshut hnext, Moment.settling?]
  | @took a g hopen hshut hnext =>
      obtain ⟨hg, hadmits⟩ := hf.reach (next_reach hnext)
      have hdirector := (next_reach hnext).spared.director_eq
      have houtcome := (hg.sound.receive hadmits).settle_outcome (env.account g.world) now
      have hlast : lastSettling (log ++ f.moments env (.director now)) =
          some ((f.director.receive a).context, now) := by
        simp [lastSettling, moments, happenings_of_next hopen hshut hnext, Moment.settling?]
      -- This is the only turn in which the sale may become ready.
      intro hready
      rw [reached, Floor.seat, enact_director] at hready ⊢
      obtain ⟨hcontext, hisReady⟩ := houtcome.isReady hready
      rw [haccounts] at hisReady
      refine ⟨now, ?_, ?_⟩
      · rw [hlast, ← hdirector, ← hcontext]
      · simpa [hcontext] using hisReady

theorem Settled.act (haccounts : ∀ world, env.account world = accounts)
    (h : Settled accounts log f) (hf : f.Orderly) (act : Act σ) :
    Settled accounts (log ++ f.moments env act) (f.act env act) := by
  by_cases hdirector : ∃ now, act = .director now
  · obtain ⟨now, rfl⟩ := hdirector
    exact h.directorTurn haccounts hf now
  · have hother : ∀ now, act ≠ .director now := by simpa using hdirector
    have hsame : (f.act env act).director = f.director := (act_unmoved hother f).director_eq
    exact h.quiet (not_settling hother f) (by rw [hsame]) (by rw [hsame])

end MintSale.Sale.Floor
