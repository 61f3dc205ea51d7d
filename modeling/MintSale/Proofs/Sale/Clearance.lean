import MintSale.Proofs.Sale.Record

/-!
# What goes before money moves

A wallet only sends something for the checkout that has its place with the director, in a sale that
was ready when the director settled last, and only what its account has been approved for.
-/

namespace MintSale

open History

namespace Sale

namespace Floor

variable {σ : Type} {env : Environment σ} {accounts : Accounts} {f : Floor σ}
  {log : List (Moment σ)}

/-! ## Clearance -/

/-- A submission of a checkout is under way that has begun for an account at a price, which was the
price that the director knew then. -/
def IsSubmitting (log : List (Moment σ)) (generation : Nat) (account : Address) (price : Amount) :
    Prop :=
  ∃ before start after, log = before ++ start :: after ∧
    start.happening = .did .checkout generation (.beganSubmission (some account) (some price)) ∧
    start.floor.director.context.live.map (·.price) = some price ∧
    ∀ deed ∈ deedsIn generation after, ¬ deed.IsTurn

/-- All that goes before a transaction that a wallet is to send for the checkout with a number. -/
structure Clearance (accounts : Accounts) (earlier : List (Moment σ)) (f : Floor σ)
    (generation : Nat) (wallet : WalletClient) (tx : Transaction) : Prop where
  phase_eq : f.director.phase = .readyForSale
  wallet_eq : f.director.context.wallet = some wallet
  account_eq : accounts wallet = some tx.sender
  ready : ∃ now project kind live, lastSettling earlier = some (f.director.context, now) ∧
    f.director.context.Ready accounts now wallet tx.sender project kind live
  approved : ∃ details, Checkout.Approved (deedsIn generation earlier) tx.sender details
  sold : ∃ setup price, f.director.checkout = some ⟨generation, setup⟩ ∧
    IsSubmitting earlier generation tx.sender price ∧ Checkout.Sells setup tx.sender price tx

/-- If a wallet is to send something at a moment, then a checkout is doing that, with clearance. -/
def IsCleared (accounts : Accounts) (earlier : List (Moment σ)) (moment : Moment σ) : Prop :=
  ∀ wallet tx, moment.happening.call? = some (.send wallet tx) →
    ∃ generation, moment.happening = .did .checkout generation (.asked (.send wallet tx)) ∧
      Clearance accounts earlier moment.floor generation wallet tx

/-- Submissions begin at the price that the director knows. -/
def Priced (log : List (Moment σ)) : Prop :=
  ∀ moment ∈ log, ∀ generation account price,
    moment.happening = .did .checkout generation (.beganSubmission account price) →
      price = moment.floor.director.context.live.map (·.price)

theorem priced_moments (h : f.Orderly) (env : Environment σ) (act : Act σ) :
    Priced (f.moments env act) := by
  intro m hm generation account price hbegan
  obtain ⟨hfloor, hhappens⟩ := happens_of_moment hm
  rw [hbegan] at hhappens
  cases hhappens with
  | checkout hfound hdeed =>
      rw [Checkout.price_of_began hdeed, Floor.price, h.sound.board_eq, hfloor]

theorem Priced.append {more : List (Moment σ)} (h : Priced log) (hmore : Priced more) :
    Priced (log ++ more) := by
  intro m hm
  rcases List.mem_append.mp hm with hm | hm
  · exact h m hm
  · exact hmore m hm

/-- A submission of which nothing else is on record since is under way. -/
theorem isSubmitting_of_latest (hpriced : Priced log) {generation : Nat} {account : Address}
    {price : Amount} (h : Latest Deed.IsTurn (deedsIn generation log)
      (.beganSubmission (some account) (some price))) :
    IsSubmitting log generation account price := by
  obtain ⟨before, start, after, rfl, hstart, hafter⟩ := h.of_excerpt
  have hbegan := Happening.eq_of_deed? hstart
  exact ⟨before, start, after, rfl, hbegan,
    (hpriced start (by simp) generation _ _ hbegan).symm, hafter⟩

/-! ## Every run -/

/-- What holds of a floor and what has happened on it. -/
structure Documented (accounts : Accounts) (log : List (Moment σ)) (f : Floor σ) : Prop where
  kept : f.Kept
  harmless : f.Harmless
  recorded : Recorded accounts log f
  settled : Settled accounts log f
  priced : Priced log
  cleared : Throughout (IsCleared accounts) log

/-- A checkout that is still going has its place with the director, and with it what the director
knows. -/
theorem Kept.slot_of_going (h : f.Kept) {generation : Nat} {c : Checkout}
    (hfound : f.checkout? generation = some c)
    (hgoing : ¬ (c.line.isStopped = true ∨ c.hasEnded = true)) :
    f.director.checkout = some ⟨generation, c.setup⟩ := by
  have hc : c ∈ f.checkouts := List.mem_of_find?_eq_some hfound
  obtain rfl : c.line.generation = generation := by simpa using List.find?_some hfound
  have hcurrent : f.director.current .checkout = some c.line.generation :=
    (h.staffed.checkout_dismissed c hc).resolve_right hgoing
  obtain ⟨slot, hslot, hgeneration⟩ := Option.map_eq_some_iff.mp hcurrent
  obtain ⟨placed, hplaced, hnumber, hsetup⟩ := h.staffed.checkout_placed slot hslot
  obtain rfl := checkout_unique h.staffed.nodup hplaced hc (hnumber.trans hgeneration)
  rw [hslot, hsetup, ← hgeneration]

/-- So has a checkout that does something. -/
theorem Kept.slot_of_deed (h : f.Kept) {generation : Nat} {c : Checkout}
    (hfound : f.checkout? generation = some c) {deed : Deed}
    (hdeed : deed ∈ c.deeds env f.price f.world) :
    f.director.checkout = some ⟨generation, c.setup⟩ := by
  refine h.slot_of_going hfound fun hgone => ?_
  simp [Checkout.deeds_of_gone env f.price hgone] at hdeed

/-- A transaction that a checkout lets its wallet send has clearance. -/
theorem Documented.clearance (haccounts : ∀ world, env.account world = accounts)
    (h : Documented accounts log f) {generation : Nat} {c : Checkout}
    (hfound : f.checkout? generation = some c) {before after : List Deed} {wallet : WalletClient}
    {tx : Transaction}
    (hdeeds : c.deeds env f.price f.world = before ++ .asked (.send wallet tx) :: after) :
    Clearance accounts (log ++ before.map fun deed => ⟨f, .did .checkout generation deed⟩) f
      generation wallet tx := by
  have hc : c ∈ f.checkouts := List.mem_of_find?_eq_some hfound
  have hgeneration : c.line.generation = generation := by simpa using List.find?_some hfound
  have hdeed : .asked (.send wallet tx) ∈ c.deeds env f.price f.world := by simp [hdeeds]
  have hslot := h.kept.slot_of_deed hfound hdeed
  have hphase := h.kept.orderly.sound.phase_of_checkout (by simp [hslot])
  obtain ⟨-, -, hwallet, -⟩ := h.kept.orderly.sound.checkout_setup _ hslot
  -- What is on record of the checkout up to this deed.
  have hrecord : deedsIn generation
      (log ++ before.map fun deed => ⟨f, .did .checkout generation deed⟩) =
        deedsIn generation log ++ before := by
    rw [deedsIn_append, deedsIn, deedsIn, List.filterMap_map]
    simp [Function.comp_def, Happening.deed?]
  have hlicensed :
      Checkout.Licensed accounts c.setup (deedsIn generation log ++ before) wallet tx := by
    have hconsistent := h.recorded.consistent c hc
    rw [hgeneration] at hconsistent
    have hall := (hconsistent.turn haccounts f.price f.world).licensed
    rw [(c.turn_keeps env f.price f.world).setup_eq] at hall
    exact hall (deedsIn generation log ++ before) (.asked (.send wallet tx)) after
      (by simp [hdeeds]) wallet tx rfl
  have hpriced : Priced (log ++ before.map fun deed => ⟨f, .did .checkout generation deed⟩) := by
    refine h.priced.append fun m hm => ?_
    refine priced_moments h.kept.orderly env (.checkout generation) m ?_
    rw [moments, happenings_checkout hfound, hdeeds]
    obtain ⟨deed, hdeed, rfl⟩ := List.mem_map.mp hm
    simp [hdeed]
  -- The wallet and the account of the checkout are those with which the sale was ready.
  obtain ⟨now, hlast, hready⟩ := h.settled hphase
  obtain ⟨wallet', account, project, kind, live, hready⟩ := Context.isReady_iff.mp hready
  obtain rfl : wallet' = wallet := by
    rw [hlicensed.wallet_eq]
    exact Option.some.inj (hready.wallet_eq.symm.trans hwallet)
  have haccount : accounts wallet' = some tx.sender := by
    rw [hlicensed.wallet_eq]
    exact hlicensed.account_eq
  obtain rfl : account = tx.sender := Option.some.inj (hready.account_eq.symm.trans haccount)
  obtain ⟨price, hlatest, hsells⟩ := hlicensed.priced
  exact {
    phase_eq := hphase
    wallet_eq := hready.wallet_eq
    account_eq := haccount
    ready := by
      refine ⟨now, project, kind, live, ?_, hready⟩
      rw [lastSettling_append, hlast]
      intro m hm
      obtain ⟨deed, -, rfl⟩ := List.mem_map.mp hm
      rfl
    approved := by
      rw [hrecord]
      exact hlicensed.approved
    sold := by
      refine ⟨c.setup, price, hslot, isSubmitting_of_latest hpriced ?_, hsells⟩
      rw [hrecord]
      exact hlatest }

theorem Documented.cleared_moments (haccounts : ∀ world, env.account world = accounts)
    (h : Documented accounts log f) (act : Act σ) :
    Throughout (fun earlier => IsCleared accounts (log ++ earlier)) (f.moments env act) := by
  by_cases hcheckout : ∃ generation c, act = .checkout generation ∧ f.checkout? generation = some c
  · obtain ⟨generation, c, rfl, hfound⟩ := hcheckout
    rw [moments, happenings_checkout hfound, List.map_map]
    refine throughout_map fun before deed after hdeeds wallet tx hsend => ?_
    cases deed with
    | asked call =>
        obtain rfl := Option.some.inj hsend
        exact ⟨generation, rfl, h.clearance haccounts hfound hdeeds⟩
    | _ => simp [Happening.call?, Deed.call?] at hsend
  · refine throughout_of_forall _ fun m hm earlier wallet tx hsend => ?_
    exact absurd (h.harmless.sender hm hsend trivial) hcheckout

theorem Documented.act (haccounts : ∀ world, env.account world = accounts)
    (h : Documented accounts log f) (act : Act σ) :
    Documented accounts (log ++ f.moments env act) (f.act env act) := by
  have hkept := h.kept.act env act
  exact {
    kept := hkept
    harmless := h.harmless.act env act
    recorded := h.recorded.act haccounts act hkept.staffed.nodup
    settled := h.settled.act haccounts h.kept.orderly act
    priced := h.priced.append (priced_moments h.kept.orderly env act)
    cleared := (throughout_append_iff _ _ _).mpr ⟨h.cleared, h.cleared_moments haccounts act⟩ }

theorem documented_initial (accounts : Accounts) (start : Start) (interval : Nat)
    (isTracked : Bool) (world : σ) :
    Documented accounts [] (initial start interval isTracked world) where
  kept := kept_initial start interval isTracked world
  harmless := harmless_initial start interval isTracked world
  recorded := recorded_initial accounts start interval isTracked world
  settled := by simp [Settled, initial, Director.initial]
  priced := by simp [Priced]
  cleared := throughout_nil _

/-- Where every wallet keeps its account, no wallet is ever asked to send anything without
clearance, whatever happens and in whichever order. -/
theorem run_cleared (env : Environment σ) (accounts : Accounts)
    (haccounts : ∀ world, env.account world = accounts) (start : Start) (interval : Nat)
    (isTracked : Bool) (world : σ) (acts : List (Act σ)) :
    ((initial start interval isTracked world).run env acts).asked =
        callsIn ((initial start interval isTracked world).chronicle env acts) ∧
      Throughout (IsCleared accounts)
        ((initial start interval isTracked world).chronicle env acts) := by
  have hdocumented := chronicle_invariant env (P := Documented accounts)
    (fun log f act h => h.act haccounts act)
    (documented_initial accounts start interval isTracked world) acts
  exact ⟨by simpa [initial] using run_asked (initial start interval isTracked world) acts,
    hdocumented.cleared⟩

end Floor

/-- In the small sale the wallet is asked once to send something. -/
theorem Floor.run_cleared_buying :
    (Sample.floor.run Sample.environment (Sample.opening ++ Sample.buying)).asked.map Call.name =
        ["price_info", "project_state", "send_transaction"] ∧
      Throughout (Floor.IsCleared fun _ => some Sample.buyer)
        (Sample.floor.chronicle Sample.environment (Sample.opening ++ Sample.buying)) :=
  ⟨by decide +kernel,
    (run_cleared Sample.environment (fun _ => some Sample.buyer) (fun _ => rfl) _ _ _ _
      (Sample.opening ++ Sample.buying)).2⟩

end Sale

end MintSale
