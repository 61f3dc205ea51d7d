import MintSale.Proofs.Sale.Staff

/-!
# The files of checkouts

There is a file for each checkout, to which its turns add. What a turn preserves of a checkout and
its file, every act preserves of all checkouts on the floor.
-/

namespace MintSale.Sale.Floor

variable {σ β : Type} {env : Environment σ} {f g : Floor σ}

/-! ## Numbers of checkouts -/

/-- The checkout that an order opens. -/
def opened? : Order → Option Nat
  | .openCheckout slot => some slot.generation
  | _ => none

theorem numbers_enact (f : Floor σ) (orders : List Order) :
    (f.enact orders).numbers = f.numbers ++ orders.filterMap opened? := by
  induction orders generalizing f with
  | nil => simp
  | cons o orders ih =>
      have hrest := ih (f.carryOut o)
      have hfirst : (f.carryOut o).numbers = f.numbers ++ (opened? o).toList := by
        cases o with
        | openCheckout slot => simp [carryOut, numbers, opened?, Checkout.fresh, Line.fresh]
        | closeCheckout generation =>
            have hkept : (f.carryOut (.closeCheckout generation)).numbers = f.numbers :=
              numbers_mapCheckout fun _ _ hgeneration => hgeneration
            simpa [opened?] using hkept
        | command generation command =>
            have hkept : (f.carryOut (.command generation command)).numbers = f.numbers :=
              numbers_mapCheckout fun _ _ hgeneration => hgeneration
            simpa [opened?] using hkept
        | openFeed | closeFeed => simp [carryOut, numbers, mapFeed, opened?]
        | track notice =>
            rw [carryOut]
            split <;> simp [numbers, opened?]
      rw [hfirst] at hrest
      refine hrest.trans ?_
      cases hopened : opened? o <;> simp [hopened]

/-! ## Files -/

/-- What becomes of a checkout keeps `P`, when each turn adds to its file. -/
structure Keeping (env : Environment σ) (P : List β → Checkout → Prop)
    (adds : Option Amount → Checkout → σ → List β) : Prop where
  fresh : ∀ setup generation, P [] (.fresh setup generation)
  tell : ∀ {file c} command, P file c → P file { c with commands := c.commands ++ [command] }
  stop : ∀ {file c}, P file c → P file c.stop
  turn : ∀ {file c} price world, P file c →
    P (file ++ adds price c world) (c.turn env price world).1

/-- What an act adds to the file of the checkout with a number. -/
def additions (adds : Option Amount → Checkout → σ → List β) (f : Floor σ) (act : Act σ)
    (n : Nat) : List β :=
  match act with
  | .checkout generation =>
    if generation = n then ((f.checkout? n).map (adds f.price · f.world)).getD [] else []
  | _ => []

/-- Each checkout is as its file has it, and the file of one that is still to come is empty. -/
structure Filed (P : List β → Checkout → Prop) (file : Nat → List β) (f : Floor σ) : Prop where
  holds : ∀ c ∈ f.checkouts, P (file c.line.generation) c
  empty : ∀ n, n ∉ f.numbers → file n = []

variable {P : List β → Checkout → Prop} {adds : Option Amount → Checkout → σ → List β}
  {file file' : Nat → List β}

theorem Filed.spared (h : Filed P file f) (hg : Spared f g) : Filed P file g where
  holds := by simpa [hg.checkouts_eq] using h.holds
  empty := by simpa [numbers, hg.checkouts_eq] using h.empty

/-- Checkouts are opened with new numbers, so their files are empty. -/
theorem Filed.seat (hkeeping : Keeping env P adds) (h : Filed P file f) {d : Director}
    {s : Snapshot} (hnodup : (f.seat d s).generations.Nodup) : Filed P file (f.seat d s) := by
  have hnumbers : (f.seat d s).numbers = f.numbers ++ d.outbox.filterMap opened? := by
    rw [Floor.seat, numbers_enact]
    rfl
  have hdistinct : (f.seat d s).numbers.Nodup := hnodup.of_append_right
  constructor
  · rw [Floor.seat]
    refine enact_checkouts (fun slot hslot => ?_) (fun _ hc => hkeeping.stop hc)
      (fun _ command hc => hkeeping.tell command hc) ?_
    · -- All numbers on the new floor differ, so that of a new checkout is no old one.
      have hnew : slot.generation ∉ f.numbers := by
        rw [hnumbers] at hdistinct
        intro hold
        refine (List.disjoint_of_nodup_append hdistinct) hold ?_
        exact List.mem_filterMap.mpr ⟨_, hslot, rfl⟩
      have hempty : file slot.generation = [] := h.empty _ hnew
      change P (file slot.generation) _
      rw [hempty]
      exact hkeeping.fresh slot.setup slot.generation
    · exact h.holds
  · intro n hn
    rw [hnumbers] at hn
    exact h.empty n fun hmem => hn (List.mem_append_left _ hmem)

theorem Filed.checkoutTurn (hkeeping : Keeping env P adds) (h : Filed P file f) (generation : Nat)
    (hfile : ∀ n, file' n = file n ++ f.additions adds (.checkout generation) n) :
    Filed P file' (f.checkoutTurn env generation) := by
  have hothers : ∀ n ≠ generation, file' n = file n := by
    intro n hn
    simp [hfile, additions, Ne.symm hn]
  rcases checkoutTurn_cases env generation f with
    ⟨hnone, hsame⟩ | ⟨c, hc, hgeneration, hfound, hturn⟩
  · have hown : file' generation = file generation := by simp [hfile, additions, hnone]
    have hfiles : file' = file := by
      funext n
      by_cases hn : n = generation
      · rw [hn, hown]
      · exact hothers n hn
    rwa [hsame, hfiles]
  · have hline := (c.turn_keeps env f.price f.world).line_eq
    have hnumbers : (f.checkoutTurn env generation).numbers = f.numbers := by
      rw [hturn]
      exact numbers_mapCheckout (f := f) fun _ _ _ => by rw [hline, hgeneration]
    have hown : file' generation = file generation ++ adds f.price c f.world := by
      simp [hfile, additions, hfound]
    constructor
    · intro c' hc'
      rw [hturn] at hc'
      obtain ⟨old, hold, rfl⟩ := List.mem_map.mp hc'
      by_cases hsame : old.line.generation = generation
      · have hheld := h.holds c hc
        rw [hgeneration] at hheld
        simp only [hsame, if_true]
        rw [hline, hgeneration, hown]
        exact hkeeping.turn f.price f.world hheld
      · simp only [hsame, if_false]
        rw [hothers _ hsame]
        exact h.holds old hold
    · intro n hn
      rw [hnumbers] at hn
      have hne : n ≠ generation := by
        rintro rfl
        exact hn (hgeneration ▸ List.mem_map_of_mem hc)
      rw [hothers n hne]
      exact h.empty n hn

/-- What others do changes no file. -/
theorem Filed.otherAct (hkeeping : Keeping env P adds) (h : Filed P file f) {act : Act σ}
    (hother : ∀ generation, act ≠ .checkout generation)
    (hnodup : (f.act env act).generations.Nodup) : Filed P file (f.act env act) := by
  cases act with
  | checkout generation => exact absurd rfl (hother generation)
  | director now =>
      change (f.directorTurn env now).2.2.generations.Nodup at hnodup
      refine directorTurn_keeps now h { h with } (fun hreach => h.spared hreach.spared) ?_
      intro g d s hseat hg
      exact hg.seat hkeeping (hseat ▸ hnodup)
  | feed generation =>
      rcases feedTurn_cases env generation f with ⟨-, hsame⟩ | ⟨feed, -, -, -, hturn⟩
      · rwa [Floor.act, hsame]
      · rw [Floor.act, hturn]
        exact { h with }
  | post event =>
      rw [Floor.act, post]
      split
      · exact { h with }
      · exact h
  | shutDown =>
      constructor
      · intro c hc
        obtain ⟨old, hold, rfl⟩ := List.mem_map.mp hc
        exact hkeeping.stop (h.holds old hold)
      · intro n hn
        refine h.empty n fun hmem => hn ?_
        simpa [numbers, Floor.act, Floor.shutDown, Function.comp_def, Checkout.stop] using hmem
  | wait | change => exact { h with }

/-- An act keeps all files right. -/
theorem Filed.act (hkeeping : Keeping env P adds) (h : Filed P file f) (act : Act σ)
    (hnodup : (f.act env act).generations.Nodup)
    (hfile : ∀ n, file' n = file n ++ f.additions adds act n) : Filed P file' (f.act env act) := by
  by_cases hcheckout : ∃ generation, act = .checkout generation
  · obtain ⟨generation, rfl⟩ := hcheckout
    exact h.checkoutTurn hkeeping generation hfile
  · have hother : ∀ generation, act ≠ .checkout generation := by simpa using hcheckout
    have hsame : file' = file := by
      funext n
      rw [hfile]
      cases act with
      | checkout generation => exact absurd rfl (hother generation)
      | director | feed | post | shutDown | wait | change => exact List.append_nil _
    rw [hsame]
    exact h.otherAct hkeeping hother hnodup

end MintSale.Sale.Floor
