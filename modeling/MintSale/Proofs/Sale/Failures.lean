import MintSale.Proofs.Checkout.Failing
import MintSale.Proofs.Sale.Clearance
import MintSale.Proofs.Sale.Truth

/-!
# What a sale can fail with

A checkout only works while the sale is ready, so what its checks and submissions need is there when
they begin. Apart from what collaborators fail with, three failures are left.
-/

namespace MintSale

open History

/-- The minter is known, and work only begins with an account and a price. -/
structure Scene.IsEquipped {σ : Type} (s : Scene σ) : Prop where
  minter : s.before.setup.project.minter.isSome
  check : ∀ account price, .beganCheck account price ∈ s.deeds → account.isSome ∧ price.isSome
  submission : ∀ account price, .beganSubmission account price ∈ s.deeds →
    account.isSome ∧ price.isSome

/-- When something fails in a scene, a call has just failed in the same way, unless it is one of
three failures: the list of an allowlist minter does not have the configured root, the project has a
currency without an address, or a token has been chosen that is none of those found. -/
structure Scene.FailsDuly {σ : Type} (s : Scene σ) : Prop where
  check : ∀ fault, .endedCheck (.error fault) ∈ s.deeds → Hears s.heard fault ∨
    fault = .allowlistRootMismatch ∧ s.before.setup.kind = .merkle ∨
    fault = .missing .currencyAddress ∧ s.before.setup.kind = .setPriceErc20 ∧
      s.before.setup.project.currency.contract = none
  submission : ∀ fault, .endedSubmission (.error fault) ∈ s.deeds → Hears s.heard fault ∨
    s.before.setup.kind = .holder ∧ ∃ chosen, Checkout.Ineligible s.before.state chosen ∧
      fault = .tokenNotEligible chosen.contract chosen.tokenId

/-- Work begins with the account that the wallet has and with the price that is told. -/
theorem Checkout.Staged.isEquipped {σ : Type} {env : Environment σ} {price : Option Amount}
    {s : Scene σ} (h : Staged env price s) (hminter : s.before.setup.project.minter.isSome)
    (haccount : (env.account s.worldBefore s.before.setup.wallet).isSome)
    (hprice : price.isSome) : s.IsEquipped := by
  refine ⟨hminter, fun account price' hbegan => ?_, fun account price' hbegan => ?_⟩
  · cases h with
    | beginCheck c world =>
        obtain ⟨rfl, rfl⟩ : account = env.account world c.setup.wallet ∧ price' = price := by
          simpa using hbegan
        exact ⟨haccount, hprice⟩
    | report | take | rest | beginSubmission | awaitCheck | endCheck | awaitSubmission
    | endSubmission => simp [reportScene, takeScene] at hbegan
  · cases h with
    | beginSubmission c world =>
        obtain ⟨rfl, rfl⟩ : account = env.account world c.setup.wallet ∧ price' = price := by
          simpa using hbegan
        exact ⟨haccount, hprice⟩
    | report | take | rest | beginCheck | awaitCheck | endCheck | awaitSubmission
    | endSubmission => simp [reportScene, takeScene] at hbegan

theorem Project.minter_of_support {p : Project} {kind : MinterKind}
    (h : p.support = .supported kind) : p.minter.isSome := by
  cases hminter : p.minter with
  | none => simp [support, hminter] at h
  | some minter => rfl

namespace Sale.Floor

variable {σ : Type} {env : Environment σ} {accounts : Accounts} {f : Floor σ}
  {log : List (Moment σ)}

/-! ## What checkouts begin with -/

/-- A checkout that does something works for a sale that is ready. -/
theorem Documented.isEquipped (haccounts : ∀ world, env.account world = accounts)
    (h : Documented accounts log f) {generation : Nat} {c : Checkout}
    (hfound : f.checkout? generation = some c) {s : Scene σ}
    (hs : s ∈ c.scenes env f.price f.world) : s.IsEquipped := by
  have hslot : f.director.checkout = some ⟨generation, c.setup⟩ := by
    refine h.kept.slot_of_going hfound fun hgone => ?_
    simp [Checkout.scenes_of_gone hgone] at hs
  obtain ⟨hstaged, hsetup⟩ := Checkout.staged_of_mem hs
  have hsound := h.kept.orderly.sound
  obtain ⟨-, -, hwallet, hsupport⟩ := hsound.checkout_setup _ hslot
  obtain ⟨now, -, hready⟩ := h.settled (hsound.phase_of_checkout (by simp [hslot]))
  obtain ⟨wallet, account, project, kind, live, hready⟩ := Context.isReady_iff.mp hready
  obtain rfl : wallet = c.setup.wallet := Option.some.inj (hready.wallet_eq.symm.trans hwallet)
  apply hstaged.isEquipped
  · rw [hsetup]
    exact Project.minter_of_support hsupport
  · rw [haccounts, hsetup, hready.account_eq]
    rfl
  · simp [Floor.price, hsound.board_eq, hready.live_eq]

/-! ## Every run -/

theorem accountable_keeping (env : Environment σ) :
    Keeping env Checkout.Accountable fun price c world => c.scenes env price world where
  fresh := Checkout.accountable_fresh
  tell _ h := h.congr rfl rfl rfl
  stop h := h.congr rfl rfl rfl
  turn price world h := h.turn price world

/-- All that has been played was equipped. -/
structure Answerable (accounts : Accounts) (play : List (Nat × Scene σ)) (f : Floor σ) : Prop where
  documented : ∃ log, Documented accounts log f
  equipped : ∀ entry ∈ play, entry.2.IsEquipped

theorem Answerable.act (haccounts : ∀ world, env.account world = accounts)
    {play : List (Nat × Scene σ)} (h : Answerable accounts play f) (act : Act σ) :
    Answerable accounts (play ++ f.scenes env act) (f.act env act) := by
  obtain ⟨log, hlog⟩ := h.documented
  have hact := hlog.act haccounts act
  refine ⟨⟨_, hact⟩, fun entry hentry => ?_⟩
  rcases List.mem_append.mp hentry with hentry | hentry
  · exact h.equipped entry hentry
  · cases act with
    | checkout generation =>
        cases hfound : f.checkout? generation with
        | none => simp [scenes, hfound] at hentry
        | some c =>
            rw [scenes_checkout hfound] at hentry
            obtain ⟨s, hs, rfl⟩ := List.mem_map.mp hentry
            exact hlog.isEquipped haccounts hfound hs
    | director | feed | post | shutDown | wait | change => simp [scenes] at hentry

/-- The work that has begun last in the scenes of a checkout began with an account and a price. -/
theorem equipped_of_latest {play : List (Nat × Scene σ)}
    (hplay : ∀ entry ∈ play, entry.2.IsEquipped) {n : Nat} {deed : Deed}
    (h : Latest Deed.IsTurn (deedsOf (scenesIn n play)) deed) :
    ∃ s : Scene σ, s.IsEquipped ∧ deed ∈ s.deeds := by
  obtain ⟨-, before, after, hs, -⟩ := h
  have hdeed : deed ∈ deedsOf (scenesIn n play) := by simp [hs]
  obtain ⟨s, hscene, hdeed⟩ := List.mem_flatMap.mp hdeed
  obtain ⟨⟨m, t⟩, hentry, hsame⟩ := List.mem_filterMap.mp hscene
  by_cases hm : m = n
  · obtain rfl : t = s := by simpa [hm] using hsame
    exact ⟨t, hplay _ hentry, hdeed⟩
  · simp [hm] at hsame

/-- A check that fails on its own does so for what the wallet's list is or for what the project
lacks. -/
theorem fault_of_check {s : Checkout.Setup} {account : Option Address} {price : Option Amount}
    {fault : Fault} (h : Checkout.CheckFault s account price fault)
    (hminter : s.project.minter.isSome) (haccount : account.isSome) (hprice : price.isSome) :
    fault = .allowlistRootMismatch ∧ s.kind = .merkle ∨
      fault = .missing .currencyAddress ∧ s.kind = .setPriceErc20 ∧
        s.project.currency.contract = none := by
  cases h with
  | noMinter h => simp [h] at hminter
  | noAccount h => simp [h] at haccount
  | noPrice h => simp [h] at hprice
  | rootMismatch hkind => exact .inl ⟨rfl, hkind⟩
  | noCurrency hkind h => exact .inr ⟨rfl, hkind, h⟩

/-- A submission that fails on its own does so for a token that was chosen. -/
theorem fault_of_submission {s : Checkout.Setup} {state : PurchaseState}
    {account : Option Address} {price : Option Amount} {fault : Fault}
    (h : Checkout.SubmissionFault s state account price fault)
    (hminter : s.project.minter.isSome) (haccount : account.isSome) (hprice : price.isSome) :
    s.kind = .holder ∧ ∃ chosen, Checkout.Ineligible state chosen ∧
      fault = .tokenNotEligible chosen.contract chosen.tokenId := by
  cases h with
  | noMinter h => simp [h] at hminter
  | noAccount h => simp [h] at haccount
  | noPrice h => simp [h] at hprice
  | @notEligible chosen hkind h => exact ⟨hkind, chosen, h, rfl⟩

/-- Where every wallet keeps its account, a checkout never fails for something that it should have
been given: when its check or a submission of it fails, this comes from a collaborator, or it is one
of three failures that are of the list, the project or the chosen token. -/
theorem run_failsDuly (env : Environment σ) (accounts : Accounts)
    (haccounts : ∀ world, env.account world = accounts) (start : Start) (interval : Nat)
    (isTracked : Bool) (world : σ) (acts : List (Act σ)) :
    ∀ entry ∈ (initial start interval isTracked world).play env acts, entry.2.FailsDuly := by
  have hanswerable : Answerable accounts ((initial start interval isTracked world).play env acts)
      ((initial start interval isTracked world).run env acts) :=
    telling_invariant env (scenes env) (P := Answerable accounts)
      (fun _ _ act h => h.act haccounts act)
      ⟨⟨_, documented_initial accounts start interval isTracked world⟩, by simp⟩ acts
  rintro ⟨n, s⟩ hentry
  obtain ⟨earlier, later, hplay⟩ := List.append_of_mem hentry
  obtain ⟨c, -, -, haccountable⟩ :=
    (run_filed (accountable_keeping env) start interval isTracked world acts).of_scene hplay
  have hminter := (hanswerable.equipped _ hentry).minter
  have hearlier : ∀ entry ∈ earlier, entry.2.IsEquipped := fun entry h =>
    hanswerable.equipped entry (by simp [hplay, h])
  obtain ⟨hcheck, hsubmission⟩ := haccountable.explained _ s _ rfl
  refine ⟨fun fault hfault => ?_, fun fault hfault => ?_⟩
  · refine (hcheck fault hfault).imp_right fun ⟨account, price, hlatest, hown⟩ => ?_
    obtain ⟨began, hequipped, hdeed⟩ := equipped_of_latest hearlier hlatest
    obtain ⟨haccount, hprice⟩ := hequipped.check account price hdeed
    exact fault_of_check hown hminter haccount hprice
  · refine (hsubmission fault hfault).imp_right fun ⟨account, price, hlatest, hown⟩ => ?_
    obtain ⟨began, hequipped, hdeed⟩ := equipped_of_latest hearlier hlatest
    obtain ⟨haccount, hprice⟩ := hequipped.submission account price hdeed
    exact fault_of_submission hown hminter haccount hprice

end Sale.Floor

/-! ## A sale in a currency without an address -/

/-- What a deed fails with. -/
def Deed.fault? : Deed → Option Fault
  | .endedCheck (.error fault) | .endedSubmission (.error fault) => some fault
  | _ => none

namespace Sale

/-- The small sale, but in a currency that nobody knows the address of. -/
def Sample.currencyFloor : Floor Unit :=
  .initial ⟨none, some ⟨"chain"⟩, some ⟨"wallet"⟩,
    some { project with minter := some ⟨.replicate 20 0xbb, "MinterSetPriceERC20V4", none, []⟩ },
    none⟩ 10 true ()

/-- Its checkout fails at once, with the one failure that is left to it. -/
theorem Floor.run_failsDuly_currency :
    (deedsOf ((Sample.currencyFloor.play Sample.environment
        (Sample.opening ++ [.checkout 2])).map (·.2))).filterMap Deed.fault? =
      [.missing .currencyAddress] ∧
      ∀ entry ∈ Sample.currencyFloor.play Sample.environment (Sample.opening ++ [.checkout 2]),
        entry.2.FailsDuly :=
  ⟨by decide +kernel,
    run_failsDuly Sample.environment (fun _ => some Sample.buyer) (fun _ => rfl) _ _ _ _ _⟩

end Sale

end MintSale
