import MintSale.Proofs.Checkout.Fairness

/-!
# Every command buys for itself

Only one submission is in flight at a time, each follows a command of its own that came when the
checkout was ready, and nothing of an earlier command gets into it. A purchase that is reported as
sent is one whose every transaction has got a hash.
-/

namespace MintSale

open History

namespace Checkout

variable {σ : Type} {env : Environment σ} {setup : Setup} {story : List (Scene σ)} {s : Scene σ}
  {c : Checkout}

/-! ## Work -/

/-- Nothing happens. -/
theorem Honest.rest (h : Honest env story c) (world : σ) :
    Honest env (story ++ [⟨c, world, [], [], c, world⟩]) c := by
  refine h.quiet ⟨by simp, rfl, fun request account haccepts => ?_⟩ rfl ?_
  · simpa using haccepts.deeds_eq
  · refine fair_of_plain ?_ ?_ ?_ rfl env c.setup story <;> simp

theorem Honest.beginCheck (h : Honest env story c) (price : Option Amount) (world : σ)
    (hwork : c.work = none) (hphase : c.state.phase = .checkingEligibility)
    (halone : ¬ InFlight story) :
    Honest env (story ++ [beginScene env price c world]) (c.begun env price world) := by
  have hdeeds : (beginScene env price c world).deeds =
      [.beganCheck (env.account world c.setup.wallet) price] := by
    simp [beginScene, beginDeeds, hwork, hphase]
  have hbegun : c.begun env price world = { c with work := some (.check (.fresh
      (checkProgram c.setup (env.account world c.setup.wallet) price))) } := by
    simp [begun, workNow, hwork, hphase]
  rw [hbegun]
  constructor
  · simp [hphase]
  · refine .checking _ rfl hphase (fun hflight => halone (hflight.of_concat ?_)) ?_
    · simp [hdeeds, Deed.IsSubmissionTurn]
    · exact (checkProgram_within _ _ _).mono (fun _ => id) fun _ _ => trivial
  · refine h.fair.concat (fair_of_plain ?_ ?_ ?_ ?_ env c.setup story) <;>
      simp [Scene.sales, hdeeds, Deed.sale?]

theorem Honest.beginSubmission (h : Honest env story c) (price : Option Amount) (world : σ)
    (hwork : c.work = none) (hphase : c.state.phase = .initiatingPurchase)
    (halone : ¬ InFlight story) {o : Order env c.setup.wallet story}
    (hto : c.state.purchaseTo = some o.destination)
    (hadditional : c.state.additional = o.request.additional) :
    Honest env (story ++ [beginScene env price c world]) (c.begun env price world) := by
  have hdeeds : (beginScene env price c world).deeds =
      [.beganSubmission (env.account world c.setup.wallet) price] := by
    simp [beginScene, beginDeeds, hwork, hphase]
  have hbegun : c.begun env price world = { c with work := some (.submission (.fresh
      (submissionProgram c.setup c.state (env.account world c.setup.wallet) price))) } := by
    simp [begun, workNow, hwork, hphase]
  obtain ⟨details, heligibility, hlatest⟩ := h.eligible (.inr hphase)
  -- The submission that begins here is the last one from now on.
  let x : Submission env c.setup (story ++ [beginScene env price c world]) :=
    { earlier := story
      scene := beginScene env price c world
      since := []
      order := o
      details := details
      price := price
      story_eq := rfl
      eligible := hlatest
      begins := hdeeds
      quiet := by simp }
  rw [hbegun]
  constructor
  · intro _
    exact h.eligible_concat (.inr hphase) (by simp [hdeeds, Deed.IsVerdict])
  · refine .submitting _ rfl hphase x hto (.fresh ?_)
    rw [submissionProgram_eq hto hadditional heligibility]
    exact .refl _
  · exact h.fair.concat {
      alone := fun _ _ _ => halone
      ordered := fun _ _ _ => ⟨x, rfl⟩
      sends := by simp [hdeeds]
      ignored := by simp [hdeeds]
      sold := .inl (by simp [Scene.sales, hdeeds, Deed.sale?]) }

theorem Honest.begin (h : Honest env story c) (price : Option Amount) (world : σ) :
    Honest env (story ++ [beginScene env price c world]) (c.begun env price world) := by
  have hsettled : (c.work = none → c.state.phase ≠ .checkingEligibility ∧
      c.state.phase ≠ .initiatingPurchase) →
      Honest env (story ++ [beginScene env price c world]) (c.begun env price world) := by
    intro hsettled
    have hscene : beginScene env price c world = ⟨c, world, [], [], c, world⟩ :=
      beginScene_of_settled hsettled
    have hbegun : c.begun env price world = c := congrArg Scene.after hscene
    rw [hscene, hbegun]
    exact h.rest world
  cases h.busy with
  | idle hwork halone hordered =>
      cases hphase : c.state.phase with
      | checkingEligibility => exact h.beginCheck price world hwork hphase halone
      | initiatingPurchase =>
          obtain ⟨o, hto, hadditional⟩ := hordered hphase
          exact h.beginSubmission price world hwork hphase halone hto hadditional
      | readyForPurchase | userIneligible | error => exact hsettled (by simp [hphase])
  | checking job hwork => exact hsettled (by simp [hwork])
  | submitting job hwork => exact hsettled (by simp [hwork])

theorem sales_checked (c : Checkout) (result : Except Fault Eligibility) :
    ((c.checked result).2.map Deed.posted).filterMap Deed.sale? = [] := by
  rcases result with fault | details | reason
  · exact Deed.filterMap_sale?_post_eq_nil c.line (by simp)
  · rfl
  · rfl

section Work

variable {price : Option Amount} {world world' : σ} {asked : List Call}

theorem Honest.awaitCheck (h : Honest env story (c.begun env price world))
    {job next : Job Eligibility} (hnow : c.workNow env price world = some (.check job))
    (hjob : job.resume env world = (.pending next, asked, world'))
    (hphase : c.state.phase = .checkingEligibility) (halone : ¬ InFlight story)
    (hasked : ∀ call ∈ asked, ¬ call.IsSend) (hnext : next.Within (¬ ·.IsSend) fun _ => True) :
    Honest env (story ++ [workScene env price c world]) (c.advance env price world).1 := by
  have hdeeds : (workScene env price c world).deeds = asked.map .asked := by
    simp [workScene, workDeeds, hnow, hjob]
  have hadvance : (c.advance env price world).1 = { c with work := some (.check next) } := by
    simp [advance, hnow, hjob]
  rw [hadvance]
  constructor
  · simp [hphase]
  · refine .checking next rfl hphase (fun hflight => halone (hflight.of_concat ?_)) hnext
    simp [hdeeds, Deed.IsSubmissionTurn]
  · refine h.fair.concat (fair_of_plain ?_ ?_ ?_ ?_ env c.setup story)
    · simp [hdeeds]
    · intro wallet tx hsend
      exact hasked (.send wallet tx) (by simpa [hdeeds] using hsend) trivial
    · simp [hdeeds]
    · exact Scene.sales_of_asked hdeeds

theorem Honest.endCheck (h : Honest env story (c.begun env price world)) {job : Job Eligibility}
    {result : Except Fault Eligibility} (hnow : c.workNow env price world = some (.check job))
    (hjob : job.resume env world = (.finished result, asked, world')) (halone : ¬ InFlight story)
    (hasked : ∀ call ∈ asked, ¬ call.IsSend) :
    Honest env (story ++ [workScene env price c world]) (c.advance env price world).1 := by
  have hdeeds : (workScene env price c world).deeds =
      asked.map .asked ++ .endedCheck result :: (c.checked result).2.map .posted := by
    simp [workScene, workDeeds, hnow, hjob]
  have hadvance : (c.advance env price world).1 = (c.checked result).1 := by
    simp [advance, hnow, hjob]
  have hlatest : Latest Deed.IsVerdict (deedsOf (story ++ [workScene env price c world]))
      (.endedCheck result) := by
    have hended : Latest Deed.IsVerdict
        ((deedsOf story ++ asked.map .asked) ++ [.endedCheck result]) (.endedCheck result) :=
      latest_concat _ trivial
    have hposted : ∀ deed ∈ (c.checked result).2.map Deed.posted, ¬ deed.IsVerdict := by
      simp [Deed.IsVerdict]
    simpa [hdeeds] using hended.append hposted
  have hidle : Busy env (story ++ [workScene env price c world]) (c.checked result).1 := by
    refine .idle ?_ (fun hflight => halone (hflight.of_concat ?_)) ?_
    · rcases result with fault | details | reason <;> rfl
    · simp [hdeeds, Deed.IsSubmissionTurn, or_imp, forall_and]
    · rcases result with fault | details | reason <;> simp [checked, PurchaseState.broken]
  rw [hadvance]
  refine ⟨?_, hidle, ?_⟩
  · rcases result with fault | details | reason
    · simp [checked, PurchaseState.broken]
    · exact fun _ => ⟨details, rfl, hlatest⟩
    · simp [checked]
  · rw [(checked_keeps c result).setup_eq]
    refine h.fair.concat (fair_of_plain ?_ ?_ ?_ ?_ env c.setup story)
    · simp [hdeeds]
    · intro wallet tx hsend
      exact hasked (.send wallet tx) (by simpa [hdeeds] using hsend) trivial
    · simp [hdeeds]
    · rw [Scene.sales_of_ended hdeeds rfl, sales_checked]

/-- A scene of a submission is fair if it serves the submission's purchase. -/
theorem fair_of_submission (x : Submission env setup story)
    (hbegan : ∀ account price, .beganSubmission account price ∉ s.deeds)
    (hasked : ∀ call, .asked call ∈ s.deeds → Serves setup x.purchase call)
    (htook : ∀ request, .took (.purchase request) ∉ s.deeds)
    (hsold : s.sales = [] ∨ ∃ p txHash, x.Concludes s p txHash) : Fair env setup story s where
  alone account price h := absurd h (hbegan account price)
  ordered account price h := absurd h (hbegan account price)
  sends wallet tx h := by
    obtain ⟨hwallet, p, hp, hbuilds⟩ := hasked _ h wallet tx rfl
    exact ⟨hwallet, x, p, hp, hbuilds⟩
  ignored request h := absurd h (htook request)
  sold := hsold.imp_right fun ⟨p, txHash, hconcludes⟩ => ⟨x, p, txHash, hconcludes⟩

theorem Honest.awaitSubmission (h : Honest env story (c.begun env price world))
    {job next : Job Hash} (hnow : c.workNow env price world = some (.submission job))
    (hjob : job.resume env world = (.pending next, asked, world'))
    (hphase : c.state.phase = .initiatingPurchase) (x : Submission env c.setup story)
    (hto : c.state.purchaseTo = some x.order.destination)
    (hasked : ∀ call ∈ asked, Serves c.setup x.purchase call)
    (hnext : next.Continues (submit c.setup x.purchase) (x.heard ++ job.heard env world)) :
    Honest env (story ++ [workScene env price c world]) (c.advance env price world).1 := by
  have hdeeds : (workScene env price c world).deeds = asked.map .asked := by
    simp [workScene, workDeeds, hnow, hjob]
  have hheard : (workScene env price c world).heard = job.heard env world := by
    simp [workScene, begun, heard, hnow]
  have hadvance : (c.advance env price world).1 = { c with work := some (.submission next) } := by
    simp [advance, hnow, hjob]
  have hquiet : (workScene env price c world).IsQuiet env c.setup.wallet := by
    refine ⟨?_, Scene.sales_of_asked hdeeds, fun request account haccepts => ?_⟩
    · simp [hdeeds, Deed.IsTurn]
    · have htook : .took (.purchase request) ∈ asked.map Deed.asked := by
        rw [← hdeeds, haccepts.deeds_eq]
        exact List.mem_singleton_self _
      simp at htook
  rw [hadvance]
  constructor
  · intro _
    exact h.eligible_concat (.inr hphase) (by simp [hdeeds, Deed.IsVerdict])
  · refine .submitting next rfl hphase (x.extend hquiet) hto ?_
    rw [Submission.extend_purchase, Submission.extend_heard, hheard]
    exact hnext
  · refine h.fair.concat (fair_of_submission x ?_ ?_ ?_ (.inl (Scene.sales_of_asked hdeeds)))
    · simp [hdeeds]
    · intro call hcall
      exact hasked call (by simpa [hdeeds] using hcall)
    · simp [hdeeds]

/-- A purchase that has been sent goes to whom it was ordered for. -/
theorem sold_of_submitted (x : Submission env c.setup story)
    (hto : c.state.purchaseTo = some x.order.destination) {result : Except Fault Hash}
    (hlead : (submit c.setup x.purchase).Leads (x.heard ++ s.heard) (.done result))
    {account : Option Address} (hdeeds : s.deeds =
      asked.map .asked ++ .endedSubmission result :: (c.submitted account result).2.map .posted) :
    s.sales = [] ∨ ∃ p txHash, x.Concludes s p txHash := by
  have hsales := Scene.sales_of_ended hdeeds rfl
  cases result with
  | error fault =>
      refine .inl ?_
      cases fault with
      | userRejected => exact hsales
      | _ =>
          rw [hsales]
          exact Deed.filterMap_sale?_post_eq_nil c.line (by simp)
  | ok txHash =>
      obtain ⟨p, hp, hcompletes⟩ := leads_submit hlead
      rcases Deed.filterMap_sale?_post c.line (.submitted txHash x.order.destination) with
        hnone | ⟨_, _, ⟨⟩, hsale⟩
      · refine .inl (hsales.trans ?_)
        simpa [submitted, hto] using hnone
      · refine .inr ⟨p, txHash, hp, by simp [hdeeds], hcompletes, ?_⟩
        have hdestination : p.purchaseTo = x.order.destination := (purchaseFor_ok hp).2.1
        rw [hsales, hdestination]
        simpa [submitted, hto] using hsale

/-- After a submission a checkout is not busy, and it still knows what its last check has found. -/
theorem submitted_state (c : Checkout) (account : Option Address) (result : Except Fault Hash) :
    (c.submitted account result).1.work = none ∧
      (c.submitted account result).1.state.phase ≠ .initiatingPurchase ∧
      (c.submitted account result).1.state.eligibility = c.state.eligibility := by
  cases result with
  | ok txHash => simp [submitted, PurchaseState.bought]
  | error fault => cases fault <;> simp [submitted, PurchaseState.broken]

theorem Honest.endSubmission (h : Honest env story (c.begun env price world)) {job : Job Hash}
    {result : Except Fault Hash} (hnow : c.workNow env price world = some (.submission job))
    (hjob : job.resume env world = (.finished result, asked, world'))
    (hphase : c.state.phase = .initiatingPurchase) (x : Submission env c.setup story)
    (hto : c.state.purchaseTo = some x.order.destination)
    (hasked : ∀ call ∈ asked, Serves c.setup x.purchase call)
    (hlead : (submit c.setup x.purchase).Leads (x.heard ++ job.heard env world) (.done result)) :
    Honest env (story ++ [workScene env price c world]) (c.advance env price world).1 := by
  let account := env.account world' c.setup.wallet
  have hdeeds : (workScene env price c world).deeds = asked.map .asked ++
      .endedSubmission result :: (c.submitted account result).2.map .posted := by
    simp [workScene, workDeeds, hnow, hjob, account]
  have hheard : (workScene env price c world).heard = job.heard env world := by
    simp [workScene, begun, heard, hnow]
  have hadvance : (c.advance env price world).1 = (c.submitted account result).1 := by
    simp [advance, hnow, hjob, account]
  obtain ⟨hwork, hended, heligibility⟩ := submitted_state c account result
  rw [hadvance]
  constructor
  · intro _
    rw [heligibility]
    apply h.eligible_concat (.inr hphase)
    simp [hdeeds, Deed.IsVerdict, or_imp, forall_and]
  · refine .idle hwork (not_inFlight_of_turn hdeeds trivial (by simp) ?_) fun h => absurd h hended
    simp [Deed.IsSubmissionTurn]
  · rw [(submitted_keeps c account result).setup_eq]
    refine h.fair.concat (fair_of_submission x ?_ ?_ ?_ ?_)
    · simp [hdeeds]
    · intro call hcall
      exact hasked call (by simpa [hdeeds] using hcall)
    · simp [hdeeds]
    · rw [← hheard] at hlead
      exact sold_of_submitted x hto hlead hdeeds

theorem Honest.work (h : Honest env story (c.begun env price world)) :
    Honest env (story ++ [workScene env price c world]) (c.advance env price world).1 := by
  cases h.busy with
  | idle hwork =>
      have hnow : c.workNow env price world = none := hwork
      have hbegun : c.begun env price world = c := begun_of_none hnow
      have hscene : workScene env price c world = ⟨c, world, [], [], c, world⟩ := by
        rw [hbegun] at hwork
        simp [workScene, hbegun, heard, hwork, workDeeds, advance, hnow]
      have hadvance : (c.advance env price world).1 = c := congrArg Scene.after hscene
      rw [hscene, hadvance]
      rw [hbegun] at h
      exact h.rest world
  | checking job hwork hphase halone hwithin =>
      obtain ⟨hnext, hasked⟩ := hwithin.resume env world
      rcases hjob : job.resume env world with ⟨result | next, asked, world'⟩ <;>
        rw [hjob] at hnext hasked
      · exact h.endCheck hwork hjob halone hasked
      · exact h.awaitCheck hwork hjob hphase halone hasked hnext
  | submitting job hwork hphase x hto hcontinues =>
      have hresume := hcontinues.resume (oneByOne_submit _ _) env world
      obtain ⟨-, hasked⟩ := (hcontinues.within (submit_serves _ _)).resume env world
      rcases hjob : job.resume env world with ⟨result | next, asked, world'⟩ <;>
        rw [hjob] at hresume hasked
      · cases hresume with
        | finished hlead => exact h.endSubmission hwork hjob hphase x hto hasked hlead
      · exact h.awaitSubmission hwork hjob hphase x hto hasked hresume.job

end Work

/-! ## Turns and runs -/

theorem Honest.takeAll (h : Honest env story c) (hreported : c.reported = some c.state)
    (commands : List Command) (world : σ) :
    Honest env (story ++ takeScenes env commands c world) (takeAll env commands c world).1 := by
  induction commands generalizing story c world with
  | nil => simpa [takeScenes, Checkout.takeAll] using h
  | cons command commands ih =>
      have htaken := (h.take hreported command world).report (c.take env command world).2
      have hagain : (c.take env command world).1.publish.1.reported =
          some (c.take env command world).1.publish.1.state := by
        rw [publish_eq]
      simpa [takeScenes, Checkout.takeAll] using ih htaken hagain (c.take env command world).2

/-- A checkout that has not ended is honest, and any story is fair. -/
structure Lived (env : Environment σ) (story : List (Scene σ)) (c : Checkout) : Prop where
  honest : c.hasEnded = false → Honest env story c
  fair : Throughout (Fair env c.setup) story

theorem Honest.lived (h : Honest env story c) : Lived env story c :=
  ⟨fun _ => h, h.fair⟩

/-- A checkout that leaves has told its story. -/
theorem Lived.leave (h : Lived env story c) :
    Lived env story { c with hasEnded := true, work := none } :=
  ⟨by simp, h.fair⟩

/-- A turn adds its scenes to the story of a checkout. -/
theorem Lived.turn (h : Lived env story c) (price : Option Amount) (world : σ) :
    Lived env (story ++ c.scenes env price world) (c.turn env price world).1 := by
  unfold scenes Checkout.turn
  by_cases hended : c.hasEnded
  · simpa [hended] using h
  by_cases hstopped : c.line.isStopped
  · simpa [hended, hstopped] using h.leave
  have hreport := (h.honest (by simpa using hended)).report world
  have hready : Honest env (story ++ [reportScene c world])
      { c.publish.1 with commands := c.commands.drop turnLimit } := hreport.congr rfl rfl rfl
  have htaken := hready.takeAll (by simp [publish_eq]) (c.commands.take turnLimit) world
  simp only [hended, hstopped, publish_commands]
  by_cases hfull : c.overruns
  · simpa [hfull, begun] using (htaken.begin price _).lived
  by_cases hclosed : (Checkout.takeAll env (c.commands.take turnLimit)
      { c.publish.1 with commands := c.commands.drop turnLimit } world).1.isClosed
  · simpa [hfull, hclosed] using htaken.lived.leave
  · simpa [hfull, hclosed] using ((htaken.begin price _).work.report _).lived

theorem Lived.congr {d : Checkout} (h : Lived env story c) (hsetup : c.setup = d.setup)
    (hstate : c.state = d.state) (hwork : c.work = d.work) (hended : c.hasEnded = d.hasEnded) :
    Lived env story d where
  honest hgoing := (h.honest (hended.trans hgoing)).congr hsetup hstate hwork
  fair := hsetup ▸ h.fair

theorem Lived.act (h : Lived env story c) (world : σ) (act : Act σ) :
    Lived env (story ++ c.actScenes env world act) (c.act env world act).1 := by
  cases act with
  | turn price => exact h.turn price world
  | tell | close | stop | hangUp | change =>
      change Lived env (story ++ []) _
      rw [List.append_nil]
      exact h.congr rfl rfl rfl rfl

theorem act_setup (env : Environment σ) (c : Checkout) (world : σ) (act : Act σ) :
    (c.act env world act).1.setup = c.setup := by
  cases act with
  | turn price => exact (c.turn_keeps env price world).setup_eq
  | tell | close | stop | hangUp | change => rfl

/-- The story of a run is fair. -/
theorem Lived.run (h : Lived env story c) (world : σ) (acts : List (Act σ)) :
    Throughout (Fair env c.setup) (story ++ c.story env world acts) := by
  induction acts generalizing story c world with
  | nil => simpa [Checkout.story] using h.fair
  | cons act acts ih =>
      have hrest := ih (h.act world act) (c.act env world act).2
      rwa [act_setup, List.append_assoc] at hrest

/-- Every command buys at most once and only for itself. A submission begins when none is in flight,
after a request that was taken up since the last one began or ended. What it sends is the purchase of
that request, with its destination and its token, if it chose one, and a request that is not taken
up changes nothing. -/
theorem story_buysOnce (env : Environment σ) (setup : Setup) (generation : Nat) (world : σ)
    (acts : List (Act σ)) :
    Throughout (fun earlier s =>
      (∀ account price, .beganSubmission account price ∈ s.deeds →
        ¬ InFlight earlier ∧ ∃ x : Submission env setup (earlier ++ [s]), x.since = []) ∧
      (∀ wallet tx, .asked (.send wallet tx) ∈ s.deeds → wallet = setup.wallet ∧
        ∃ (x : Submission env setup earlier) (p : Purchase), x.purchase = .ok p ∧
          p.Builds setup.kind tx ∧ p.purchaseTo = x.order.destination ∧
          p.selectedToken = x.order.chosenToken.or x.details.firstToken) ∧
      ∀ request, .took (.purchase request) ∈ s.deeds →
        (∃ account, s.Accepts env setup.wallet request account) ∨ s.IsIdle)
      ((fresh setup generation).story env world acts) := by
  have hlived : Lived env [] (fresh setup generation) :=
    (honest_fresh env setup generation).lived
  have hfair := hlived.run world acts
  rw [List.nil_append] at hfair
  intro earlier s later hs
  obtain ⟨halone, hordered, hsends, hignored, -⟩ := hfair earlier s later hs
  refine ⟨fun account price hbegan => ?_, fun wallet tx hsend => ?_, hignored⟩
  · exact ⟨halone account price hbegan, hordered account price hbegan⟩
  · obtain ⟨hwallet, x, p, hp, hbuilds⟩ := hsends wallet tx hsend
    obtain ⟨-, hto, htoken⟩ := purchaseFor_ok hp
    exact ⟨hwallet, x, p, hp, hbuilds, hto, htoken⟩

end Checkout

end MintSale
