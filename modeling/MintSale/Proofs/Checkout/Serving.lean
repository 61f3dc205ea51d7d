import MintSale.Proofs.Checkout.Buying
import MintSale.Proofs.Checkout.Reporting

/-!
# How checkouts serve requests

A request that is taken up begins its own submission before anything else happens, unless a reset
comes first. While a purchase is being initiated there is a request that has been taken up, and a
checkout that has admitted its wallet only checks it again after a reset.
-/

namespace MintSale

open History

variable {σ : Type}

/-- The command that is taken. -/
def Deed.command? : Deed → Option Command
  | .took command => some command
  | _ => none

/-- The commands that are taken in a story. -/
def commandsOf (story : List (Scene σ)) : List Command :=
  (deedsOf story).filterMap Deed.command?

@[simp] theorem commandsOf_append (first second : List (Scene σ)) :
    commandsOf (first ++ second) = commandsOf first ++ commandsOf second := by
  simp [commandsOf]

theorem reset_mem_commandsOf {story : List (Scene σ)} :
    .reset ∈ commandsOf story ↔ .took .reset ∈ deedsOf story := by
  refine List.mem_filterMap.trans ⟨?_, fun h => ⟨_, h, rfl⟩⟩
  rintro ⟨deed, hdeed, htook⟩
  cases deed with
  | took command =>
      obtain rfl := Option.some.inj htook
      exact hdeed
  | beganCheck | endedCheck | beganSubmission | endedSubmission | asked | posted =>
      simp [Deed.command?] at htook

namespace Scene

variable {env : Environment σ} {wallet : WalletClient} {s : Scene σ} {later : List (Scene σ)}

/-- The submission of a request that a scene takes up begins in another one, with all that the
request has left behind. -/
def BeginsFor (s next : Scene σ) : Prop :=
  next.before.state = s.after.state ∧ ∃ account price, next.deeds = [.beganSubmission account price]

/-- After a scene nothing happens that matters until another one of some kind. -/
def LeadsTo (env : Environment σ) (wallet : WalletClient) (kind : Scene σ → Prop)
    (later : List (Scene σ)) : Prop :=
  ∃ waiting next rest, later = waiting ++ next :: rest ∧ (∀ t ∈ waiting, t.IsQuiet env wallet) ∧
    kind next

/-- The next thing that happens after a request has been taken up is that its submission begins. -/
def IsSubmitted (env : Environment σ) (wallet : WalletClient) (s : Scene σ)
    (later : List (Scene σ)) : Prop :=
  LeadsTo env wallet s.BeginsFor later

/-- The same, unless a reset comes first. -/
def IsFollowedUp (env : Environment σ) (wallet : WalletClient) (s : Scene σ)
    (later : List (Scene σ)) : Prop :=
  LeadsTo env wallet (fun next => s.BeginsFor next ∨ next.deeds = [.took .reset]) later

theorem LeadsTo.append {kind : Scene σ → Prop} (h : LeadsTo env wallet kind later)
    (more : List (Scene σ)) : LeadsTo env wallet kind (later ++ more) := by
  obtain ⟨waiting, next, rest, rfl, hquiet, hnext⟩ := h
  exact ⟨waiting, next, rest ++ more, by simp, hquiet, hnext⟩

theorem IsFollowedUp.isSubmitted (h : s.IsFollowedUp env wallet later)
    (hreset : .reset ∉ commandsOf later) : s.IsSubmitted env wallet later := by
  obtain ⟨waiting, next, rest, rfl, hquiet, hbegins | hdeeds⟩ := h
  · exact ⟨waiting, next, rest, rfl, hquiet, hbegins⟩
  · rw [reset_mem_commandsOf] at hreset
    simp [hdeeds] at hreset

end Scene

/-- A request has been taken up, and the checkout has been at its purchase ever since. -/
def Checkout.InHand (env : Environment σ) (wallet : WalletClient) (story : List (Scene σ)) :
    Prop :=
  ∃ earlier s since, story = earlier ++ s :: since ∧
    (∃ request account, s.Accepts env wallet request account) ∧
    ∀ t ∈ since, t.before.state.phase = .initiatingPurchase

/-- `P` holds of every request that is taken up in a story, given all scenes after it. -/
def Checkout.EachTakenUp (env : Environment σ) (wallet : WalletClient)
    (P : Scene σ → List (Scene σ) → Prop) (story : List (Scene σ)) : Prop :=
  ∀ earlier s later, story = earlier ++ s :: later → ∀ request account,
    s.Accepts env wallet request account → P s later

namespace Checkout

variable {env : Environment σ} {price : Option Amount} {wallet : WalletClient}
  {story later : List (Scene σ)} {s x : Scene σ} {c : Checkout} {world : σ}

/-! ## What a turn takes -/

theorem takeDeeds_commands (commands : List Command) (c : Checkout) (world : σ) :
    (takeDeeds env commands c world).filterMap Deed.command? = commands := by
  induction commands generalizing c world with
  | nil => rfl
  | cons command commands ih =>
      simp [takeDeeds, Deed.command?, List.filterMap_map, ih]

theorem beginDeeds_commands (c : Checkout) (world : σ) :
    (beginDeeds env price c world).filterMap Deed.command? = [] := by
  unfold beginDeeds
  split <;> rfl

theorem workDeeds_commands (c : Checkout) (world : σ) :
    (workDeeds env price c world).filterMap Deed.command? = [] := by
  unfold workDeeds
  cases c.workNow env price world with
  | none => rfl
  | some work =>
      cases work with
      | check job =>
          rcases hjob : job.resume env world with ⟨result | next, asked, world'⟩ <;>
            simp [hjob, List.filterMap_cons, List.filterMap_map, Deed.command?]
      | submission job =>
          rcases hjob : job.resume env world with ⟨result | next, asked, world'⟩ <;>
            simp [hjob, List.filterMap_cons, List.filterMap_map, Deed.command?]

/-- A turn takes the commands that fit into it, in order. -/
theorem commandsOf_scenes (hended : c.hasEnded = false) (hstopped : c.line.isStopped = false)
    (world : σ) : commandsOf (c.scenes env price world) = c.commands.take turnLimit := by
  have hposted (messages : List Message) :
      (messages.map Deed.posted).filterMap Deed.command? = [] := by
    simp [List.filterMap_map, Deed.command?]
  rw [commandsOf, deedsOf_scenes, deeds]
  simp only [hended, hstopped, Bool.or_self, Bool.false_eq_true, if_false]
  by_cases hfull : c.overruns
  · simp [hfull, hposted, takeDeeds_commands, beginDeeds_commands]
  by_cases hclosed : (takeAll env (c.commands.take turnLimit)
      { c.publish.1 with commands := c.commands.drop turnLimit } world).1.isClosed
  · simp [hfull, hclosed, hposted, takeDeeds_commands]
  · simp [hfull, hclosed, hposted, takeDeeds_commands, beginDeeds_commands, workDeeds_commands]

theorem take_commands (c : Checkout) (command : Command) (world : σ) :
    (c.take env command world).1.commands = c.commands := by
  cases command with
  | reset => rfl
  | purchase request =>
      rw [take]
      split
      · split <;> rfl
      · rfl

theorem takeAll_commands (commands : List Command) (c : Checkout) (world : σ) :
    (takeAll env commands c world).1.commands = c.commands := by
  induction commands generalizing c world with
  | nil => rfl
  | cons command commands ih => simp [takeAll, ih, take_commands]

theorem checked_commands (c : Checkout) (result : Except Fault Eligibility) :
    (c.checked result).1.commands = c.commands := by
  rcases result with fault | details | reason <;> rfl

theorem submitted_commands (c : Checkout) (account : Option Address) (result : Except Fault Hash) :
    (c.submitted account result).1.commands = c.commands := by
  rcases result with fault | txHash
  · cases fault <;> rfl
  · rfl

theorem advance_commands (c : Checkout) (world : σ) :
    (c.advance env price world).1.commands = c.commands := by
  unfold advance
  cases c.workNow env price world with
  | none => rfl
  | some work =>
      cases work with
      | check job =>
          rcases hjob : job.resume env world with ⟨result | next, asked, world'⟩ <;>
            simp [hjob, checked_commands]
      | submission job =>
          rcases hjob : job.resume env world with ⟨result | next, asked, world'⟩ <;>
            simp [hjob, submitted_commands]

/-- The commands that do not fit into a turn are left. -/
theorem turn_commands (hended : c.hasEnded = false) (hstopped : c.line.isStopped = false)
    (world : σ) : (c.turn env price world).1.commands = c.commands.drop turnLimit := by
  unfold turn
  simp only [hended, hstopped, publish_commands]
  by_cases hfull : c.overruns
  · simp [hfull, takeAll_commands]
  by_cases hclosed : (takeAll env (c.commands.take turnLimit)
      { c.publish.1 with commands := c.commands.drop turnLimit } world).1.isClosed
  · simp [hfull, hclosed, takeAll_commands]
  · simp [hfull, hclosed, takeAll_commands, advance_commands]

/-! ## What a scene leaves behind -/

theorem Staged.inPhase (h : Staged env price s) (hphase : s.before.IsInPhase) :
    s.after.IsInPhase := by
  cases h with
  | report c world => simpa [reportScene, publish_eq, IsInPhase] using hphase
  | take command c world =>
      cases command with
      | reset => simp [takeScene, Checkout.take, IsInPhase]
      | purchase request =>
          simp only [takeScene, Checkout.take] at hphase ⊢
          split
          · next hready =>
            split
            · simp [IsInPhase, hphase.work_of_ready hready]
            · exact hphase
          · exact hphase
  | rest => exact hphase
  | beginCheck c world hchecking =>
      rintro work ⟨⟩
      exact hchecking
  | beginSubmission c world hinitiating =>
      rintro work ⟨⟩
      exact hinitiating
  | awaitCheck hwork =>
      have hchecking := hphase _ hwork
      rintro work ⟨⟩
      exact hchecking
  | awaitSubmission hwork =>
      have hinitiating := hphase _ hwork
      rintro work ⟨⟩
      exact hinitiating
  | endCheck => simp [IsInPhase, (checked_unreported _ _).2.1]
  | endSubmission => simp [IsInPhase, (submitted_unreported _ _ _).2.1]

/-- A purchase is only initiated by a request that is taken up. -/
theorem Staged.initiating (h : Staged env price s)
    (hafter : s.after.state.phase = .initiatingPurchase) :
    s.before.state.phase = .initiatingPurchase ∨
      ∃ request account, s.Accepts env s.before.setup.wallet request account := by
  cases h with
  | report c world => exact .inl (by simpa [reportScene, publish_eq] using hafter)
  | take command c world =>
      cases command with
      | reset => simp [takeScene, Checkout.take, PurchaseState.initial] at hafter
      | purchase request =>
          by_cases hready : c.state.phase = .readyForPurchase
          · cases haccount : env.account world c.setup.wallet with
            | none => simp [takeScene, Checkout.take, hready, haccount] at hafter
            | some account => exact .inr ⟨request, account, rfl, hready, haccount⟩
          · exact .inl (by simpa [takeScene, Checkout.take, hready] using hafter)
  | @endCheck c world world' job asked result =>
      rcases result with fault | details | reason <;>
        simp [checked, PurchaseState.broken] at hafter
  | endSubmission => exact absurd hafter (submitted_state _ _ _).2.1
  | rest | beginCheck | beginSubmission | awaitCheck | awaitSubmission => exact .inl hafter

/-- Who has been admitted is only checked again after a reset. -/
theorem Staged.isAdmitted (h : Staged env price s) (hphase : s.before.IsInPhase)
    (hadmitted : s.before.state.phase.IsAdmitted) (hreset : .took .reset ∉ s.deeds) :
    s.after.state.phase.IsAdmitted := by
  cases h with
  | report c world => simpa [reportScene, publish_eq] using hadmitted
  | take command c world =>
      cases command with
      | reset => simp [takeScene] at hreset
      | purchase request =>
          simp only [takeScene, Checkout.take] at hadmitted ⊢
          split
          · split
            · simp [PurchaseState.begin, PurchasePhase.IsAdmitted]
            · exact hadmitted
          · exact hadmitted
  | endCheck hwork => exact absurd (hphase _ hwork) hadmitted.1
  | @endSubmission c world world' job asked result hwork =>
      rcases result with fault | txHash
      · cases fault <;> simp [submitted, PurchaseState.broken, PurchasePhase.IsAdmitted]
      · simp [submitted, PurchaseState.bought, PurchasePhase.IsAdmitted]
  | rest | beginCheck | beginSubmission | awaitCheck | awaitSubmission => exact hadmitted

theorem InHand.concat (h : InHand env wallet story)
    (hs : s.before.state.phase = .initiatingPurchase) : InHand env wallet (story ++ [s]) := by
  obtain ⟨earlier, first, since, rfl, haccepts, hsince⟩ := h
  refine ⟨earlier, first, since ++ [s], by simp, haccepts, ?_⟩
  intro t ht
  rcases List.mem_append.mp ht with ht | ht
  · exact hsince t ht
  · rwa [List.mem_singleton.mp ht]

/-! ## Requests that are taken up -/

/-- The submission for a request that was taken up is due. -/
structure IsDue (env : Environment σ) (wallet : WalletClient) (s : Scene σ)
    (later : List (Scene σ)) (c : Checkout) : Prop where
  quiet : ∀ t ∈ later, t.IsQuiet env wallet
  state_eq : c.state = s.after.state
  phase_eq : c.state.phase = .initiatingPurchase
  work_eq : c.work = none

theorem IsDue.wait (h : IsDue env wallet s later c) (hx : x.IsQuiet env wallet) {d : Checkout}
    (hstate : d.state = c.state) (hwork : d.work = c.work) :
    IsDue env wallet s (later ++ [x]) d where
  quiet := List.forall_mem_append.mpr ⟨h.quiet, List.forall_mem_singleton.mpr hx⟩
  state_eq := hstate.trans h.state_eq
  phase_eq := hstate ▸ h.phase_eq
  work_eq := hwork.trans h.work_eq

theorem reportScene_isQuiet (env : Environment σ) (wallet : WalletClient) (c : Checkout)
    (world : σ) : (reportScene c world).IsQuiet env wallet := by
  refine ⟨by simp [reportScene, Deed.IsTurn], sales_reportScene c world, fun request _ h => ?_⟩
  have htook : .took (.purchase request) ∈ (reportScene c world).deeds := by simp [h.deeds_eq]
  simp [reportScene] at htook

/-- A submission that is due begins, or waits for nothing but what makes no difference. -/
theorem IsDue.scene (h : IsDue env wallet s later x.before) (hx : Staged env price x) :
    s.IsFollowedUp env wallet (later ++ [x]) ∨ IsDue env wallet s (later ++ [x]) x.after := by
  cases hx with
  | report c world =>
      refine .inr (h.wait (reportScene_isQuiet env wallet c world) ?_ ?_) <;>
        simp [reportScene, publish_eq]
  | take command c world =>
      cases command with
      | reset => exact .inl ⟨later, _, [], rfl, h.quiet, .inr rfl⟩
      | purchase request =>
          have hinitiating : c.state.phase = .initiatingPurchase := h.phase_eq
          have hquiet : (takeScene env (.purchase request) c world).IsQuiet env wallet := by
            refine ⟨by simp [takeScene, Deed.IsTurn], rfl, fun other account haccepts => ?_⟩
            have hready : c.state.phase = .readyForPurchase := haccepts.phase_eq
            simp [hinitiating] at hready
          refine .inr (h.wait hquiet ?_ ?_) <;> simp [takeScene, Checkout.take, hinitiating]
  | rest c world =>
      have hquiet : (⟨c, world, [], [], c, world⟩ : Scene σ).IsQuiet env wallet :=
        ⟨by simp, rfl, fun request account haccepts => by simpa using haccepts.deeds_eq⟩
      exact .inr (h.wait hquiet rfl rfl)
  | beginCheck c world hphase =>
      have hinitiating : c.state.phase = .initiatingPurchase := h.phase_eq
      simp [hphase] at hinitiating
  | beginSubmission c world =>
      exact .inl ⟨later, _, [], rfl, h.quiet, .inl ⟨h.state_eq, _, _, rfl⟩⟩
  | awaitCheck hwork | endCheck hwork | awaitSubmission hwork | endSubmission hwork =>
      exact absurd (h.work_eq.symm.trans hwork) (by simp)

theorem EachTakenUp.mono {P Q : Scene σ → List (Scene σ) → Prop}
    (h : EachTakenUp env wallet P story) (himp : ∀ s later, P s later → Q s later) :
    EachTakenUp env wallet Q story :=
  fun earlier s later hstory request account haccepts =>
    himp s later (h earlier s later hstory request account haccepts)

/-- Within a turn, the requests that were taken up have begun their submissions, or these are
due. -/
structure Attending (env : Environment σ) (story : List (Scene σ)) (c : Checkout) : Prop where
  inPhase : c.IsInPhase
  inHand : c.state.phase = .initiatingPurchase → InHand env c.setup.wallet story
  busy : Throughout (fun earlier s => s.before.state.phase = .initiatingPurchase →
    InHand env c.setup.wallet earlier) story
  prompt : EachTakenUp env c.setup.wallet (fun s later =>
    s.IsFollowedUp env c.setup.wallet later ∨ IsDue env c.setup.wallet s later c) story

/-- The submission for a request is due as soon as the request has been taken up. -/
theorem isDue_of_accepts (hx : Staged env price x) (hphase : x.before.IsInPhase)
    {request : PurchaseRequest} {account : Address}
    (h : x.Accepts env x.before.setup.wallet request account) :
    IsDue env wallet x [] x.after := by
  cases hx with
  | take command c world =>
      obtain rfl : command = .purchase request := by simpa [takeScene] using h.deeds_eq
      have hready : c.state.phase = .readyForPurchase := h.phase_eq
      have haccount : env.account world c.setup.wallet = some account := h.account_eq
      have hwork := hphase.work_of_ready hready
      constructor
      · simp
      · rfl
      · simp [takeScene, Checkout.take, hready, haccount, PurchaseState.begin]
      · simpa [takeScene, Checkout.take, hready, haccount] using hwork
  | report c world =>
      have htook : .took (.purchase request) ∈ (reportScene c world).deeds := by simp [h.deeds_eq]
      simp [reportScene] at htook
  | awaitCheck | awaitSubmission =>
      have htook := List.mem_singleton_self (Deed.took (.purchase request))
      rw [← h.deeds_eq] at htook
      simp at htook
  | endCheck | endSubmission =>
      have htook := List.mem_singleton_self (Deed.took (.purchase request))
      rw [← h.deeds_eq] at htook
      simp at htook
  | rest | beginCheck | beginSubmission => simpa using h.deeds_eq

theorem Attending.scene (h : Attending env story x.before) (hx : Staged env price x) :
    Attending env (story ++ [x]) x.after := by
  have hinPhase := hx.inPhase h.inPhase
  constructor
  · exact hinPhase
  · intro hafter
    rw [hx.setup_eq]
    rcases hx.initiating hafter with hbefore | haccepts
    · exact (h.inHand hbefore).concat hbefore
    · exact ⟨story, x, [], rfl, haccepts, by simp⟩
  · rw [hx.setup_eq]
    exact h.busy.concat h.inHand
  · rw [hx.setup_eq]
    intro earlier s later hstory request account haccepts
    rcases List.eq_nil_or_concat later with rfl | ⟨later, last, rfl⟩
    · obtain ⟨rfl, rfl⟩ : story = earlier ∧ x = s := by
        simpa using List.append_inj' hstory rfl
      exact .inr (isDue_of_accepts hx h.inPhase haccepts)
    · have hsplit : story ++ [x] = (earlier ++ s :: later) ++ [last] := by simp [hstory]
      obtain ⟨rfl, rfl⟩ : story = earlier ++ s :: later ∧ x = last := by
        simpa using List.append_inj' hsplit rfl
      rw [List.concat_eq_append]
      rcases h.prompt earlier s later rfl request account haccepts with hfollowed | hdue
      · exact .inl (hfollowed.append [x])
      · exact hdue.scene hx

/-! ## Turns -/

theorem phase_of_workNow (h : c.workNow env price world = none) :
    c.state.phase ≠ .initiatingPurchase := by
  unfold workNow at h
  split at h
  · simp at h
  · simp at h
  · next hother => exact fun hphase => hother hphase h

theorem advance_settled (h : (c.advance env price world).1.work = none) :
    (c.advance env price world).1.state.phase ≠ .initiatingPurchase := by
  unfold advance at h ⊢
  cases hnow : c.workNow env price world with
  | none => simpa [hnow] using phase_of_workNow hnow
  | some work =>
      cases work with
      | check job =>
          rcases hjob : job.resume env world with ⟨result | next, asked, world'⟩
          · rcases result with fault | details | reason <;>
              simp [hjob, checked, PurchaseState.broken]
          · simp [hnow, hjob] at h
      | submission job =>
          rcases hjob : job.resume env world with ⟨result | next, asked, world'⟩
          · simpa [hnow, hjob] using (submitted_state c _ result).2.1
          · simp [hnow, hjob] at h

theorem takeAll_isClosed (commands : List Command) (c : Checkout) (world : σ) :
    (takeAll env commands c world).1.isClosed = c.isClosed := by
  induction commands generalizing c world with
  | nil => rfl
  | cons command commands ih =>
      have htaken : (c.take env command world).1.isClosed = c.isClosed :=
        (take_keeps c command world).isClosed_eq
      simp [takeAll, ih, publish_eq, htaken]

/-- At the end of a turn no submission is due. -/
theorem turn_settled (hended : c.hasEnded = false) (hstopped : c.line.isStopped = false)
    (hclosed : c.isClosed = false) (hwork : (c.turn env price world).1.work = none) :
    (c.turn env price world).1.state.phase ≠ .initiatingPurchase := by
  have hopen : c.publish.1.isClosed = false := (publish_keeps c).isClosed_eq.trans hclosed
  unfold turn at hwork ⊢
  simp only [hended, hstopped, publish_commands] at hwork ⊢
  by_cases hfull : c.overruns
  · simp only [hfull, Bool.false_eq_true, if_false, if_true] at hwork ⊢
    exact phase_of_workNow hwork
  · simp only [hfull, takeAll_isClosed, hopen, Bool.false_eq_true, if_false] at hwork ⊢
    rw [publish_eq] at hwork ⊢
    exact advance_settled hwork

/-- Between turns, all requests that were taken up have begun their submissions. -/
structure Attended (env : Environment σ) (story : List (Scene σ)) (c : Checkout) : Prop where
  isClosed_eq : c.isClosed = false
  attending : Attending env story c
  prompt : EachTakenUp env c.setup.wallet
    (fun s later => s.IsFollowedUp env c.setup.wallet later) story

theorem attended_fresh (env : Environment σ) (setup : Setup) (generation : Nat) :
    Attended env [] (fresh setup generation) where
  isClosed_eq := rfl
  attending := {
    inPhase := by simp [IsInPhase, fresh]
    inHand := by simp [fresh, PurchaseState.initial]
    busy := throughout_nil _
    prompt := by simp [EachTakenUp] }
  prompt := by simp [EachTakenUp]

/-- Only the setup, the state and the work of a checkout count. -/
theorem Attending.congr {d : Checkout} (h : Attending env story c) (hsetup : d.setup = c.setup)
    (hstate : d.state = c.state) (hwork : d.work = c.work) : Attending env story d where
  inPhase := by simpa [IsInPhase, hstate, hwork] using h.inPhase
  inHand := by simpa [hsetup, hstate] using h.inHand
  busy := by simpa [hsetup] using h.busy
  prompt := by
    rw [hsetup]
    refine h.prompt.mono fun s later => Or.imp_right fun hdue => ?_
    exact ⟨hdue.quiet, hstate.trans hdue.state_eq, hstate ▸ hdue.phase_eq,
      hwork.trans hdue.work_eq⟩

theorem Attending.leave (h : Attending env story c) :
    Attending env story { c with hasEnded := true, work := none } where
  inPhase := by simp [IsInPhase]
  inHand := h.inHand
  busy := h.busy
  prompt := h.prompt.mono fun _ _ => Or.imp_right fun hdue => { hdue with work_eq := rfl }

theorem Attended.turn (h : Attended env story c) (price : Option Amount) (world : σ) :
    Attended env (story ++ c.scenes env price world) (c.turn env price world).1 := by
  have hkeeps := c.turn_keeps env price world
  have hattending : Attending env (story ++ c.scenes env price world) (c.turn env price world).1 :=
    scenes_invariant (P := Attending env) (fun h hx => h.scene hx) (fun _ h => h.congr rfl rfl rfl)
      (fun h => h.leave) h.attending world
  refine ⟨hkeeps.isClosed_eq.trans h.isClosed_eq, hattending, ?_⟩
  by_cases hgone : c.line.isStopped = true ∨ c.hasEnded = true
  · rw [scenes_of_gone hgone, List.append_nil, hkeeps.setup_eq]
    exact h.prompt
  · obtain ⟨hstopped, hended⟩ : c.line.isStopped = false ∧ c.hasEnded = false := by
      simpa using hgone
    refine hattending.prompt.mono fun s later => ?_
    rintro (hfollowed | hdue)
    · exact hfollowed
    · exact absurd hdue.phase_eq (turn_settled hended hstopped h.isClosed_eq hdue.work_eq)

/-- In a story without a reset a wallet that has been admitted stays so. -/
def StaysAdmitted (story : List (Scene σ)) (c : Checkout) : Prop :=
  .reset ∉ commandsOf story →
    c.state.phase.IsAdmitted ∧ ∀ s ∈ story, s.before.state.phase.IsAdmitted

theorem scenes_staysAdmitted (env : Environment σ) (price : Option Amount) (hphase : c.IsInPhase)
    (hadmitted : c.state.phase.IsAdmitted) (world : σ) : (c.turn env price world).1.IsInPhase ∧
      StaysAdmitted (c.scenes env price world) (c.turn env price world).1 := by
  have hfirst : c.IsInPhase ∧ StaysAdmitted ([] : List (Scene σ)) c :=
    ⟨hphase, fun _ => ⟨hadmitted, by simp⟩⟩
  refine scenes_invariant (P := fun story d => d.IsInPhase ∧ StaysAdmitted story d) ?_
    (fun _ h => h) (fun h => ⟨by simp [IsInPhase], h.2⟩) hfirst world
  rintro story s ⟨hinPhase, hstory⟩ hs
  refine ⟨hs.inPhase hinPhase, fun hno => ?_⟩
  rw [commandsOf_append, List.mem_append, not_or] at hno
  obtain ⟨hbefore, hearlier⟩ := hstory hno.1
  have hreset : .took .reset ∉ s.deeds := by
    have hscene : .took .reset ∉ deedsOf [s] := fun h => hno.2 (reset_mem_commandsOf.mpr h)
    simpa using hscene
  refine ⟨hs.isAdmitted hinPhase hbefore hreset, fun t ht => ?_⟩
  rcases List.mem_append.mp ht with ht | ht
  · exact hearlier t ht
  · rwa [List.mem_singleton.mp ht]

/-! ## How requests are received -/

/-- How a request is received by a checkout that is past its check: its own submission begins,
unless the checkout is busy with another request that was taken up, something has failed, or the
wallet has no account. -/
inductive Received (env : Environment σ) (wallet : WalletClient) (earlier : List (Scene σ))
    (s : Scene σ) (later : List (Scene σ)) (request : PurchaseRequest) : Prop where
  | begins (account : Address) (haccepts : s.Accepts env wallet request account)
      (hsubmitted : s.IsSubmitted env wallet later)
  | busy (hphase : s.before.state.phase = .initiatingPurchase) (hinHand : InHand env wallet earlier)
  | failed (hphase : s.before.state.phase = .error)
  | noAccount (hphase : s.before.state.phase = .readyForPurchase)
      (haccount : env.account s.worldBefore wallet = none)

/-- A checkout that is past its check receives a request in one of these ways. -/
theorem Attended.received {earlier : List (Scene σ)} (h : Attended env (earlier ++ s :: later) c)
    (hs : Staged env price s) (hadmitted : s.before.state.phase.IsAdmitted)
    (hreset : .reset ∉ commandsOf later) {request : PurchaseRequest}
    (htook : .took (.purchase request) ∈ s.deeds) :
    Received env c.setup.wallet earlier s later request := by
  cases hphase : s.before.state.phase with
  | checkingEligibility => exact absurd hphase hadmitted.1
  | userIneligible => exact absurd hphase hadmitted.2
  | error => exact .failed hphase
  | initiatingPurchase => exact .busy hphase (h.attending.busy _ s _ rfl hphase)
  | readyForPurchase =>
      cases haccount : env.account s.worldBefore c.setup.wallet with
      | none => exact .noAccount hphase haccount
      | some account =>
          have hdeeds : s.deeds = [.took (.purchase request)] := by
            cases hs with
            | take command d world =>
                obtain rfl : .purchase request = command := by simpa [takeScene] using htook
                rfl
            | _ => simp [reportScene] at htook
          have haccepts : s.Accepts env c.setup.wallet request account := ⟨hdeeds, hphase, haccount⟩
          exact .begins account haccepts
            ((h.prompt _ s _ rfl request account haccepts).isSubmitted hreset)

end Checkout

end MintSale
