import MintSale.Proofs.Checkout.Submission

/-!
# Fairness of a checkout

What a checkout is busy with follows from its story. While it goes by that, each of its scenes is
fair to those who give the commands and to those who hear of the purchases. Taking a command and
reporting keep to it.
-/

namespace MintSale

open History

/-- Whether a deed begins or ends a submission, or gives it up. -/
def Deed.IsSubmissionTurn : Deed → Prop
  | .took .reset | .beganSubmission .. | .endedSubmission _ => True
  | _ => False

theorem Deed.isTurn_of_isSubmissionTurn {deed : Deed} (h : deed.IsSubmissionTurn) :
    deed.IsTurn := by
  cases deed with
  | took command => cases command <;> exact h
  | beganSubmission | endedSubmission => trivial
  | beganCheck | endedCheck | asked | posted => exact h.elim

theorem Deed.isTurn_of_isVerdict {deed : Deed} (h : deed.IsVerdict) : deed.IsTurn := by
  cases deed with
  | took command => cases command <;> exact h
  | endedCheck => trivial
  | beganCheck | beganSubmission | endedSubmission | asked | posted => exact h.elim

namespace Checkout

variable {σ : Type} {env : Environment σ} {setup : Setup} {story : List (Scene σ)} {s : Scene σ}
  {c : Checkout}

/-! ## Submissions in flight -/

/-- A submission has begun and has neither ended since nor been given up. -/
def InFlight (story : List (Scene σ)) : Prop :=
  ∃ account price, Latest Deed.IsSubmissionTurn (deedsOf story) (.beganSubmission account price)

theorem InFlight.of_concat (h : InFlight (story ++ [s]))
    (hs : ∀ deed ∈ s.deeds, ¬ deed.IsSubmissionTurn) : InFlight story := by
  obtain ⟨account, price, hlatest⟩ := h
  refine ⟨account, price, Latest.of_append ?_ hs⟩
  simpa using hlatest

/-- Nothing is in flight when the latest turn of a submission is not its beginning. -/
theorem not_inFlight_of_turn {first last : List Deed} {deed : Deed}
    (hdeeds : s.deeds = first ++ deed :: last) (hturn : deed.IsSubmissionTurn)
    (hdeed : ∀ account price, deed ≠ .beganSubmission account price)
    (hlast : ∀ deed ∈ last, ¬ deed.IsSubmissionTurn) : ¬ InFlight (story ++ [s]) := by
  rintro ⟨account, price, hlatest⟩
  have hsplit : deedsOf (story ++ [s]) = (deedsOf story ++ first) ++ [deed] ++ last := by
    simp [hdeeds]
  rw [hsplit] at hlatest
  exact hdeed account price ((hlatest.of_append hlast).eq_of_concat hturn).symm

/-! ## Fairness -/

/-- A submission ends in a scene: its purchase has been sent, and that is what is reported. -/
structure Submission.Concludes {earlier : List (Scene σ)} (x : Submission env setup earlier)
    (s : Scene σ) (p : Purchase) (txHash : Hash) : Prop where
  purchase_eq : x.purchase = .ok p
  ended : .endedSubmission (.ok txHash) ∈ s.deeds
  completes : Completes setup p (x.heard ++ s.heard) txHash
  sales_eq : s.sales = [(txHash, p.purchaseTo)]

/-- What can be said of a scene, given all scenes before it. -/
structure Fair (env : Environment σ) (setup : Setup) (earlier : List (Scene σ)) (s : Scene σ) :
    Prop where
  alone : ∀ account price, .beganSubmission account price ∈ s.deeds → ¬ InFlight earlier
  ordered : ∀ account price, .beganSubmission account price ∈ s.deeds →
    ∃ x : Submission env setup (earlier ++ [s]), x.since = []
  sends : ∀ wallet tx, .asked (.send wallet tx) ∈ s.deeds → wallet = setup.wallet ∧
    ∃ (x : Submission env setup earlier) (p : Purchase), x.purchase = .ok p ∧
      p.Builds setup.kind tx
  ignored : ∀ request, .took (.purchase request) ∈ s.deeds →
    (∃ account, s.Accepts env setup.wallet request account) ∨ s.IsIdle
  sold : s.sales = [] ∨ ∃ (x : Submission env setup earlier) (p : Purchase) (txHash : Hash),
    x.Concludes s p txHash

/-- A scene is fair in which no submission begins or ends and no purchase is asked for. -/
theorem fair_of_plain (hbegan : ∀ account price, .beganSubmission account price ∉ s.deeds)
    (hsends : ∀ wallet tx, .asked (.send wallet tx) ∉ s.deeds)
    (htook : ∀ request, .took (.purchase request) ∉ s.deeds) (hsales : s.sales = [])
    (env : Environment σ) (setup : Setup) (earlier : List (Scene σ)) :
    Fair env setup earlier s where
  alone account price h := absurd h (hbegan account price)
  ordered account price h := absurd h (hbegan account price)
  sends wallet tx h := absurd h (hsends wallet tx)
  ignored request h := absurd h (htook request)
  sold := .inl hsales

/-! ## The invariant -/

/-- What a checkout is busy with, by what has happened. -/
inductive Busy (env : Environment σ) (story : List (Scene σ)) (c : Checkout) : Prop where
  | idle (hwork : c.work = none) (halone : ¬ InFlight story)
      (hordered : c.state.phase = .initiatingPurchase →
        ∃ o : Order env c.setup.wallet story, c.state.purchaseTo = some o.destination ∧
          c.state.additional = o.request.additional)
  | checking (job : Job Eligibility) (hwork : c.work = some (.check job))
      (hphase : c.state.phase = .checkingEligibility) (halone : ¬ InFlight story)
      (hwithin : job.Within (¬ ·.IsSend) fun _ => True)
  | submitting (job : Job Hash) (hwork : c.work = some (.submission job))
      (hphase : c.state.phase = .initiatingPurchase) (x : Submission env c.setup story)
      (hto : c.state.purchaseTo = some x.order.destination)
      (hjob : job.Continues (submit c.setup x.purchase) x.heard)

/-- The state of a checkout follows from its story, and its story is fair. -/
structure Honest (env : Environment σ) (story : List (Scene σ)) (c : Checkout) : Prop where
  eligible : c.state.phase = .readyForPurchase ∨ c.state.phase = .initiatingPurchase →
    ∃ details, c.state.eligibility = some details ∧
      Latest Deed.IsVerdict (deedsOf story) (.endedCheck (.ok (.eligible details)))
  busy : Busy env story c
  fair : Throughout (Fair env c.setup) story

theorem honest_fresh (env : Environment σ) (setup : Setup) (generation : Nat) :
    Honest env [] (fresh setup generation) where
  eligible := by simp [fresh, PurchaseState.initial]
  busy := by
    refine .idle rfl ?_ (by simp [fresh, PurchaseState.initial])
    rintro ⟨account, price, -, earlier, later, hs, -⟩
    simp at hs
  fair := throughout_nil _

theorem Busy.congr {d : Checkout} (h : Busy env story c) (hsetup : c.setup = d.setup)
    (hstate : c.state = d.state) (hwork : c.work = d.work) : Busy env story d := by
  obtain ⟨⟩ := c
  obtain ⟨⟩ := d
  cases hsetup
  cases hstate
  cases hwork
  cases h with
  | idle hwork halone hordered => exact .idle hwork halone hordered
  | checking job hwork hphase halone hwithin => exact .checking job hwork hphase halone hwithin
  | submitting job hwork hphase x hto hjob => exact .submitting job hwork hphase x hto hjob

/-- Only the setup, the state and the work of a checkout count. -/
theorem Honest.congr {d : Checkout} (h : Honest env story c) (hsetup : c.setup = d.setup)
    (hstate : c.state = d.state) (hwork : c.work = d.work) : Honest env story d where
  eligible := hstate ▸ h.eligible
  busy := h.busy.congr hsetup hstate hwork
  fair := hsetup ▸ h.fair

theorem Honest.eligible_concat (h : Honest env story c)
    (hphase : c.state.phase = .readyForPurchase ∨ c.state.phase = .initiatingPurchase)
    (hs : ∀ deed ∈ s.deeds, ¬ deed.IsVerdict) :
    ∃ details, c.state.eligibility = some details ∧
      Latest Deed.IsVerdict (deedsOf (story ++ [s])) (.endedCheck (.ok (.eligible details))) := by
  obtain ⟨details, heligibility, hlatest⟩ := h.eligible hphase
  refine ⟨details, heligibility, ?_⟩
  rw [deedsOf_append]
  exact hlatest.append (by simpa using hs)

/-- Nothing comes of a quiet scene in which nothing is heard. -/
theorem Honest.quiet (h : Honest env story c) (hs : s.IsQuiet env c.setup.wallet)
    (hheard : s.heard = []) (hfair : Fair env c.setup story s) : Honest env (story ++ [s]) c := by
  have halone : ¬ InFlight story → ¬ InFlight (story ++ [s]) := fun hnot hflight =>
    hnot (hflight.of_concat fun deed hdeed hturn =>
      hs.not_isTurn deed hdeed (Deed.isTurn_of_isSubmissionTurn hturn))
  constructor
  · intro hphase
    apply h.eligible_concat hphase
    intro deed hdeed hverdict
    exact hs.not_isTurn deed hdeed (Deed.isTurn_of_isVerdict hverdict)
  · cases h.busy with
    | idle hwork hnot hordered =>
        refine .idle hwork (halone hnot) fun hphase => ?_
        obtain ⟨o, hto, hadditional⟩ := hordered hphase
        exact ⟨o.extend hs, hto, hadditional⟩
    | checking job hwork hphase hnot hwithin =>
        exact .checking job hwork hphase (halone hnot) hwithin
    | submitting job hwork hphase x hto hjob =>
        refine .submitting job hwork hphase (x.extend hs) hto ?_
        simpa [hheard] using hjob
  · exact h.fair.concat hfair

/-! ## Reports and commands -/

theorem sales_reportScene (c : Checkout) (world : σ) : (reportScene c world).sales = [] := by
  change (c.publish.2.map Deed.posted).filterMap Deed.sale? = []
  unfold publish
  split
  · rfl
  · exact Deed.filterMap_sale?_post_eq_nil c.line (by simp)

theorem Honest.report (h : Honest env story c) (world : σ) :
    Honest env (story ++ [reportScene c world]) c.publish.1 := by
  have hposted : ∀ deed ∈ (reportScene c world).deeds, ∃ message, deed = .posted message := by
    intro deed hdeed
    obtain ⟨message, -, rfl⟩ := List.mem_map.mp hdeed
    exact ⟨message, rfl⟩
  have hquiet : (reportScene c world).IsQuiet env c.setup.wallet := by
    refine ⟨?_, sales_reportScene c world, ?_⟩
    · intro deed hdeed
      obtain ⟨message, rfl⟩ := hposted deed hdeed
      exact id
    · intro request account haccepts
      obtain ⟨message, htook⟩ := hposted (.took (.purchase request)) (by simp [haccepts.deeds_eq])
      simp at htook
  have hfair : Fair env c.setup story (reportScene c world) :=
    fair_of_plain (by simp [reportScene]) (by simp [reportScene]) (by simp [reportScene])
      (sales_reportScene c world) env c.setup story
  refine (h.quiet hquiet rfl hfair).congr ?_ ?_ ?_ <;> rw [publish_eq]

/-- A checkout that is ready is not busy with anything. -/
theorem Honest.idle_of_ready (h : Honest env story c) (hphase : c.state.phase = .readyForPurchase) :
    c.work = none ∧ ¬ InFlight story := by
  cases h.busy with
  | idle hwork halone hordered => exact ⟨hwork, halone⟩
  | checking job hwork hchecking => simp [hphase] at hchecking
  | submitting job hwork hinitiating => simp [hphase] at hinitiating

/-- A request that is not taken up makes no difference. -/
theorem Honest.ignore (h : Honest env story c) (hreported : c.reported = some c.state)
    {request : PurchaseRequest} {world : σ}
    (hnot : ∀ account, ¬ (takeScene env (.purchase request) c world).Accepts env c.setup.wallet
      request account)
    (htake : c.take env (.purchase request) world = (c, world)) :
    Honest env (story ++ [takeScene env (.purchase request) c world]) c := by
  have hidle : (takeScene env (.purchase request) c world).IsIdle := by
    refine ⟨by simp [takeScene, htake], by simp [takeScene, htake], ?_⟩
    simp [takeScene, htake, publish, hreported]
  have hquiet : (takeScene env (.purchase request) c world).IsQuiet env c.setup.wallet := by
    refine ⟨by simp [takeScene, Deed.IsTurn], rfl, fun other account haccepts => ?_⟩
    obtain rfl : request = other := by simpa [takeScene] using haccepts.deeds_eq
    exact hnot account haccepts
  refine h.quiet hquiet rfl ?_
  exact {
    alone := by simp [takeScene]
    ordered := by simp [takeScene]
    sends := by simp [takeScene]
    ignored := fun _ _ => .inr hidle
    sold := .inl rfl }

/-- A request that a ready checkout takes up is an order. -/
theorem Honest.accept (h : Honest env story c) {request : PurchaseRequest} {account : Address}
    {world : σ} (haccepts : (takeScene env (.purchase request) c world).Accepts env c.setup.wallet
      request account) :
    Honest env (story ++ [takeScene env (.purchase request) c world])
      { c with state := c.state.begin account request } where
  eligible := by
    intro _
    exact h.eligible_concat (.inl haccepts.phase_eq) (by simp [takeScene, Deed.IsVerdict])
  busy := by
    obtain ⟨hwork, halone⟩ := h.idle_of_ready haccepts.phase_eq
    refine .idle hwork (fun hflight => halone (hflight.of_concat ?_)) fun _ => ?_
    · simp [takeScene, Deed.IsSubmissionTurn]
    · exact ⟨⟨story, _, [], request, account, rfl, haccepts, by simp⟩, rfl, rfl⟩
  fair := by
    refine h.fair.concat {
      alone := by simp [takeScene]
      ordered := by simp [takeScene]
      sends := by simp [takeScene]
      ignored := ?_
      sold := .inl rfl }
    intro other hother
    obtain rfl : other = request := by simpa [takeScene] using hother
    exact .inl ⟨account, haccepts⟩

theorem Honest.reset (h : Honest env story c) (world : σ) :
    Honest env (story ++ [takeScene env .reset c world]) (c.take env .reset world).1 where
  eligible := by simp [Checkout.take, PurchaseState.initial]
  busy := by
    refine .idle rfl ?_ (by simp [Checkout.take, PurchaseState.initial])
    have hdeeds : (takeScene env .reset c world).deeds = [] ++ .took .reset :: [] := rfl
    exact not_inFlight_of_turn hdeeds trivial (by simp) (by simp)
  fair := by
    refine h.fair.concat (fair_of_plain ?_ ?_ ?_ rfl env c.setup story) <;> simp [takeScene]

theorem Honest.take (h : Honest env story c) (hreported : c.reported = some c.state)
    (command : Command) (world : σ) :
    Honest env (story ++ [takeScene env command c world]) (c.take env command world).1 := by
  cases command with
  | reset => exact h.reset world
  | purchase request =>
      by_cases hphase : c.state.phase = .readyForPurchase
      · cases haccount : env.account world c.setup.wallet with
        | none =>
            have htake : c.take env (.purchase request) world = (c, world) := by
              simp [Checkout.take, hphase, haccount]
            rw [htake]
            refine h.ignore hreported (fun account haccepts => ?_) htake
            exact absurd (haccount.symm.trans haccepts.account_eq) (by simp)
        | some account =>
            have haccepts : (takeScene env (.purchase request) c world).Accepts env c.setup.wallet
                request account := ⟨rfl, hphase, haccount⟩
            simpa [Checkout.take, hphase, haccount] using h.accept haccepts
      · have htake : c.take env (.purchase request) world = (c, world) := by
          simp [Checkout.take, hphase]
        rw [htake]
        exact h.ignore hreported (fun account haccepts => hphase haccepts.phase_eq) htake

end Checkout

end MintSale
