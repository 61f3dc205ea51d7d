import MintSale.Host
import MintSale.Proofs.Sale.Delivery

/-!
# Purchases over HTTP

A purchase that is posted is accepted as long as the host sees a sale that is ready for one. What is
accepted reaches the checkout that the host has seen, in order, and unless the checkout is busy by
then its submission begins.
-/

namespace MintSale

open History

namespace Host

/-! ## Answers -/

/-- A purchase is posted. -/
structure Request.IsPurchase (r : Request) : Prop where
  method_eq : r.method = "POST"
  resource_eq : (path? r.target).bind Resource.ofPath? = some .purchase

/-- How a purchase that is posted is answered, and what is sent to the sale. -/
inductive Answered (v : View) (r : Request) : Response × Option Sale.Event → Prop where
  | unreadable (status : Nat) (hbody : readBody PurchaseRequest.codec r = .error status)
      (hstatus : status ∈ [400, 413, 415, 422]) : Answered v r (.bare status, none)
  | notReady (request : PurchaseRequest) (hbody : readBody PurchaseRequest.codec r = .ok request)
      (hready : v.isReadyForPurchase = false) : Answered v r
        (.problem 409 s!"Sale is not ready for a purchase (phase: {v.snapshot.phase.name})", none)
  | stopped (request : PurchaseRequest) (hbody : readBody PurchaseRequest.codec r = .ok request)
      (hready : v.isReadyForPurchase = true) (hopen : v.isOpen = false) :
      Answered v r (.problem 503 "Sale manager has stopped", none)
  | accepted (request : PurchaseRequest) (hbody : readBody PurchaseRequest.codec r = .ok request)
      (hready : v.isReadyForPurchase = true) (hopen : v.isOpen = true) :
      Answered v r (.accepted, some (.command (.purchase request)))

theorem status_of_readBody {α : Type} {codec : Codec α} {r : Request} {status : Nat}
    (h : readBody codec r = .error status) : status ∈ [400, 413, 415, 422] := by
  unfold readBody at h
  simp only at h
  split at h
  · obtain rfl := Except.error.inj h
    simp
  · split at h
    · obtain rfl := Except.error.inj h
      simp
    · split at h
      · simp at h
      · obtain rfl := Except.error.inj h
        simp
      · obtain rfl := Except.error.inj h
        simp

theorem respond_answered {v : View} {r : Request} (h : r.IsPurchase) :
    Answered v r (respond v r) := by
  have hrespond : respond v r = postPurchase v r := by
    simp [respond, h.resource_eq, h.method_eq, Resource.isRead]
  rw [hrespond, postPurchase]
  cases hbody : readBody PurchaseRequest.codec r with
  | error status => exact .unreadable status hbody (status_of_readBody hbody)
  | ok request =>
      cases hready : v.isReadyForPurchase with
      | false => exact .notReady request hbody hready
      | true =>
          cases hopen : v.isOpen with
          | false => simpa [send, hopen] using Answered.stopped request hbody hready hopen
          | true => simpa [send, hopen] using Answered.accepted request hbody hready hopen

/-- Something is sent only to a sale that goes on and is ready for a purchase. -/
theorem Answered.sent {v : View} {r : Request} {answer : Response × Option Sale.Event}
    (h : Answered v r answer) {event : Sale.Event} (hsent : answer.2 = some event) :
    v.isReadyForPurchase = true ∧ v.isOpen = true := by
  cases h with
  | accepted request hbody hready hopen => exact ⟨hready, hopen⟩
  | unreadable | notReady | stopped => cases hsent

theorem View.purchase_of_isReady {v : View} (h : v.isReadyForPurchase = true) :
    ∃ shown, v.snapshot.purchase = some shown ∧ shown.phase = .readyForPurchase := by
  cases hshown : v.snapshot.purchase with
  | none => simp [isReadyForPurchase, hshown] at h
  | some shown => exact ⟨shown, rfl, by simpa [isReadyForPurchase, hshown] using h⟩

end Host

namespace Sale.Floor

variable {σ : Type} {env : Environment σ} {f : Floor σ} {n : Nat} {c : Checkout}

/-! ## From the host to the checkout -/

/-- What the host answers from. -/
def view (f : Floor σ) (purchases : List PurchaseRow) : Host.View :=
  ⟨f.published, f.isOpen, purchases⟩

/-- No reset is on its way to the checkout with a number, and no check that follows one has yet to
be heard of. -/
structure IsUndisturbed (n : Nat) (f : Floor σ) : Prop where
  ahead : .reset ∉ f.waiting n
  behind : ∀ state ∈ statesFrom n f.messages, state.phase ≠ .checkingEligibility

instance (n : Nat) (f : Floor σ) : Decidable (f.IsUndisturbed n) :=
  decidable_of_iff (.reset ∉ f.waiting n ∧
    ∀ state ∈ statesFrom n f.messages, state.phase ≠ .checkingEligibility)
    ⟨fun ⟨hahead, hbehind⟩ => ⟨hahead, hbehind⟩, fun h => ⟨h.ahead, h.behind⟩⟩

theorem attended_keeping (env : Environment σ) :
    Keeping env (Checkout.Attended env) fun price c world => c.scenes env price world where
  fresh := Checkout.attended_fresh env
  tell _ h := ⟨h.isClosed_eq, h.attending.congr rfl rfl rfl, h.prompt⟩
  stop h := ⟨h.isClosed_eq, h.attending.congr rfl rfl rfl, h.prompt⟩
  turn price world h := h.turn price world

/-- A checkout at work that has admitted its wallet is past its check in all its scenes until it
takes a reset. -/
theorem Stays.isAdmitted (hkept : f.Kept) {acts : List (Act σ)} (h : f.Stays env n acts)
    (hfound : f.checkout? n = some c) (hphase : c.IsInPhase) (hadmitted : c.state.phase.IsAdmitted)
    (hreset : .reset ∉ commandsOf (scenesIn n (f.play env acts))) :
    (∃ d, (f.run env acts).checkout? n = some d ∧ d.setup = c.setup) ∧
      ∀ s ∈ scenesIn n (f.play env acts),
        s.before.state.phase.IsAdmitted ∧ ∃ price, Checkout.Staged env price s := by
  induction acts generalizing f c with
  | nil => exact ⟨⟨c, hfound, rfl⟩, by simp [play, telling, scenesIn]⟩
  | cons act acts ih =>
      rw [play_cons, scenesIn_append] at hreset ⊢
      rw [commandsOf_append, List.mem_append, not_or] at hreset
      by_cases hown : act = .checkout n
      · subst hown
        rw [scenesIn_own hfound] at hreset ⊢
        obtain ⟨hinPhase, hstays⟩ :=
          Checkout.scenes_staysAdmitted env f.price hphase hadmitted f.world
        obtain ⟨hlater, hscenes⟩ := hstays hreset.1
        obtain ⟨⟨d, hd, hsetup⟩, hrest⟩ :=
          ih (hkept.act env _) h.tail (checkout?_own hfound) hinPhase hlater hreset.2
        refine ⟨⟨d, hd, hsetup.trans (c.turn_keeps env f.price f.world).setup_eq⟩, fun s hs => ?_⟩
        rcases List.mem_append.mp hs with hs | hs
        · exact ⟨hscenes s hs, f.price, (Checkout.staged_of_mem hs).1⟩
        · exact hrest s hs
      · rw [scenesIn_of_ne hown, List.nil_append]
        obtain ⟨⟨d, hd, hsetup⟩, hrest⟩ :=
          ih (hkept.act env act) h.tail (h.serves.told hkept h.tail.serves hown hfound) hphase
            hadmitted hreset.2
        exact ⟨⟨d, hd, hsetup⟩, hrest⟩

/-- What a checkout at work makes of the commands that are on their way to it, when there is no
reset among them: it gets them in order, and as soon as all have had enough turns, and each request
is received by it as by one that is past its check. -/
structure Handles (env : Environment σ) (slot : CheckoutSlot) (story : List (Scene σ)) (f : Floor σ)
    (acts : List (Act σ)) : Prop where
  inOrder : f.waiting slot.generation ++ (acts.flatMap Act.sent).filterMap Event.command? =
    commandsOf (scenesIn slot.generation (f.play env acts)) ++
      (f.run env acts).waiting slot.generation
  inTime : ∀ first second, acts = first ++ second →
    f.events.length ≤ first.countP Act.isDirector →
    ((f.run env first).commandsAt slot.generation).length ≤
      turnLimit * second.countP (Act.isCheckout slot.generation) →
    f.waiting slot.generation <+: commandsOf (scenesIn slot.generation (f.play env acts))
  received : ∀ earlier s later, scenesIn slot.generation (f.play env acts) = earlier ++ s :: later →
    ∀ request, .took (.purchase request) ∈ s.deeds →
      Checkout.Received env slot.setup.wallet (story ++ earlier) s later request

theorem act_of_sent_reset {act : Act σ} {event : Event} (hsent : event ∈ act.sent)
    (hcommand : event.command? = some .reset) : act = .post (.command .reset) := by
  cases act with
  | post sent =>
      obtain rfl := List.mem_singleton.mp hsent
      cases event with
      | command told =>
          obtain rfl := Option.some.inj hcommand
          rfl
      | chainAvailable | chainUnavailable | walletAvailable | walletUnavailable | liveData
      | error => simp [Event.command?] at hcommand
  | director | feed | checkout | shutDown | wait | change => simp [Act.sent] at hsent

/-- A checkout that the host has seen ready handles what is on its way to it. -/
theorem Heard.handles {log : List (Moment σ)} (h : Heard log f) {slot : CheckoutSlot}
    (hslot : f.director.checkout = some slot) {shown : PurchaseState}
    (hshown : f.published.purchase = some shown) (hadmitted : shown.phase.IsAdmitted)
    (hundisturbed : f.IsUndisturbed slot.generation) {acts : List (Act σ)}
    (hstays : f.Stays env slot.generation acts) (hreset : .post (.command .reset) ∉ acts)
    {story : List (Scene σ)}
    (hattended : ∀ d ∈ (f.run env acts).checkouts, d.line.generation = slot.generation →
      Checkout.Attended env (story ++ scenesIn slot.generation (f.play env acts)) d) :
    Handles env slot story f acts := by
  have hopen := hstays.serves.isOpen_eq
  obtain ⟨c, hfound, hsetup, hphase, hpast⟩ :=
    h.isAdmitted hopen hslot hshown hadmitted hundisturbed.behind
  have hwaiting := (hstays.delivered h.kept).waiting_eq
  have hnone : .reset ∉ commandsOf (scenesIn slot.generation (f.play env acts)) := by
    intro htaken
    have hsent : .reset ∈ f.waiting slot.generation ++
        (acts.flatMap Act.sent).filterMap Event.command? := by
      rw [hwaiting]
      exact List.mem_append_left _ htaken
    rcases List.mem_append.mp hsent with hahead | hposted
    · exact hundisturbed.ahead hahead
    · obtain ⟨event, hevent, hcommand⟩ := List.mem_filterMap.mp hposted
      obtain ⟨act, hact, hsent⟩ := List.mem_flatMap.mp hevent
      exact hreset (act_of_sent_reset hsent hcommand ▸ hact)
  obtain ⟨⟨d, hd, hdsetup⟩, hscenes⟩ := hstays.isAdmitted h.kept hfound hphase hpast hnone
  have hnumber : d.line.generation = slot.generation := by simpa using List.find?_some hd
  have hall := hattended d (List.mem_of_find?_eq_some hd) hnumber
  refine ⟨hwaiting, ?_, ?_⟩
  · rintro first second rfl hdirector hcheckout
    exact hstays.in_time h.kept hdirector hcheckout
  · intro earlier s later hs request htook
    obtain ⟨hbefore, price, hstaged⟩ := hscenes s (by simp [hs])
    have hlater : .reset ∉ commandsOf later := by
      intro htaken
      refine hnone ?_
      have hsplit : scenesIn slot.generation (f.play env acts) = (earlier ++ [s]) ++ later := by
        simp [hs]
      rw [hsplit, commandsOf_append]
      exact List.mem_append_right _ htaken
    rw [hs, ← List.append_assoc] at hall
    rw [← hsetup, ← hdsetup]
    exact hall.received hstaged hbefore hlater htook

theorem waiting_post (hopen : f.isOpen = true) (command : Command) :
    (f.post (.command command)).waiting n = f.waiting n ++ [command] := by
  simp [waiting, commandsAt, checkout?, post, hopen, Event.command?]

/-- A checkout that the host sees has its place. -/
theorem Kept.exists_slot (h : f.Kept) (hopen : f.isOpen = true) {shown : PurchaseState}
    (hshown : f.published.purchase = some shown) : ∃ slot, f.director.checkout = some slot := by
  have hpurchase : f.director.purchase = some shown := by
    rw [h.orderly.published_eq hopen] at hshown
    exact hshown
  exact Option.isSome_iff_exists.mp (h.orderly.sound.purchase_iff.mp (by simp [hpurchase]))

/-! ## Every run -/

/-- However purchases that are posted come in between all that happens in a sale, one that cannot
be read is turned down for that, and of the others each is accepted if the host sees the checkout
ready in a sale that goes on, and is turned down otherwise. As long as the checkout that was seen
stays at work and there is no reset, it gets what was accepted once and in order, after enough turns
of the director and its own, and is past its check by then. If it is ready and the wallet has an
account, the request's own submission begins; if it is not ready, it is busy with another request
that was taken up before, or something has failed. -/
theorem run_answered (env : Environment σ) (start : Start) (interval : Nat) (isTracked : Bool)
    (world : σ) (before : List (Act σ)) (r : Host.Request) (hr : r.IsPurchase)
    (purchases : List PurchaseRow) :
    let f := (initial start interval isTracked world).run env before
    let answer := Host.respond (f.view purchases) r
    Host.Answered (f.view purchases) r answer ∧
      ∀ request, answer.2 = some (.command (.purchase request)) →
        ∃ slot, f.director.checkout = some slot ∧ ∀ after,
          let g := f.post (.command (.purchase request))
          g.Stays env slot.generation after → g.IsUndisturbed slot.generation →
            .post (.command .reset) ∉ after →
              g.waiting slot.generation = f.waiting slot.generation ++ [.purchase request] ∧
                Handles env slot (scenesIn slot.generation
                  ((initial start interval isTracked world).play env before)) g after := by
  intro f answer
  have hanswered : Host.Answered (f.view purchases) r answer := Host.respond_answered hr
  refine ⟨hanswered, fun request hrequest => ?_⟩
  obtain ⟨hready, hopen⟩ : _ ∧ f.isOpen = true := hanswered.sent hrequest
  obtain ⟨shown, hshown, hphase⟩ := Host.View.purchase_of_isReady hready
  have hheard : Heard _ f := run_heard env start interval isTracked world before
  obtain ⟨slot, hslot⟩ := hheard.kept.exists_slot hopen hshown
  refine ⟨slot, hslot, fun after => ?_⟩
  intro g hstays hundisturbed hreset
  refine ⟨waiting_post hopen _, ?_⟩
  have hposted : Heard _ g := hheard.act env (.post (.command (.purchase request)))
  have hseen : g.director = f.director ∧ g.published = f.published := by
    simp [g, post, hopen]
  have hadmitted : shown.phase.IsAdmitted := by simp [hphase, PurchasePhase.IsAdmitted]
  refine hposted.handles (hseen.1 ▸ hslot) (hseen.2 ▸ hshown) hadmitted hundisturbed hstays hreset
    fun d hd hnumber => ?_
  have hfiled := run_filed (attended_keeping env) start interval isTracked world
    (before ++ .post (.command (.purchase request)) :: after)
  have hrun : (initial start interval isTracked world).run env
      (before ++ .post (.command (.purchase request)) :: after) = g.run env after := by
    rw [run_append]
    rfl
  have hplay : (initial start interval isTracked world).play env
      (before ++ .post (.command (.purchase request)) :: after) =
        (initial start interval isTracked world).play env before ++ g.play env after := by
    rw [play_append]
    rfl
  have hholds := hfiled.holds d (hrun ▸ hd)
  rwa [hnumber, hplay, scenesIn_append] at hholds

end Sale.Floor

/-! ## Purchases in the small sale -/

namespace Sale

/-- A purchase over HTTP, with a body. -/
def Sample.order (body : String) : Host.Request :=
  ⟨"POST", "/sale/purchase", some "application/json", body⟩

/-- The small sale is ready, and the host has seen it. -/
def Sample.ready : List (Floor.Act Unit) :=
  opening ++ [.checkout 2, .director noon, .director noon]

/-- A purchase that is posted when the small sale is ready is accepted and handled. -/
theorem Floor.run_answered_ready :
    let f := Sample.floor.run Sample.environment Sample.ready
    let g := f.post (.command (.purchase ⟨none, none⟩))
    let after := [.director Sample.noon, .checkout 2]
    (Host.respond (f.view []) (Sample.order "\x7b\x7d")).2 =
        some (.command (.purchase ⟨none, none⟩)) ∧
      g.Stays Sample.environment 2 after ∧ g.IsUndisturbed 2 ∧
      ∃ slot, slot.generation = 2 ∧ Handles Sample.environment slot
        (scenesIn 2 (Sample.floor.play Sample.environment Sample.ready)) g after := by
  intro f g after
  have hrequest : (Host.respond (f.view []) (Sample.order "\x7b\x7d")).2 =
      some (.command (.purchase ⟨none, none⟩)) := by decide +kernel
  have hstays : g.Stays Sample.environment 2 after := by decide +kernel
  have hundisturbed : g.IsUndisturbed 2 := by decide +kernel
  obtain ⟨slot, hslot, hhandles⟩ := (run_answered Sample.environment _ 10 true () Sample.ready
    (Sample.order "\x7b\x7d") ⟨rfl, by decide +kernel⟩ []).2 ⟨none, none⟩ hrequest
  have hnumber : slot.generation = 2 := by
    have hcurrent : f.director.current .checkout = some 2 := by decide +kernel
    rw [Director.current, show f.director.checkout = some slot from hslot] at hcurrent
    exact Option.some.inj hcurrent
  refine ⟨hrequest, hstays, hundisturbed, slot, hnumber, ?_⟩
  have hall := hhandles after (hnumber ▸ hstays) (hnumber ▸ hundisturbed) (by simp [after])
  rw [hnumber] at hall
  exact hall.2

/-- Collaborators of a wallet that may lose its account. -/
def Sample.lapsingEnvironment : Environment Bool where
  account hasAccount _ := if hasAccount then some buyer else none
  ask call hasAccount := ((environment.ask call ()).1, hasAccount)
  collect _ _ hasAccount := (none, hasAccount)
  abandon _ hasAccount := hasAccount

/-- How many submissions the checkout with a number begins in a run. -/
def Floor.submissions {σ : Type} (env : Environment σ) (n : Nat) (f : Floor σ)
    (acts : List (Floor.Act σ)) : Nat :=
  (deedsOf (scenesIn n (f.play env acts))).countP fun deed => match deed with
    | .beganSubmission .. => true
    | _ => false

/-- A body that cannot be read is neither accepted nor turned down because of the sale. Of two
purchases that are accepted before the director takes its turn, only one begins a submission, though
both reach the checkout that stays at work. And none does if the wallet loses its account when a
purchase has been passed on. -/
theorem Floor.run_answered_without_submission :
    (Host.respond (Sample.floor.view []) (Sample.order "\x7b")).1.status = 400 ∧
      (let f := Sample.floor.run Sample.environment Sample.ready
        let g := f.post (.command (.purchase ⟨none, none⟩))
        let after := [.post (.command (.purchase ⟨none, none⟩)), .director Sample.noon,
          .director Sample.noon, .checkout 2]
        (Host.respond (f.view []) (Sample.order "\x7b\x7d")).1.status = 202 ∧
          (Host.respond (g.view []) (Sample.order "\x7b\x7d")).1.status = 202 ∧
          g.Stays Sample.environment 2 after ∧ g.IsUndisturbed 2 ∧
          commandsOf (scenesIn 2 (g.play Sample.environment after)) =
            [.purchase ⟨none, none⟩, .purchase ⟨none, none⟩] ∧
          g.submissions Sample.environment 2 after = 1) ∧
      (let f := (initial ⟨none, some ⟨"chain"⟩, some ⟨"wallet"⟩, some Sample.project, none⟩ 10 true
          true).run Sample.lapsingEnvironment [.director Sample.noon, .feed 1,
            .director Sample.noon, .checkout 2, .director Sample.noon, .director Sample.noon]
        let g := f.post (.command (.purchase ⟨none, none⟩))
        let after := [.director Sample.noon, .change fun _ => false, .checkout 2]
        (Host.respond (f.view []) (Sample.order "\x7b\x7d")).1.status = 202 ∧
          g.Stays Sample.lapsingEnvironment 2 after ∧ g.IsUndisturbed 2 ∧
          commandsOf (scenesIn 2 (g.play Sample.lapsingEnvironment after)) =
            [.purchase ⟨none, none⟩] ∧
          g.submissions Sample.lapsingEnvironment 2 after = 0) := by
  decide +kernel

end Sale

end MintSale
