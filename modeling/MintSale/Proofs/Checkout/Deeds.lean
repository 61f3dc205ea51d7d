import MintSale.Checkout.Machine
import MintSale.Proofs.Sale.Report

/-!
# What a checkout does in a turn

A turn of a checkout is told as a list of deeds. The deeds determine what arrives of its reports and
what it asks, and they come about by small moves, each of which does one thing.
-/

namespace MintSale

/-- Something that a worker does. -/
inductive Deed where
  | took (command : Command)
  | beganCheck (account : Option Address) (price : Option Amount)
  | endedCheck (result : Except Fault Eligibility)
  | beganSubmission (account : Option Address) (price : Option Amount)
  | endedSubmission (result : Except Fault Hash)
  | asked (call : Call)
  /-- A report that arrives. -/
  | posted (message : Message)

namespace Deed

/-- The call that is asked. -/
def call? : Deed → Option Call
  | .asked call => some call
  | _ => none

/-- The message that arrives. -/
def message? : Deed → Option Message
  | .posted message => some message
  | _ => none

@[simp high] theorem filterMap_call?_asked (calls : List Call) :
    (calls.map asked).filterMap call? = calls := by
  induction calls with
  | nil => rfl
  | cons call calls ih =>
      have hcall : call? (asked call) = some call := rfl
      rw [List.map_cons, List.filterMap_cons_some hcall, ih]

@[simp high] theorem filterMap_message?_posted (messages : List Message) :
    (messages.map posted).filterMap message? = messages := by
  induction messages with
  | nil => rfl
  | cons message messages ih =>
      have hmessage : message? (posted message) = some message := rfl
      rw [List.map_cons, List.filterMap_cons_some hmessage, ih]

@[simp high] theorem filterMap_call?_posted (messages : List Message) :
    (messages.map posted).filterMap call? = [] := by
  simp [List.filterMap_map, call?]

@[simp high] theorem filterMap_message?_asked (calls : List Call) :
    (calls.map asked).filterMap message? = [] := by
  simp [List.filterMap_map, message?]

end Deed

namespace Checkout

variable {σ : Type} (env : Environment σ) (price : Option Amount)

/-! ## The deeds of a turn -/

/-- The deeds when commands are taken in order. -/
def takeDeeds : List Command → Checkout → σ → List Deed
  | [], _, _ => []
  | command :: rest, c, world =>
    let (c, world) := c.take env command world
    .took command :: (c.publish.2.map .posted ++ takeDeeds rest c.publish.1 world)

/-- The deed when work begins, if any does now. -/
def beginDeeds (c : Checkout) (world : σ) : List Deed :=
  match c.state.phase, c.work with
  | .checkingEligibility, none => [.beganCheck (env.account world c.setup.wallet) price]
  | .initiatingPurchase, none => [.beganSubmission (env.account world c.setup.wallet) price]
  | _, _ => []

/-- The deeds when work goes on. -/
def workDeeds (c : Checkout) (world : σ) : List Deed :=
  match c.workNow env price world with
  | none => []
  | some (.check job) =>
    match job.resume env world with
    | (.pending _, asked, _) => asked.map .asked
    | (.finished result, asked, _) =>
      asked.map .asked ++ .endedCheck result :: (c.checked result).2.map .posted
  | some (.submission job) =>
    match job.resume env world with
    | (.pending _, asked, _) => asked.map .asked
    | (.finished result, asked, world) =>
      asked.map .asked ++ .endedSubmission result ::
        (c.submitted (env.account world c.setup.wallet) result).2.map .posted

/-- The deeds of a turn. -/
def deeds (c : Checkout) (world : σ) : List Deed :=
  if c.hasEnded || c.line.isStopped then []
  else
    let first := c.publish.2.map Deed.posted
    let commands := c.commands.take turnLimit
    let ready := { c.publish.1 with commands := c.commands.drop turnLimit }
    let taken := takeDeeds env commands ready world
    let (d, _, world) := takeAll env commands ready world
    if c.overruns then first ++ taken ++ beginDeeds env price d world
    else if d.isClosed then first ++ taken
    else first ++ taken ++ (beginDeeds env price d world ++ workDeeds env price d world ++
      (d.advance env price world).1.publish.2.map .posted)

/-! ## What the deeds tell -/

/-- A checkout that has ended or has been stopped does nothing. -/
theorem deeds_of_gone {c : Checkout} (h : c.line.isStopped = true ∨ c.hasEnded = true) (world : σ) :
    c.deeds env price world = [] := by
  unfold deeds
  rcases h with h | h <;> simp [h]

/-- A report changes nothing but what has been reported. -/
theorem publish_eq (c : Checkout) : c.publish.1 = { c with reported := some c.state } := by
  unfold publish
  split
  · next hreported => rw [← hreported]
  · rfl

@[simp] theorem publish_commands (c : Checkout) : c.publish.1.commands = c.commands := by
  rw [publish_eq]

theorem takeDeeds_tell (commands : List Command) (c : Checkout) (world : σ) :
    (takeDeeds env commands c world).filterMap Deed.message? = (takeAll env commands c world).2.1 ∧
      (takeDeeds env commands c world).filterMap Deed.call? = [] := by
  induction commands generalizing c world with
  | nil => exact ⟨rfl, rfl⟩
  | cons command commands ih =>
      obtain ⟨hmessages, hcalls⟩ := ih (c.take env command world).1.publish.1
        (c.take env command world).2
      constructor
      · rw [takeDeeds, List.filterMap_cons_none rfl, List.filterMap_append, hmessages]
        simp [takeAll]
      · rw [takeDeeds, List.filterMap_cons_none rfl, List.filterMap_append, hcalls]
        simp

theorem beginDeeds_tell (c : Checkout) (world : σ) :
    (beginDeeds env price c world).filterMap Deed.message? = [] ∧
      (beginDeeds env price c world).filterMap Deed.call? = [] := by
  unfold beginDeeds
  split <;> exact ⟨rfl, rfl⟩

theorem workDeeds_tell (c : Checkout) (world : σ) :
    (workDeeds env price c world).filterMap Deed.message? = (c.advance env price world).2.1 ∧
      (workDeeds env price c world).filterMap Deed.call? = (c.advance env price world).2.2.1 := by
  unfold workDeeds advance
  cases c.workNow env price world with
  | none => exact ⟨rfl, rfl⟩
  | some work =>
      cases work with
      | check job =>
          rcases hjob : job.resume env world with ⟨result | next, asked, world'⟩ <;>
            simp [hjob, List.filterMap_cons, Deed.message?, Deed.call?]
      | submission job =>
          rcases hjob : job.resume env world with ⟨result | next, asked, world'⟩ <;>
            simp [hjob, List.filterMap_cons, Deed.message?, Deed.call?]

/-- The deeds of a turn tell what arrives of its reports and what it asks. -/
theorem deeds_tell (c : Checkout) (world : σ) :
    (c.deeds env price world).filterMap Deed.message? = (c.turn env price world).2.1 ∧
      (c.deeds env price world).filterMap Deed.call? = (c.turn env price world).2.2.1 := by
  unfold deeds turn
  by_cases hended : c.hasEnded
  · simp [hended]
  by_cases hstopped : c.line.isStopped
  · simp [hended, hstopped]
  simp only [hended, hstopped, publish_commands]
  by_cases hfull : c.overruns
  · simp [hfull, takeDeeds_tell, beginDeeds_tell]
  by_cases hclosed : (takeAll env (c.commands.take turnLimit)
      { c.publish.1 with commands := c.commands.drop turnLimit } world).1.isClosed
  · simp [hfull, hclosed, takeDeeds_tell]
  · simp [hfull, hclosed, takeDeeds_tell, beginDeeds_tell, workDeeds_tell]

/-! ## Moves -/

/-- One thing that a checkout does, with the deeds that it consists of. -/
inductive Move : Checkout → σ → List Deed → Checkout → σ → Prop where
  | report (c : Checkout) (world : σ) :
      Move c world (c.publish.2.map .posted) c.publish.1 world
  /-- Commands come or are put in hand. -/
  | sort (c : Checkout) (world : σ) (commands : List Command) :
      Move c world [] { c with commands := commands } world
  | take (c : Checkout) (world : σ) (command : Command) :
      Move c world [.took command] (c.take env command world).1 (c.take env command world).2
  | beginCheck (c : Checkout) (world : σ) (hphase : c.state.phase = .checkingEligibility)
      (hwork : c.work = none) :
      Move c world [.beganCheck (env.account world c.setup.wallet) price]
        { c with work := some (.check (.fresh
          (checkProgram c.setup (env.account world c.setup.wallet) price))) } world
  | beginSubmission (c : Checkout) (world : σ) (hphase : c.state.phase = .initiatingPurchase)
      (hwork : c.work = none) :
      Move c world [.beganSubmission (env.account world c.setup.wallet) price]
        { c with work := some (.submission (.fresh
          (submissionProgram c.setup c.state (env.account world c.setup.wallet) price))) } world
  | awaitCheck {c : Checkout} {world world' : σ} {job next : Job Eligibility} {asked : List Call}
      (hwork : c.work = some (.check job))
      (hjob : job.resume env world = (.pending next, asked, world')) :
      Move c world (asked.map .asked) { c with work := some (.check next) } world'
  | endCheck {c : Checkout} {world world' : σ} {job : Job Eligibility} {asked : List Call}
      {result : Except Fault Eligibility} (hwork : c.work = some (.check job))
      (hjob : job.resume env world = (.finished result, asked, world')) :
      Move c world (asked.map .asked ++ .endedCheck result :: (c.checked result).2.map .posted)
        (c.checked result).1 world'
  | awaitSubmission {c : Checkout} {world world' : σ} {job next : Job Hash} {asked : List Call}
      (hwork : c.work = some (.submission job))
      (hjob : job.resume env world = (.pending next, asked, world')) :
      Move c world (asked.map .asked) { c with work := some (.submission next) } world'
  | endSubmission {c : Checkout} {world world' : σ} {job : Job Hash} {asked : List Call}
      {result : Except Fault Hash} (hwork : c.work = some (.submission job))
      (hjob : job.resume env world = (.finished result, asked, world')) :
      Move c world
        (asked.map .asked ++ .endedSubmission result ::
          (c.submitted (env.account world' c.setup.wallet) result).2.map .posted)
        (c.submitted (env.account world' c.setup.wallet) result).1 world'
  | leave (c : Checkout) (world : σ) :
      Move c world [] { c with hasEnded := true, work := none } (c.drop env world)

/-- Several moves in a row. -/
inductive Moves : Checkout → σ → List Deed → Checkout → σ → Prop where
  | refl (c : Checkout) (world : σ) : Moves c world [] c world
  | step {c c' c'' : Checkout} {world world' world'' : σ} {first last : List Deed} :
      Moves c world first c' world' → Move env price c' world' last c'' world'' →
      Moves c world (first ++ last) c'' world''

variable {env price}

theorem Move.moves {c c' : Checkout} {world world' : σ} {ds : List Deed}
    (h : Move env price c world ds c' world') : Moves env price c world ds c' world' := by
  simpa using Moves.step (.refl c world) h

theorem Moves.trans {c c' c'' : Checkout} {world world' world'' : σ} {first last : List Deed}
    (h : Moves env price c world first c' world')
    (h' : Moves env price c' world' last c'' world'') : Moves env price c world (first ++ last) c'' world'' := by
  induction h' with
  | refl => simpa using h
  | step _ hmove ih => simpa [List.append_assoc] using Moves.step (ih h) hmove

/-- What every move preserves, given the deeds so far, is preserved by moves in a row. -/
theorem Moves.invariant {P : List Deed → Checkout → Prop}
    (hstep : ∀ {history c world ds c' world'}, P history c →
      Move env price c world ds c' world' → P (history ++ ds) c')
    {history : List Deed} {c c' : Checkout} {world world' : σ} {ds : List Deed}
    (h : Moves env price c world ds c' world') (hc : P history c) : P (history ++ ds) c' := by
  induction h with
  | refl => simpa using hc
  | step _ hmove ih => simpa [List.append_assoc] using hstep ih hmove

/-! ## A turn consists of moves -/

theorem takeAll_moves (commands : List Command) (c : Checkout) (world : σ) :
    Moves env price c world (takeDeeds env commands c world) (takeAll env commands c world).1
      (takeAll env commands c world).2.2 := by
  induction commands generalizing c world with
  | nil => exact .refl c world
  | cons command commands ih =>
      have htake : Moves env price c world [.took command] _ _ := (Move.take c world command).moves
      have hreport : Moves env price (c.take env command world).1
          (c.take env command world).2 _ _ _ := (Move.report _ _).moves
      exact htake.trans (hreport.trans (ih _ _))

/-- Work that is due begins with a move. -/
theorem workNow_moves (c : Checkout) (world : σ) :
    Moves env price c world (beginDeeds env price c world)
      { c with work := c.workNow env price world } world := by
  unfold beginDeeds workNow
  cases hwork : c.work with
  | none =>
      cases hphase : c.state.phase with
      | checkingEligibility => exact (Move.beginCheck c world hphase hwork).moves
      | initiatingPurchase => exact (Move.beginSubmission c world hphase hwork).moves
      | readyForPurchase | userIneligible | error =>
          simpa [← hwork] using Moves.refl c world
  | some work =>
      have hsame : { c with work := some work } = c := by rw [← hwork]
      cases hphase : c.state.phase <;> simpa [hsame] using Moves.refl c world

theorem checked_work (c : Checkout) (work : Option Work) (result : Except Fault Eligibility) :
    { c with work := work }.checked result = c.checked result := by
  rcases result with fault | eligibility
  · rfl
  · cases eligibility <;> rfl

theorem submitted_work (c : Checkout) (work : Option Work) (account : Option Address)
    (result : Except Fault Hash) :
    { c with work := work }.submitted account result = c.submitted account result := by
  rcases result with fault | txHash
  · cases fault <;> rfl
  · rfl

/-- Work that has begun goes on with a move. -/
theorem advance_moves (c : Checkout) (world : σ) :
    Moves env price { c with work := c.workNow env price world } world
      (workDeeds env price c world) (c.advance env price world).1
      (c.advance env price world).2.2.2 := by
  unfold workDeeds advance
  cases hwork : c.workNow env price world with
  | none =>
      have hnone : c.work = none := by
        unfold workNow at hwork
        split at hwork <;> simp_all
      have hsame : { c with work := none } = c := by rw [← hnone]
      simpa [hsame] using Moves.refl c world
  | some work =>
      cases work with
      | check job =>
          rcases hjob : job.resume env world with ⟨result | next, asked, world'⟩
          · simpa [hjob, checked_work] using
              (Move.endCheck (c := { c with work := some (.check job) }) rfl hjob).moves
          · simpa [hjob] using
              (Move.awaitCheck (c := { c with work := some (.check job) }) rfl hjob).moves
      | submission job =>
          rcases hjob : job.resume env world with ⟨result | next, asked, world'⟩
          · simpa [hjob, submitted_work] using
              (Move.endSubmission (c := { c with work := some (.submission job) }) rfl hjob).moves
          · simpa [hjob] using
              (Move.awaitSubmission (c := { c with work := some (.submission job) }) rfl hjob).moves

/-- A turn consists of moves with its deeds. -/
theorem turn_moves (c : Checkout) (world : σ) :
    Moves env price c world (c.deeds env price world) (c.turn env price world).1
      (c.turn env price world).2.2.2 := by
  unfold deeds turn
  by_cases hended : c.hasEnded
  · simpa [hended] using Moves.refl c world
  by_cases hstopped : c.line.isStopped
  · simpa [hended, hstopped] using (Move.leave c world).moves
  have hreport : Moves env price c world _ c.publish.1 world := (Move.report c world).moves
  have hbegin := hreport.step (.sort c.publish.1 world (c.commands.drop turnLimit))
  have htaken := hbegin.trans (takeAll_moves (c.commands.take turnLimit) _ world)
  simp only [hended, hstopped, publish_commands]
  by_cases hfull : c.overruns
  · simpa [hfull] using htaken.trans (workNow_moves _ _)
  by_cases hclosed : (takeAll env (c.commands.take turnLimit)
      { c.publish.1 with commands := c.commands.drop turnLimit } world).1.isClosed
  · simpa [hfull, hclosed] using htaken.step (.leave _ _)
  · simpa [hfull, hclosed] using
      htaken.trans (((workNow_moves _ _).trans (advance_moves _ _)).step (.report _ _))

/-- A submission begins at the price that is told. -/
theorem price_of_began {c : Checkout} {world : σ} {account : Option Address}
    {price' : Option Amount} (h : .beganSubmission account price' ∈ c.deeds env price world) :
    price' = price := by
  have hall : ∀ deed ∈ [] ++ c.deeds env price world,
      ∀ account price', deed = .beganSubmission account price' → price' = price := by
    refine (turn_moves c world).invariant (P := fun history _ => ∀ deed ∈ history,
      ∀ account price', deed = .beganSubmission account price' → price' = price) ?_ ?_
    · intro history c world ds c' world' hhistory hmove deed hdeed
      rcases List.mem_append.mp hdeed with hdeed | hdeed
      · exact hhistory deed hdeed
      · rintro account price' rfl
        cases hmove with
        | beginSubmission => simp_all
        | _ => simp at hdeed
    · exact fun deed hdeed => absurd hdeed List.not_mem_nil
  exact hall _ h account price' rfl

/-! ## What stays -/

/-- The reports that checkouts make. -/
def Reports : Report → Prop
  | .purchaseState _ | .submitted .. | .failed _ => True
  | .liveData _ => False

/-- What stays of a checkout, and what can arrive of it meanwhile. -/
structure Keeps (c : Checkout) (messages : List Message) (c' : Checkout) : Prop where
  setup_eq : c'.setup = c.setup
  line_eq : c'.line = c.line
  isClosed_eq : c'.isClosed = c.isClosed
  ended_of : c.hasEnded → c'.hasEnded
  reports : ∀ m ∈ messages,
    m.role = c.line.role ∧ m.generation = c.line.generation ∧ Reports m.report

theorem Keeps.trans {c c' c'' : Checkout} {first last : List Message} (h : Keeps c first c')
    (h' : Keeps c' last c'') : Keeps c (first ++ last) c'' where
  setup_eq := h'.setup_eq.trans h.setup_eq
  line_eq := h'.line_eq.trans h.line_eq
  isClosed_eq := h'.isClosed_eq.trans h.isClosed_eq
  ended_of := fun hended => h'.ended_of (h.ended_of hended)
  reports := by
    intro m hm
    rcases List.mem_append.mp hm with hm | hm
    · exact h.reports m hm
    · simpa [h.line_eq] using h'.reports m hm

theorem reports_post (c : Checkout) {report : Report} (h : Reports report) :
    ∀ m ∈ (c.line.post report).toList,
      m.role = c.line.role ∧ m.generation = c.line.generation ∧ Reports m.report := by
  intro m hm
  obtain rfl := Line.eq_of_mem_post hm
  exact ⟨rfl, rfl, h⟩

theorem publish_keeps (c : Checkout) : Keeps c c.publish.2 c.publish.1 := by
  unfold publish
  split
  · exact ⟨rfl, rfl, rfl, id, by simp⟩
  · exact ⟨rfl, rfl, rfl, id, reports_post c trivial⟩

theorem take_keeps (c : Checkout) (command : Command) (world : σ) :
    Keeps c [] (c.take env command world).1 := by
  cases command with
  | reset => exact ⟨rfl, rfl, rfl, id, by simp⟩
  | purchase request =>
      rw [take]
      split
      · split <;> exact ⟨rfl, rfl, rfl, id, by simp⟩
      · exact ⟨rfl, rfl, rfl, id, by simp⟩

theorem checked_keeps (c : Checkout) (result : Except Fault Eligibility) :
    Keeps c (c.checked result).2 (c.checked result).1 := by
  cases result with
  | error fault => exact ⟨rfl, rfl, rfl, id, reports_post c trivial⟩
  | ok eligibility => cases eligibility <;> exact ⟨rfl, rfl, rfl, id, by simp [checked]⟩

theorem submitted_keeps (c : Checkout) (account : Option Address) (result : Except Fault Hash) :
    Keeps c (c.submitted account result).2 (c.submitted account result).1 := by
  cases result with
  | ok txHash => exact ⟨rfl, rfl, rfl, id, reports_post c trivial⟩
  | error fault =>
      cases fault with
      | userRejected => exact ⟨rfl, rfl, rfl, id, by simp [submitted]⟩
      | _ => exact ⟨rfl, rfl, rfl, id, reports_post c trivial⟩

theorem Move.keeps {c c' : Checkout} {world world' : σ} {ds : List Deed}
    (h : Move env price c world ds c' world') : Keeps c (ds.filterMap Deed.message?) c' := by
  cases h with
  | report => simpa using publish_keeps c
  | take command => exact take_keeps c command world
  | endCheck hwork hjob => simpa [List.filterMap_cons, Deed.message?] using checked_keeps c _
  | endSubmission hwork hjob =>
      simpa [List.filterMap_cons, Deed.message?] using submitted_keeps c _ _
  | sort | beginCheck | beginSubmission => exact ⟨rfl, rfl, rfl, id, by simp [Deed.message?]⟩
  | awaitCheck | awaitSubmission => exact ⟨rfl, rfl, rfl, id, by simp⟩
  | leave => exact ⟨rfl, rfl, rfl, fun _ => rfl, by simp⟩

theorem turn_keeps (env : Environment σ) (price : Option Amount) (c : Checkout) (world : σ) :
    Keeps c (c.turn env price world).2.1 (c.turn env price world).1 := by
  have hmoves : Moves env price c world _ _ _ := turn_moves c world
  rw [← (deeds_tell env price c world).1]
  generalize c.deeds env price world = ds, (c.turn env price world).1 = c',
    (c.turn env price world).2.2.2 = world' at hmoves ⊢
  induction hmoves with
  | refl => exact ⟨rfl, rfl, rfl, id, by simp⟩
  | step _ hmove ih => simpa [List.filterMap_append] using ih.trans hmove.keeps

end Checkout

end MintSale
