import MintSale.Proofs.Checkout.Approval

/-!
# What is heard of the state of a checkout

A checkout reports every change of its state before the next one, so whoever has heard all its
reports knows its state. Once the wallet has been admitted, only a reset takes the checkout back.
-/

namespace MintSale

/-! ## States one after the other -/

/-- The wallet has been admitted, or something has failed. -/
def PurchasePhase.IsAdmitted (phase : PurchasePhase) : Prop :=
  phase ≠ .checkingEligibility ∧ phase ≠ .userIneligible

/-- A state that may come after another one: who has been admitted is not turned away. -/
def PurchaseState.Leads (state next : PurchaseState) : Prop :=
  state.phase.IsAdmitted → next.phase ≠ .userIneligible

/-- States that are heard after a first one, up to a last one. -/
inductive PurchaseState.Path : PurchaseState → List PurchaseState → PurchaseState → Prop where
  | nil (state : PurchaseState) : Path state [] state
  | cons {state next last : PurchaseState} {heard : List PurchaseState} (hleads : state.Leads next)
      (hrest : Path next heard last) : Path state (next :: heard) last

namespace PurchaseState

variable {first middle last : PurchaseState} {heard more : List PurchaseState}

theorem Leads.refl (state : PurchaseState) : state.Leads state :=
  And.right

theorem Path.append (h : Path first heard middle) (h' : Path middle more last) :
    Path first (heard ++ more) last := by
  induction h with
  | nil => exact h'
  | cons hleads _ ih => exact .cons hleads (ih h')

/-- What is still to be heard goes on from what was heard last. -/
theorem Path.rest (h : Path first (heard ++ more) last) :
    Path (heard.getLast?.getD first) more last := by
  induction heard generalizing first with
  | nil => exact h
  | cons next heard ih =>
      cases h with
      | cons _ hrest => simpa [List.getLast?_cons] using ih hrest

/-- Who has been admitted stays so until there is a new check. -/
theorem Path.isAdmitted (h : Path first heard last) (hfirst : first.phase.IsAdmitted)
    (hno : ∀ state ∈ heard, state.phase ≠ .checkingEligibility) : last.phase.IsAdmitted := by
  induction h with
  | nil => exact hfirst
  | cons hleads _ ih =>
      obtain ⟨hnext, hrest⟩ := List.forall_mem_cons.mp hno
      exact ih ⟨hnext, hleads hfirst⟩ hrest

end PurchaseState

/-! ## What a turn reports -/

/-- The state that a message reports. -/
def Message.state? (m : Message) : Option PurchaseState :=
  match m.report with
  | .purchaseState state => some state
  | _ => none

/-- The states that messages report. -/
def statesIn (messages : List Message) : List PurchaseState :=
  messages.filterMap Message.state?

@[simp] theorem statesIn_append (first second : List Message) :
    statesIn (first ++ second) = statesIn first ++ statesIn second :=
  List.filterMap_append

namespace Checkout

variable {σ : Type} {env : Environment σ} {price : Option Amount} {c d : Checkout}

/-- What a checkout does is heard by its sale. -/
def IsOnLine (c : Checkout) : Prop :=
  c.line.isStopped = false ∧ c.line.isHeard = true

/-- A checkout is only busy with what its phase is about. -/
def IsInPhase (c : Checkout) : Prop :=
  ∀ work, c.work = some work → c.state.phase = work.phase

theorem IsInPhase.work_of_ready (h : c.IsInPhase) (hphase : c.state.phase = .readyForPurchase) :
    c.work = none := by
  cases hwork : c.work with
  | none => rfl
  | some work =>
      have hbusy := h work hwork
      rw [hphase] at hbusy
      cases work <;> simp [Work.phase] at hbusy

/-- Its sale has heard of its state, or will. -/
structure IsKnown (c : Checkout) : Prop where
  onLine : c.IsOnLine
  inPhase : c.IsInPhase
  reported : c.reported = some c.state

theorem statesIn_publish (h : c.IsOnLine) :
    statesIn c.publish.2 = if c.reported = some c.state then [] else [c.state] := by
  unfold publish
  split
  · rfl
  · simp [Line.post, h.1, h.2, statesIn, Message.state?]

theorem publish_known (hline : c.IsOnLine) (hphase : c.IsInPhase) : c.publish.1.IsKnown := by
  rw [publish_eq]
  exact ⟨hline, hphase, rfl⟩

theorem publish_path (h : c.IsOnLine) {heard : PurchaseState}
    (hheard : heard = c.state ∨ c.reported = some heard ∧ heard.Leads c.state) :
    PurchaseState.Path heard (statesIn c.publish.2) c.publish.1.state := by
  have hleads : heard.Leads c.state := by
    rcases hheard with rfl | ⟨-, hleads⟩
    · exact .refl _
    · exact hleads
  rw [statesIn_publish h, publish_eq]
  split
  · next hsame =>
    have hknown : heard = c.state := by
      rcases hheard with hknown | ⟨hreported, -⟩
      · exact hknown
      · exact Option.some.inj (hreported.symm.trans hsame)
    rw [hknown]
    exact .nil _
  · exact .cons hleads (.nil _)

theorem IsKnown.take (h : c.IsKnown) (env : Environment σ) (command : Command) (world : σ) :
    let d := (c.take env command world).1
    d.publish.1.IsKnown ∧ PurchaseState.Path c.state (statesIn d.publish.2) d.publish.1.state := by
  intro d
  have hline : d.IsOnLine := by
    rw [IsOnLine, (take_keeps c command world).line_eq]
    exact h.onLine
  have hreported : d.reported = some c.state ∧ c.state.Leads d.state ∧ d.IsInPhase := by
    cases command with
    | reset =>
        exact ⟨h.reported, fun _ => by simp [d, Checkout.take, PurchaseState.initial], by
          simp [d, Checkout.take, IsInPhase]⟩
    | purchase request =>
        simp only [d, Checkout.take]
        split
        · next hready =>
          split
          · refine ⟨h.reported, fun _ => by simp [PurchaseState.begin], ?_⟩
            simp [IsInPhase, h.inPhase.work_of_ready hready]
          · exact ⟨h.reported, .refl _, h.inPhase⟩
        · exact ⟨h.reported, .refl _, h.inPhase⟩
  exact ⟨publish_known hline hreported.2.2, publish_path hline (.inr ⟨hreported.1, hreported.2.1⟩)⟩

theorem IsKnown.takeAll (h : c.IsKnown) (env : Environment σ) (commands : List Command)
    (world : σ) :
    (takeAll env commands c world).1.IsKnown ∧
      PurchaseState.Path c.state (statesIn (takeAll env commands c world).2.1)
        (takeAll env commands c world).1.state := by
  induction commands generalizing c world with
  | nil => exact ⟨h, .nil _⟩
  | cons command commands ih =>
      obtain ⟨hknown, hpath⟩ := h.take env command world
      obtain ⟨hlast, hrest⟩ := ih hknown (c.take env command world).2
      exact ⟨hlast, by simpa [Checkout.takeAll] using hpath.append hrest⟩

theorem workNow_phase (h : c.IsInPhase) {world : σ} {work : Work}
    (hwork : c.workNow env price world = some work) : c.state.phase = work.phase := by
  unfold workNow at hwork
  split at hwork
  · next hphase _ =>
    obtain rfl := Option.some.inj hwork
    exact hphase
  · next hphase _ =>
    obtain rfl := Option.some.inj hwork
    exact hphase
  · exact h work hwork

theorem statesIn_failed (line : Line) (message : String) :
    statesIn (line.post (.failed message)).toList = [] := by
  unfold Line.post
  split <;> rfl

theorem checked_unreported (c : Checkout) (result : Except Fault Eligibility) :
    (c.checked result).1.reported = c.reported ∧ (c.checked result).1.work = none ∧
      statesIn (c.checked result).2 = [] := by
  rcases result with fault | eligibility
  · exact ⟨rfl, rfl, statesIn_failed c.line _⟩
  · cases eligibility <;> exact ⟨rfl, rfl, rfl⟩

theorem submitted_unreported (c : Checkout) (account : Option Address)
    (result : Except Fault Hash) :
    (c.submitted account result).1.reported = c.reported ∧
      (c.submitted account result).1.work = none ∧
      statesIn (c.submitted account result).2 = [] ∧
      (c.submitted account result).1.state.phase ≠ .userIneligible := by
  rcases result with fault | txHash
  · cases fault with
    | userRejected => exact ⟨rfl, rfl, rfl, by simp [submitted]⟩
    | _ => exact ⟨rfl, rfl, statesIn_failed c.line _, by simp [submitted, PurchaseState.broken]⟩
  · refine ⟨rfl, rfl, ?_, by simp [submitted, PurchaseState.bought]⟩
    simp only [submitted, Line.post]
    split <;> rfl

/-- Work turns nobody away who has been admitted, and leaves the report to be made. -/
structure Advances (c : Checkout) (messages : List Message) (d : Checkout) : Prop where
  line_eq : d.line = c.line
  reported_eq : d.reported = c.reported
  inPhase : d.IsInPhase
  states_eq : statesIn messages = []
  leads : c.state.Leads d.state

theorem advance_advances (h : c.IsInPhase) (world : σ) :
    Advances c (c.advance env price world).2.1 (c.advance env price world).1 := by
  cases hwork : c.workNow env price world with
  | none => simpa [advance, hwork] using (⟨rfl, rfl, h, rfl, .refl _⟩ : Advances c [] c)
  | some work =>
      have hphase := workNow_phase h hwork
      cases work with
      | check job =>
          rcases hjob : job.resume env world with ⟨result | next, asked, world'⟩
          · obtain ⟨hreported, hnone, hstates⟩ := checked_unreported c result
            have hended : Advances c (c.checked result).2 (c.checked result).1 :=
              ⟨(checked_keeps c result).line_eq, hreported, by simp [IsInPhase, hnone], hstates,
                fun hadmitted => absurd hphase hadmitted.1⟩
            simpa [advance, hwork, hjob] using hended
          · have hawaits : Advances c [] { c with work := some (.check next) } :=
              ⟨rfl, rfl, by rintro work ⟨⟩; exact hphase, rfl, .refl _⟩
            simpa [advance, hwork, hjob] using hawaits
      | submission job =>
          rcases hjob : job.resume env world with ⟨result | next, asked, world'⟩
          · obtain ⟨hreported, hnone, hstates, hmild⟩ :=
              submitted_unreported c (env.account world' c.setup.wallet) result
            have hended : Advances c (c.submitted (env.account world' c.setup.wallet) result).2
                (c.submitted (env.account world' c.setup.wallet) result).1 :=
              ⟨(submitted_keeps c _ result).line_eq, hreported, by simp [IsInPhase, hnone],
                hstates, fun _ => hmild⟩
            simpa [advance, hwork, hjob] using hended
          · have hawaits : Advances c [] { c with work := some (.submission next) } :=
              ⟨rfl, rfl, by rintro work ⟨⟩; exact hphase, rfl, .refl _⟩
            simpa [advance, hwork, hjob] using hawaits

theorem IsKnown.advance (h : c.IsKnown) (env : Environment σ) (price : Option Amount) (world : σ) :
    let d := (c.advance env price world).1
    d.publish.1.IsKnown ∧ PurchaseState.Path c.state
      (statesIn ((c.advance env price world).2.1 ++ d.publish.2)) d.publish.1.state := by
  intro d
  have hadvances : Advances c (c.advance env price world).2.1 d := advance_advances h.inPhase world
  have hline : d.IsOnLine := by
    rw [IsOnLine, hadvances.line_eq]
    exact h.onLine
  have hreported : d.reported = some c.state := hadvances.reported_eq.trans h.reported
  refine ⟨publish_known hline hadvances.inPhase, ?_⟩
  rw [statesIn_append, hadvances.states_eq, List.nil_append]
  exact publish_path hline (.inr ⟨hreported, hadvances.leads⟩)

/-- A turn reports the states through which it goes. -/
theorem turn_path (hline : c.IsOnLine) (h : c.IsInPhase) (world : σ) :
    (c.turn env price world).1.IsInPhase ∧
      PurchaseState.Path c.state (statesIn (c.turn env price world).2.1)
        (c.turn env price world).1.state := by
  have hfirst : PurchaseState.Path c.state (statesIn c.publish.2) c.publish.1.state :=
    publish_path hline (.inl rfl)
  have hready : { c.publish.1 with commands := c.commands.drop turnLimit : Checkout }.IsKnown :=
    { publish_known hline h with }
  obtain ⟨hknown, hpath⟩ := hready.takeAll env (c.commands.take turnLimit) world
  have htaken := hfirst.append hpath
  unfold turn
  by_cases hended : c.hasEnded
  · simpa [hended] using ⟨h, .nil _⟩
  simp only [hended, hline.1, publish_commands]
  generalize takeAll env (c.commands.take turnLimit)
    { c.publish.1 with commands := c.commands.drop turnLimit } world = taken at hknown htaken ⊢
  obtain ⟨d, messages, next⟩ := taken
  by_cases hfull : c.overruns
  · have hinPhase : { d with work := d.workNow env price next : Checkout }.IsInPhase :=
      fun work hwork => workNow_phase hknown.inPhase hwork
    simpa [hfull] using ⟨hinPhase, htaken⟩
  by_cases hclosed : d.isClosed
  · simpa [hfull, hclosed, IsInPhase] using htaken
  · obtain ⟨hlast, hrest⟩ := hknown.advance env price next
    have hall := htaken.append hrest
    simpa [hfull, hclosed] using ⟨hlast.inPhase, by simpa using hall⟩

end Checkout

end MintSale
