import MintSale.Proofs.Checkout.Deeds
import MintSale.Proofs.Collaborator.Hearing

/-!
# The story of a checkout

What a checkout does is a story of scenes. A scene shows the checkout and the world before and after
it, the deeds, and the answers that the checkout gets.
-/

namespace MintSale

/-- One thing that a checkout does. -/
structure Scene (σ : Type) where
  before : Checkout
  worldBefore : σ
  /-- The answers that its work gets. -/
  heard : List Answered
  deeds : List Deed
  after : Checkout
  worldAfter : σ

variable {σ : Type}

def deedsOf (story : List (Scene σ)) : List Deed :=
  story.flatMap (·.deeds)

@[simp] theorem deedsOf_append (first second : List (Scene σ)) :
    deedsOf (first ++ second) = deedsOf first ++ deedsOf second :=
  List.flatMap_append

@[simp] theorem deedsOf_cons (s : Scene σ) (story : List (Scene σ)) :
    deedsOf (s :: story) = s.deeds ++ deedsOf story :=
  List.flatMap_cons

@[simp] theorem deedsOf_nil : deedsOf ([] : List (Scene σ)) = [] :=
  rfl

namespace Checkout

variable (env : Environment σ) (price : Option Amount)

/-! ## The scenes of a turn -/

/-- The answers that the work gets when it goes on. -/
def heard (c : Checkout) (world : σ) : List Answered :=
  match c.work with
  | none => []
  | some (.check job) => job.heard env world
  | some (.submission job) => job.heard env world

def reportScene (c : Checkout) (world : σ) : Scene σ :=
  ⟨c, world, [], c.publish.2.map .posted, c.publish.1, world⟩

def takeScene (command : Command) (c : Checkout) (world : σ) : Scene σ :=
  ⟨c, world, [], [.took command], (c.take env command world).1, (c.take env command world).2⟩

/-- The checkout busy with what is due. -/
def begun (c : Checkout) (world : σ) : Checkout :=
  { c with work := c.workNow env price world }

def beginScene (c : Checkout) (world : σ) : Scene σ :=
  ⟨c, world, [], beginDeeds env price c world, c.begun env price world, world⟩

def workScene (c : Checkout) (world : σ) : Scene σ :=
  ⟨c.begun env price world, world, (c.begun env price world).heard env world,
    workDeeds env price c world, (c.advance env price world).1, (c.advance env price world).2.2.2⟩

/-- The scenes when commands are taken in order. -/
def takeScenes : List Command → Checkout → σ → List (Scene σ)
  | [], _, _ => []
  | command :: rest, c, world =>
    let (d, next) := c.take env command world
    takeScene env command c world :: reportScene d next :: takeScenes rest d.publish.1 next

def scenes (c : Checkout) (world : σ) : List (Scene σ) :=
  if c.hasEnded || c.line.isStopped then []
  else
    let commands := c.commands.take turnLimit
    let ready := { c.publish.1 with commands := c.commands.drop turnLimit }
    let taken := reportScene c world :: takeScenes env commands ready world
    let (d, _, next) := takeAll env commands ready world
    if c.overruns then taken ++ [beginScene env price d next]
    else if d.isClosed then taken
    else
      let (e, _, _, last) := d.advance env price next
      taken ++ [beginScene env price d next, workScene env price d next, reportScene e last]

theorem deedsOf_takeScenes (commands : List Command) (c : Checkout) (world : σ) :
    deedsOf (takeScenes env commands c world) = takeDeeds env commands c world := by
  induction commands generalizing c world with
  | nil => rfl
  | cons command commands ih => simp [takeScenes, takeDeeds, takeScene, reportScene, ih]

/-- The scenes of a turn tell its deeds. -/
theorem deedsOf_scenes (c : Checkout) (world : σ) :
    deedsOf (c.scenes env price world) = c.deeds env price world := by
  unfold scenes deeds
  by_cases hgone : c.hasEnded || c.line.isStopped
  · simp [hgone]
  by_cases hfull : c.overruns
  · simp [hgone, hfull, deedsOf_takeScenes, reportScene, beginScene]
  by_cases hclosed : (takeAll env (c.commands.take turnLimit)
      { c.publish.1 with commands := c.commands.drop turnLimit } world).1.isClosed
  · simp [hgone, hfull, hclosed, deedsOf_takeScenes, reportScene]
  · simp [hgone, hfull, hclosed, deedsOf_takeScenes, reportScene, beginScene, workScene]

/-! ## Kinds of scenes -/

/-- All that a scene can be. -/
inductive Staged : Scene σ → Prop where
  | report (c : Checkout) (world : σ) : Staged (reportScene c world)
  | take (command : Command) (c : Checkout) (world : σ) : Staged (takeScene env command c world)
  | rest (c : Checkout) (world : σ) : Staged ⟨c, world, [], [], c, world⟩
  | beginCheck (c : Checkout) (world : σ) (hphase : c.state.phase = .checkingEligibility)
      (hwork : c.work = none) :
      Staged ⟨c, world, [], [.beganCheck (env.account world c.setup.wallet) price],
        { c with work := some (.check (.fresh
          (checkProgram c.setup (env.account world c.setup.wallet) price))) }, world⟩
  | beginSubmission (c : Checkout) (world : σ) (hphase : c.state.phase = .initiatingPurchase)
      (hwork : c.work = none) :
      Staged ⟨c, world, [], [.beganSubmission (env.account world c.setup.wallet) price],
        { c with work := some (.submission (.fresh
          (submissionProgram c.setup c.state (env.account world c.setup.wallet) price))) }, world⟩
  | awaitCheck {c : Checkout} {world world' : σ} {job next : Job Eligibility} {asked : List Call}
      (hwork : c.work = some (.check job))
      (hjob : job.resume env world = (.pending next, asked, world')) :
      Staged ⟨c, world, job.heard env world, asked.map .asked,
        { c with work := some (.check next) }, world'⟩
  | endCheck {c : Checkout} {world world' : σ} {job : Job Eligibility} {asked : List Call}
      {result : Except Fault Eligibility} (hwork : c.work = some (.check job))
      (hjob : job.resume env world = (.finished result, asked, world')) :
      Staged ⟨c, world, job.heard env world,
        asked.map .asked ++ .endedCheck result :: (c.checked result).2.map .posted,
        (c.checked result).1, world'⟩
  | awaitSubmission {c : Checkout} {world world' : σ} {job next : Job Hash} {asked : List Call}
      (hwork : c.work = some (.submission job))
      (hjob : job.resume env world = (.pending next, asked, world')) :
      Staged ⟨c, world, job.heard env world, asked.map .asked,
        { c with work := some (.submission next) }, world'⟩
  | endSubmission {c : Checkout} {world world' : σ} {job : Job Hash} {asked : List Call}
      {result : Except Fault Hash} (hwork : c.work = some (.submission job))
      (hjob : job.resume env world = (.finished result, asked, world')) :
      Staged ⟨c, world, job.heard env world,
        asked.map .asked ++ .endedSubmission result ::
          (c.submitted (env.account world' c.setup.wallet) result).2.map .posted,
        (c.submitted (env.account world' c.setup.wallet) result).1, world'⟩

section Kinds

variable {env price} {c : Checkout} {world : σ}

/-- Nothing begins when nothing is due. -/
theorem beginScene_of_settled (h : c.work = none → c.state.phase ≠ .checkingEligibility ∧
      c.state.phase ≠ .initiatingPurchase) :
    beginScene env price c world = ⟨c, world, [], [], c, world⟩ := by
  unfold beginScene beginDeeds begun workNow
  cases hwork : c.work with
  | some work =>
      have hsame : { c with work := some work } = c := by rw [← hwork]
      cases c.state.phase <;> simp [hsame]
  | none =>
      have hsame : { c with work := none } = c := by rw [← hwork]
      obtain ⟨hcheck, hsubmission⟩ := h hwork
      cases hphase : c.state.phase with
      | checkingEligibility => exact absurd hphase hcheck
      | initiatingPurchase => exact absurd hphase hsubmission
      | readyForPurchase | userIneligible | error => simp [hsame]

theorem begun_of_none (h : c.workNow env price world = none) : c.begun env price world = c := by
  have hnone : c.work = none := by
    unfold workNow at h
    split at h <;> simp_all
  rw [begun, h, ← hnone]

theorem staged_begin (c : Checkout) (world : σ) :
    Staged env price (beginScene env price c world) := by
  by_cases hsettled : c.work = none → c.state.phase ≠ .checkingEligibility ∧
      c.state.phase ≠ .initiatingPurchase
  · rw [beginScene_of_settled hsettled]
    exact .rest c world
  · obtain ⟨hwork, hphase⟩ := Classical.not_imp.mp hsettled
    by_cases hcheck : c.state.phase = .checkingEligibility
    · simpa [beginScene, beginDeeds, begun, workNow, hwork, hcheck] using
        (Staged.beginCheck c world hcheck hwork : Staged env price _)
    · have hsubmission : c.state.phase = .initiatingPurchase := by simpa [hcheck] using hphase
      simpa [beginScene, beginDeeds, begun, workNow, hwork, hsubmission] using
        (Staged.beginSubmission c world hsubmission hwork : Staged env price _)

theorem staged_work (c : Checkout) (world : σ) :
    Staged env price (workScene env price c world) := by
  cases hnow : c.workNow env price world with
  | none =>
      have hwork : c.work = none := by
        rw [← begun_of_none hnow]
        exact hnow
      simpa [workScene, workDeeds, advance, hnow, begun_of_none hnow, heard, hwork] using
        (Staged.rest c world : Staged env price _)
  | some work =>
      have hbegun : (c.begun env price world).work = some work := hnow
      cases work with
      | check job =>
          rcases hjob : job.resume env world with ⟨result | next, asked, world'⟩
          · simpa [workScene, workDeeds, advance, hnow, hjob, begun, heard, checked_work] using
              (Staged.endCheck hbegun hjob : Staged env price _)
          · simpa [workScene, workDeeds, advance, hnow, hjob, begun, heard] using
              (Staged.awaitCheck hbegun hjob : Staged env price _)
      | submission job =>
          rcases hjob : job.resume env world with ⟨result | next, asked, world'⟩
          · simpa [workScene, workDeeds, advance, hnow, hjob, begun, heard, submitted_work] using
              (Staged.endSubmission hbegun hjob : Staged env price _)
          · simpa [workScene, workDeeds, advance, hnow, hjob, begun, heard] using
              (Staged.awaitSubmission hbegun hjob : Staged env price _)

/-- What every scene preserves, a turn preserves. -/
theorem scenes_invariant {P : List (Scene σ) → Checkout → Prop}
    (hscene : ∀ {story s}, P story s.before → Staged env price s → P (story ++ [s]) s.after)
    (hsort : ∀ {story c} commands, P story c → P story { c with commands := commands })
    (hleave : ∀ {story c}, P story c → P story { c with hasEnded := true, work := none })
    {story : List (Scene σ)} (h : P story c) (world : σ) :
    P (story ++ c.scenes env price world) (c.turn env price world).1 := by
  have hreport {story c} world (hc : P story c) :
      P (story ++ [reportScene c world]) c.publish.1 := hscene hc (.report c world)
  have hbegin {story c} world (hc : P story c) :
      P (story ++ [beginScene env price c world]) (c.begun env price world) :=
    hscene hc (staged_begin c world)
  have hwork {story c} world (hc : P story (c.begun env price world)) :
      P (story ++ [workScene env price c world]) (c.advance env price world).1 :=
    hscene hc (staged_work c world)
  have htakeAll (commands) : ∀ {story c} world, P story c →
      P (story ++ takeScenes env commands c world) (takeAll env commands c world).1 := by
    induction commands with
    | nil => exact fun world hc => by simpa [takeScenes, takeAll] using hc
    | cons command commands ih =>
        intro story c world hc
        have htaken : P (story ++ [takeScene env command c world]) (c.take env command world).1 :=
          hscene hc (.take command c world)
        simpa [takeScenes, takeAll] using ih _ (hreport (c.take env command world).2 htaken)
  unfold scenes turn
  by_cases hended : c.hasEnded
  · simpa [hended] using h
  by_cases hstopped : c.line.isStopped
  · simpa [hended, hstopped] using hleave h
  have hready := hsort (c.commands.drop turnLimit) (hreport world h)
  have htaken := htakeAll (c.commands.take turnLimit) world hready
  simp only [hended, hstopped, publish_commands]
  by_cases hfull : c.overruns
  · simpa [hfull, begun] using hbegin _ htaken
  by_cases hclosed : (takeAll env (c.commands.take turnLimit)
      { c.publish.1 with commands := c.commands.drop turnLimit } world).1.isClosed
  · simpa [hfull, hclosed] using hleave htaken
  · simpa [hfull, hclosed] using hreport _ (hwork _ (hbegin _ htaken))

theorem Staged.setup_eq {s : Scene σ} (h : Staged env price s) :
    s.after.setup = s.before.setup := by
  cases h with
  | report c world => exact (publish_keeps c).setup_eq
  | take command c world => exact (take_keeps c command world).setup_eq
  | endCheck => exact (checked_keeps _ _).setup_eq
  | endSubmission => exact (submitted_keeps _ _ _).setup_eq
  | rest | beginCheck | beginSubmission | awaitCheck | awaitSubmission => rfl

/-- A checkout keeps its setup through all scenes of its turn. -/
theorem staged_of_mem {s : Scene σ} (hs : s ∈ c.scenes env price world) :
    Staged env price s ∧ s.before.setup = c.setup := by
  have hall : (c.turn env price world).1.setup = c.setup ∧
      ∀ s ∈ [] ++ c.scenes env price world, Staged env price s ∧ s.before.setup = c.setup := by
    refine scenes_invariant (P := fun story d => d.setup = c.setup ∧
      ∀ s ∈ story, Staged env price s ∧ s.before.setup = c.setup) ?_ (fun _ h => h) (fun h => h)
      ⟨rfl, by simp⟩ world
    rintro story s ⟨hsetup, hstory⟩ hstaged
    refine ⟨hstaged.setup_eq.trans hsetup, fun t ht => ?_⟩
    rcases List.mem_append.mp ht with ht | ht
    · exact hstory t ht
    · obtain rfl := List.mem_singleton.mp ht
      exact ⟨hstaged, hsetup⟩
  exact hall.2 s hs

theorem scenes_of_gone (h : c.line.isStopped = true ∨ c.hasEnded = true) (world : σ) :
    c.scenes env price world = [] := by
  unfold scenes
  rcases h with h | h <;> simp [h]

end Kinds

/-! ## Runs -/

/-- What may happen to a checkout that has nobody but a host. -/
inductive Act (σ : Type) where
  | turn (price : Option Amount)
  | tell (command : Command)
  /-- No more commands can come. -/
  | close
  | stop
  /-- Nobody hears its reports any more. -/
  | hangUp
  | change (event : σ → σ)

def act (c : Checkout) (world : σ) : Act σ → Checkout × σ
  | .turn price => ((c.turn env price world).1, (c.turn env price world).2.2.2)
  | .tell command => ({ c with commands := c.commands ++ [command] }, world)
  | .close => ({ c with isClosed := true }, world)
  | .stop => (c.stop, world)
  | .hangUp => ({ c with line := { c.line with isHeard := false } }, world)
  | .change event => (c, event world)

def actScenes (c : Checkout) (world : σ) : Act σ → List (Scene σ)
  | .turn price => c.scenes env price world
  | _ => []

def story (c : Checkout) (world : σ) : List (Act σ) → List (Scene σ)
  | [] => []
  | act :: acts =>
    c.actScenes env world act ++ story (c.act env world act).1 (c.act env world act).2 acts

end Checkout

end MintSale
