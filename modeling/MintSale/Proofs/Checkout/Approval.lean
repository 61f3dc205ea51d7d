import MintSale.Proofs.Checkout.Deeds
import MintSale.Proofs.Checkout.Sending
import MintSale.Proofs.History

/-!
# What goes before a transaction

A checkout only lets its wallet send what the wallet's account has been approved for, by a check
since the last reset, and at the price with which the submission began.
-/

namespace MintSale

open History

/-- Whether a deed begins or ends a piece of work, or gives it up. -/
def Deed.IsTurn : Deed → Prop
  | .took .reset | .beganCheck .. | .endedCheck _ | .beganSubmission .. | .endedSubmission _ => True
  | _ => False

namespace Checkout

/-! ## Approval -/

/-- An account has been approved: it was checked and found eligible, and there was no reset since
the check began. -/
def Approved (history : List Deed) (account : Address) (details : EligibilityDetails) : Prop :=
  ∃ before price during after,
    history = before ++ .beganCheck (some account) price :: during ++
      .endedCheck (.ok (.eligible details)) :: after ∧
    (∀ deed ∈ during, ¬ deed.IsTurn) ∧ .took .reset ∉ after

theorem Approved.append {history : List Deed} {account : Address} {details : EligibilityDetails}
    (h : Approved history account details) {ds : List Deed} (hds : .took .reset ∉ ds) :
    Approved (history ++ ds) account details := by
  obtain ⟨before, price, during, after, rfl, hduring, hafter⟩ := h
  refine ⟨before, price, during, after ++ ds, by simp, hduring, ?_⟩
  intro hreset
  rcases List.mem_append.mp hreset with hreset | hreset
  · exact hafter hreset
  · exact hds hreset

/-- A check that ends well approves the account with which it began. -/
theorem approved_of_latest {history : List Deed} {account : Address} {price : Option Amount}
    (h : Latest Deed.IsTurn history (.beganCheck (some account) price))
    (details : EligibilityDetails) {asked : List Call} :
    Approved (history ++ (asked.map .asked ++ [.endedCheck (.ok (.eligible details))])) account
      details := by
  obtain ⟨-, before, during, rfl, hduring⟩ := h
  refine ⟨before, price, during ++ asked.map .asked, [], by simp, ?_, by simp⟩
  intro deed hdeed
  rcases List.mem_append.mp hdeed with hdeed | hdeed
  · exact hduring deed hdeed
  · obtain ⟨call, -, rfl⟩ := List.mem_map.mp hdeed
    exact id

/-- All that goes before a transaction that a checkout lets a wallet send. -/
structure Licensed (accounts : Accounts) (s : Setup) (earlier : List Deed) (wallet : WalletClient)
    (tx : Transaction) : Prop where
  wallet_eq : wallet = s.wallet
  account_eq : accounts s.wallet = some tx.sender
  approved : ∃ details, Approved earlier tx.sender details
  priced : ∃ price, Latest Deed.IsTurn earlier (.beganSubmission (some tx.sender) (some price)) ∧
    Sells s tx.sender price tx

/-- Every transaction in a history is licensed by what goes before it. -/
def AllLicensed (accounts : Accounts) (s : Setup) (history : List Deed) : Prop :=
  Throughout (fun earlier deed => ∀ wallet tx, deed = .asked (.send wallet tx) →
    Licensed accounts s earlier wallet tx) history

/-! ## The invariant -/

/-- The phase in which a checkout is busy with something. -/
def Work.phase : Work → PurchasePhase
  | .check _ => .checkingEligibility
  | .submission _ => .initiatingPurchase

/-- The state of a checkout follows from what it has done. -/
structure Consistent (accounts : Accounts) (history : List Deed) (c : Checkout) : Prop where
  phase_of_work : ∀ work, c.work = some work → c.state.phase = work.phase
  approved : c.state.phase = .readyForPurchase ∨ c.state.phase = .initiatingPurchase →
    ∃ account details, accounts c.setup.wallet = some account ∧ Approved history account details
  checking : ∀ job, c.work = some (.check job) →
    ∃ price, Latest Deed.IsTurn history (.beganCheck (accounts c.setup.wallet) price) ∧
      job.Within (¬ ·.IsSend) fun result =>
        ∀ details, result = .ok (.eligible details) → (accounts c.setup.wallet).isSome
  submitting : ∀ job, c.work = some (.submission job) →
    ∃ price, Latest Deed.IsTurn history (.beganSubmission (accounts c.setup.wallet) price) ∧
      job.Within (Submits c.setup (accounts c.setup.wallet) price) fun _ => True
  licensed : AllLicensed accounts c.setup history

/-- A checkout that is not busy only has to have been approved. -/
theorem consistent_of_idle {accounts : Accounts} {history : List Deed} {c : Checkout}
    (hwork : c.work = none)
    (happroved : c.state.phase = .readyForPurchase ∨ c.state.phase = .initiatingPurchase →
      ∃ account details, accounts c.setup.wallet = some account ∧
        Approved history account details)
    (hlicensed : AllLicensed accounts c.setup history) : Consistent accounts history c where
  phase_of_work := by simp [hwork]
  approved := happroved
  checking := by simp [hwork]
  submitting := by simp [hwork]
  licensed := hlicensed

/-- A checkout that is busy with a check only has to ask nothing of its wallet. -/
theorem consistent_of_check {accounts : Accounts} {history : List Deed} {c : Checkout}
    {job : Job Eligibility} {price : Option Amount} (hwork : c.work = some (.check job))
    (hphase : c.state.phase = .checkingEligibility)
    (hlatest : Latest Deed.IsTurn history (.beganCheck (accounts c.setup.wallet) price))
    (hwithin : job.Within (¬ ·.IsSend) fun result =>
      ∀ details, result = .ok (.eligible details) → (accounts c.setup.wallet).isSome)
    (hlicensed : AllLicensed accounts c.setup history) : Consistent accounts history c where
  phase_of_work := by simp [hwork, hphase, Work.phase]
  approved := by simp [hphase]
  checking := by
    intro other hother
    obtain rfl : job = other := by simpa [hwork] using hother
    exact ⟨price, hlatest, hwithin⟩
  submitting := by simp [hwork]
  licensed := hlicensed

/-- A checkout that is busy with a submission has been approved, and asks of its wallet only what
the submission is for. -/
theorem consistent_of_submission {accounts : Accounts} {history : List Deed} {c : Checkout}
    {job : Job Hash} {price : Option Amount} (hwork : c.work = some (.submission job))
    (hphase : c.state.phase = .initiatingPurchase)
    (happroved : ∃ account details, accounts c.setup.wallet = some account ∧
      Approved history account details)
    (hlatest : Latest Deed.IsTurn history (.beganSubmission (accounts c.setup.wallet) price))
    (hwithin : job.Within (Submits c.setup (accounts c.setup.wallet) price) fun _ => True)
    (hlicensed : AllLicensed accounts c.setup history) : Consistent accounts history c where
  phase_of_work := by simp [hwork, hphase, Work.phase]
  approved := fun _ => happroved
  checking := by simp [hwork]
  submitting := by
    intro other hother
    obtain rfl : job = other := by simpa [hwork] using hother
    exact ⟨price, hlatest, hwithin⟩
  licensed := hlicensed

theorem consistent_fresh (accounts : Accounts) (setup : Setup) (generation : Nat) :
    Consistent accounts [] (fresh setup generation) :=
  consistent_of_idle rfl (by simp [fresh, PurchaseState.initial]) (throughout_nil _)

/-! ## Moves -/

/-- Deeds that ask nothing of a wallet need no license. -/
theorem AllLicensed.append {accounts : Accounts} {s : Setup} {history ds : List Deed}
    (h : AllLicensed accounts s history)
    (hds : ∀ wallet tx, .asked (.send wallet tx) ∉ ds) :
    AllLicensed accounts s (history ++ ds) := by
  refine (throughout_append_iff _ _ _).mpr ⟨h, ?_⟩
  refine throughout_of_forall _ fun deed hdeed earlier wallet tx hsend => ?_
  subst hsend
  exact absurd hdeed (hds wallet tx)

variable {σ : Type} {env : Environment σ} {price : Option Amount} {accounts : Accounts}
  {history : List Deed} {c : Checkout}

/-- Reports and what they report make no difference. -/
theorem Consistent.quiet (h : Consistent accounts history c) {c' : Checkout}
    (hsetup : c'.setup = c.setup) (hstate : c'.state = c.state) (hwork : c'.work = c.work)
    {ds : List Deed} (hds : ∀ deed ∈ ds, ¬ deed.IsTurn ∧ ∀ call, deed ≠ .asked call) :
    Consistent accounts (history ++ ds) c' where
  phase_of_work := by simpa [hstate, hwork] using h.phase_of_work
  approved := by
    intro hphase
    obtain ⟨account, details, haccount, happroved⟩ := h.approved (by simpa [hstate] using hphase)
    refine ⟨account, details, by simpa [hsetup] using haccount, happroved.append fun hreset => ?_⟩
    exact (hds _ hreset).1 trivial
  checking := by
    intro job hjob
    obtain ⟨price, hlatest, hwithin⟩ := h.checking job (hwork ▸ hjob)
    rw [hsetup]
    exact ⟨price, hlatest.append fun deed hdeed => (hds deed hdeed).1, hwithin⟩
  submitting := by
    intro job hjob
    obtain ⟨price, hlatest, hwithin⟩ := h.submitting job (hwork ▸ hjob)
    rw [hsetup]
    exact ⟨price, hlatest.append fun deed hdeed => (hds deed hdeed).1, hwithin⟩
  licensed := by
    rw [hsetup]
    exact h.licensed.append fun wallet tx hmem => (hds _ hmem).2 _ rfl

theorem not_isTurn_of_mem_asked {calls : List Call} {deed : Deed} (h : deed ∈ calls.map .asked) :
    ¬ deed.IsTurn := by
  obtain ⟨call, -, rfl⟩ := List.mem_map.mp h
  exact id

/-- What a submission asks of its wallet is licensed. -/
theorem Consistent.submission_licensed (h : Consistent accounts history c) {job : Job Hash}
    (hwork : c.work = some (.submission job)) {price : Option Amount}
    (hlatest : Latest Deed.IsTurn history (.beganSubmission (accounts c.setup.wallet) price))
    {asked : List Call}
    (hasked : ∀ call ∈ asked, Submits c.setup (accounts c.setup.wallet) price call) :
    AllLicensed accounts c.setup (history ++ asked.map .asked) := by
  refine (throughout_append_iff _ _ _).mpr ⟨h.licensed, ?_⟩
  rintro earlier deed later hs wallet tx rfl
  have hearlier : ∀ deed ∈ earlier, ¬ deed.IsTurn := by
    intro deed hdeed
    have hmem : deed ∈ asked.map .asked := by
      rw [hs]
      exact List.mem_append_left _ hdeed
    exact not_isTurn_of_mem_asked hmem
  have hsend : Deed.asked (.send wallet tx) ∈ asked.map .asked := by simp [hs]
  obtain ⟨call, hcall, ⟨⟩⟩ := List.mem_map.mp hsend
  obtain ⟨hwallet, account, p, haccount, rfl, hsells⟩ := hasked _ hcall wallet tx rfl
  -- The account that was approved is the one that submits, since a wallet keeps its account.
  obtain ⟨a, details, ha, happroved⟩ := h.approved (.inr (h.phase_of_work _ hwork))
  have hsame : a = account := Option.some.inj (ha.symm.trans haccount)
  have hsender : tx.sender = account := by
    obtain ⟨purchase, -, -, -, rfl, -, hbuilds⟩ := hsells
    exact hbuilds.sender_eq
  subst hsame hsender
  rw [ha] at hlatest
  exact {
    wallet_eq := hwallet
    account_eq := ha
    approved := ⟨details, happroved.append fun hreset => hearlier _ hreset trivial⟩
    priced := ⟨p, hlatest.append hearlier, hsells⟩ }

theorem Consistent.take (h : Consistent accounts history c) (command : Command) (world : σ) :
    Consistent accounts (history ++ [.took command]) (c.take env command world).1 := by
  have hlicensed : AllLicensed accounts c.setup (history ++ [.took command]) :=
    h.licensed.append (by simp)
  cases command with
  | reset =>
      exact consistent_of_idle rfl (by simp [Checkout.take, PurchaseState.initial]) hlicensed
  | purchase request =>
      have hkept : Consistent accounts (history ++ [.took (.purchase request)]) c :=
        h.quiet rfl rfl rfl (by simp [Deed.IsTurn])
      rw [Checkout.take]
      split
      · next hphase =>
        split
        · next account haccount =>
          -- A checkout that is ready is not busy with anything.
          have hwork : c.work = none := by
            cases hwork : c.work with
            | none => rfl
            | some work =>
                have hbusy := h.phase_of_work work hwork
                rw [hphase] at hbusy
                cases work <;> simp [Work.phase] at hbusy
          exact consistent_of_idle hwork (fun _ => hkept.approved (.inl hphase)) hlicensed
        · exact hkept
      · exact hkept

theorem Consistent.beginCheck (h : Consistent accounts history c) (price : Option Amount)
    (hphase : c.state.phase = .checkingEligibility) :
    Consistent accounts (history ++ [.beganCheck (accounts c.setup.wallet) price])
      { c with work := some (.check (.fresh
        (checkProgram c.setup (accounts c.setup.wallet) price))) } :=
  consistent_of_check rfl hphase (latest_concat history trivial) (checkProgram_within _ _ _)
    (h.licensed.append (by simp))

theorem Consistent.beginSubmission (h : Consistent accounts history c) (price : Option Amount)
    (hphase : c.state.phase = .initiatingPurchase) :
    Consistent accounts (history ++ [.beganSubmission (accounts c.setup.wallet) price])
      { c with work := some (.submission (.fresh
        (submissionProgram c.setup c.state (accounts c.setup.wallet) price))) } := by
  obtain ⟨account, details, haccount, happroved⟩ := h.approved (.inr hphase)
  exact consistent_of_submission rfl hphase
    ⟨account, details, haccount, happroved.append (by simp)⟩ (latest_concat history trivial)
    (submissionProgram_within _ _ _ _) (h.licensed.append (by simp))

theorem Consistent.awaitCheck (h : Consistent accounts history c) {job next : Job Eligibility}
    (hwork : c.work = some (.check job)) {world world' : σ} {asked : List Call}
    (hjob : job.resume env world = (.pending next, asked, world')) :
    Consistent accounts (history ++ asked.map .asked) { c with work := some (.check next) } := by
  obtain ⟨price, hlatest, hwithin⟩ := h.checking job hwork
  obtain ⟨hnext, hasked⟩ := hwithin.resume env world
  rw [hjob] at hnext hasked
  refine consistent_of_check rfl (h.phase_of_work _ hwork)
    (hlatest.append fun deed => not_isTurn_of_mem_asked) hnext (h.licensed.append ?_)
  exact fun wallet tx hmem => hasked (.send wallet tx) (by simpa using hmem) trivial

theorem Consistent.awaitSubmission (h : Consistent accounts history c) {job next : Job Hash}
    (hwork : c.work = some (.submission job)) {world world' : σ} {asked : List Call}
    (hjob : job.resume env world = (.pending next, asked, world')) :
    Consistent accounts (history ++ asked.map .asked)
      { c with work := some (.submission next) } := by
  obtain ⟨price, hlatest, hwithin⟩ := h.submitting job hwork
  obtain ⟨hnext, hasked⟩ := hwithin.resume env world
  rw [hjob] at hnext hasked
  have hphase := h.phase_of_work _ hwork
  obtain ⟨account, details, haccount, happroved⟩ := h.approved (.inr hphase)
  exact consistent_of_submission rfl hphase
    ⟨account, details, haccount, happroved.append (by simp)⟩
    (hlatest.append fun deed => not_isTurn_of_mem_asked) hnext
    (h.submission_licensed hwork hlatest hasked)

theorem Consistent.checked (h : Consistent accounts history c) {job : Job Eligibility}
    (hwork : c.work = some (.check job)) {asked : List Call}
    (hasked : ∀ call ∈ asked, ¬ call.IsSend)
    {result : Except Fault Eligibility}
    (hresult : ∀ details, result = .ok (.eligible details) → (accounts c.setup.wallet).isSome) :
    Consistent accounts (history ++ (asked.map .asked ++ [.endedCheck result]))
      (c.checked result).1 := by
  obtain ⟨price, hlatest, -⟩ := h.checking job hwork
  have hlicensed : AllLicensed accounts c.setup
      (history ++ (asked.map .asked ++ [.endedCheck result])) := by
    refine h.licensed.append fun wallet tx hmem => ?_
    have hsend : Call.send wallet tx ∈ asked := by simpa using hmem
    exact hasked _ hsend trivial
  rcases result with fault | ⟨details⟩ | reason
  · exact consistent_of_idle rfl (by simp [Checkout.checked, PurchaseState.broken]) hlicensed
  · obtain ⟨account, haccount⟩ := Option.isSome_iff_exists.mp (hresult details rfl)
    rw [haccount] at hlatest
    exact consistent_of_idle rfl
      (fun _ => ⟨account, details, haccount, approved_of_latest hlatest details⟩) hlicensed
  · exact consistent_of_idle rfl (by simp [Checkout.checked]) hlicensed

theorem Consistent.submitted (h : Consistent accounts history c) {job : Job Hash}
    (hwork : c.work = some (.submission job)) {price : Option Amount}
    (hlatest : Latest Deed.IsTurn history (.beganSubmission (accounts c.setup.wallet) price))
    {asked : List Call}
    (hasked : ∀ call ∈ asked, Submits c.setup (accounts c.setup.wallet) price call)
    (account : Option Address) (result : Except Fault Hash) :
    Consistent accounts (history ++ (asked.map .asked ++ [.endedSubmission result]))
      (c.submitted account result).1 := by
  have hlicensed : AllLicensed accounts c.setup
      (history ++ (asked.map .asked ++ [.endedSubmission result])) := by
    rw [← List.append_assoc]
    exact (h.submission_licensed hwork hlatest hasked).append (by simp)
  obtain ⟨a, details, ha, happroved⟩ := h.approved (.inr (h.phase_of_work _ hwork))
  have happroved' :
      Approved (history ++ (asked.map .asked ++ [.endedSubmission result])) a details :=
    happroved.append (by simp)
  cases result with
  | ok txHash =>
      exact consistent_of_idle rfl (fun _ => ⟨a, details, ha, happroved'⟩) hlicensed
  | error fault =>
      cases fault with
      | userRejected =>
          exact consistent_of_idle rfl (fun _ => ⟨a, details, ha, happroved'⟩) hlicensed
      | _ =>
          refine consistent_of_idle rfl ?_ hlicensed
          simp [Checkout.submitted, PurchaseState.broken]

theorem not_isTurn_of_mem_posted {messages : List Message} {deed : Deed}
    (h : deed ∈ messages.map .posted) : ¬ deed.IsTurn ∧ ∀ call, deed ≠ .asked call := by
  obtain ⟨message, -, rfl⟩ := List.mem_map.mp h
  exact ⟨id, by simp⟩

theorem Consistent.report (h : Consistent accounts history c) :
    Consistent accounts (history ++ c.publish.2.map .posted) c.publish.1 := by
  refine h.quiet (publish_keeps c).setup_eq ?_ ?_ fun deed => not_isTurn_of_mem_posted
  · unfold publish
    split <;> rfl
  · unfold publish
    split <;> rfl

/-- Every move keeps a checkout consistent with what it has done. -/
theorem Move.consistent (haccounts : ∀ world, env.account world = accounts)
    (h : Consistent accounts history c) {c' : Checkout} {world world' : σ} {ds : List Deed}
    (hmove : Move env price c world ds c' world') : Consistent accounts (history ++ ds) c' := by
  cases hmove with
  | report => exact h.report
  | sort commands =>
      rw [List.append_nil]
      exact { h with }
  | take command => exact h.take command world
  | beginCheck hphase hwork =>
      rw [haccounts]
      exact h.beginCheck price hphase
  | beginSubmission hphase hwork =>
      rw [haccounts]
      exact h.beginSubmission price hphase
  | awaitCheck hwork hjob => exact h.awaitCheck hwork hjob
  | endCheck hwork hjob =>
      obtain ⟨price, hlatest, hwithin⟩ := h.checking _ hwork
      obtain ⟨hresult, hasked⟩ := hwithin.resume env world
      rw [hjob] at hresult hasked
      have hchecked := h.checked hwork hasked hresult
      simpa using hchecked.quiet rfl rfl rfl fun deed => not_isTurn_of_mem_posted
  | awaitSubmission hwork hjob => exact h.awaitSubmission hwork hjob
  | @endSubmission _ _ _ result hwork hjob =>
      obtain ⟨price, hlatest, hwithin⟩ := h.submitting _ hwork
      obtain ⟨-, hasked⟩ := hwithin.resume env world
      rw [hjob] at hasked
      have hsubmitted := h.submitted hwork hlatest hasked (env.account world' c.setup.wallet) result
      simpa using hsubmitted.quiet rfl rfl rfl fun deed => not_isTurn_of_mem_posted
  | leave =>
      rw [List.append_nil]
      exact consistent_of_idle rfl h.approved h.licensed

/-- A turn keeps a checkout consistent with what it has done. -/
theorem Consistent.turn (haccounts : ∀ world, env.account world = accounts)
    (h : Consistent accounts history c) (price : Option Amount) (world : σ) :
    Consistent accounts (history ++ c.deeds env price world) (c.turn env price world).1 :=
  (turn_moves c world).invariant (P := Consistent accounts)
    (fun h hmove => hmove.consistent haccounts h) h

end Checkout

end MintSale
