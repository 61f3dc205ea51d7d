import MintSale.Proofs.Checkout.Approval
import MintSale.Proofs.Checkout.Faults
import MintSale.Proofs.Checkout.Scenes

/-!
# How checkouts fail

When a check or a submission fails, then either a call has just failed in the same way, or it is a
fault of its own, with its cause in how it began or in what was found out and asked for.
-/

namespace MintSale

open History

variable {σ : Type}

/-- The failures of a scene are explained by what is heard in it, or else by the piece of work that
has begun last. -/
structure Scene.IsExplained (earlier : List (Scene σ)) (s : Scene σ) : Prop where
  check : ∀ fault, .endedCheck (.error fault) ∈ s.deeds → Hears s.heard fault ∨
    ∃ account price, Latest Deed.IsTurn (deedsOf earlier) (.beganCheck account price) ∧
      Checkout.CheckFault s.before.setup account price fault
  submission : ∀ fault, .endedSubmission (.error fault) ∈ s.deeds → Hears s.heard fault ∨
    ∃ account price, Latest Deed.IsTurn (deedsOf earlier) (.beganSubmission account price) ∧
      Checkout.SubmissionFault s.before.setup s.before.state account price fault

/-- Where nothing ends, nothing has to be explained. -/
theorem Scene.isExplained_of_quiet {s : Scene σ} (hcheck : ∀ result, .endedCheck result ∉ s.deeds)
    (hsubmission : ∀ result, .endedSubmission result ∉ s.deeds) (earlier : List (Scene σ)) :
    s.IsExplained earlier where
  check fault h := absurd h (hcheck (.error fault))
  submission fault h := absurd h (hsubmission (.error fault))

namespace Checkout

/-- What a checkout knows and is busy with explains how it may fail. -/
structure Accountable (story : List (Scene σ)) (c : Checkout) : Prop where
  served : c.state.phase = .readyForPurchase ∨ c.state.phase = .initiatingPurchase →
    ∃ details, c.state.eligibility = some details ∧ c.setup.kind.IsServed details
  checking : ∀ job, c.work = some (.check job) → ∃ account price,
    Latest Deed.IsTurn (deedsOf story) (.beganCheck account price) ∧
      job.Candid (CheckFault c.setup account price) c.setup.kind.Serves
  submitting : ∀ job, c.work = some (.submission job) →
    c.state.phase = .initiatingPurchase ∧ ∃ account price,
      Latest Deed.IsTurn (deedsOf story) (.beganSubmission account price) ∧
        job.Candid (SubmissionFault c.setup c.state account price) fun _ => True
  explained : Throughout Scene.IsExplained story

theorem accountable_fresh (setup : Setup) (generation : Nat) :
    Accountable ([] : List (Scene σ)) (fresh setup generation) where
  served := by simp [fresh, PurchaseState.initial]
  checking := by simp [fresh]
  submitting := by simp [fresh]
  explained := throughout_nil _

variable {env : Environment σ} {price : Option Amount} {story : List (Scene σ)} {c : Checkout}
  {s : Scene σ}

/-- A checkout that is not busy only has to know what makes its wallet eligible. -/
theorem accountable_of_idle (hwork : c.work = none)
    (hserved : c.state.phase = .readyForPurchase ∨ c.state.phase = .initiatingPurchase →
      ∃ details, c.state.eligibility = some details ∧ c.setup.kind.IsServed details)
    (hexplained : Throughout Scene.IsExplained story) : Accountable story c where
  served := hserved
  checking := by simp [hwork]
  submitting := by simp [hwork]
  explained := hexplained

/-- Only the setup, the state and the work of a checkout count. -/
theorem Accountable.congr {d : Checkout} (h : Accountable story c) (hsetup : d.setup = c.setup)
    (hstate : d.state = c.state) (hwork : d.work = c.work) : Accountable story d where
  served := by simpa [hsetup, hstate] using h.served
  checking := by simpa [hsetup, hwork] using h.checking
  submitting := by simpa [hsetup, hstate, hwork] using h.submitting
  explained := h.explained

theorem latest_concat_scene {deed : Deed} (h : Latest Deed.IsTurn (deedsOf story) deed)
    (hs : ∀ deed ∈ s.deeds, ¬ deed.IsTurn) : Latest Deed.IsTurn (deedsOf (story ++ [s])) deed := by
  rw [deedsOf_append]
  exact h.append (by simpa using hs)

/-- Scenes in which no work begins or ends make no difference. -/
theorem Accountable.quiet (h : Accountable story c) (hs : ∀ deed ∈ s.deeds, ¬ deed.IsTurn) :
    Accountable (story ++ [s]) c where
  served := h.served
  checking job hwork := by
    obtain ⟨account, price, hlatest, hjob⟩ := h.checking job hwork
    exact ⟨account, price, latest_concat_scene hlatest hs, hjob⟩
  submitting job hwork := by
    obtain ⟨hphase, account, price, hlatest, hjob⟩ := h.submitting job hwork
    exact ⟨hphase, account, price, latest_concat_scene hlatest hs, hjob⟩
  explained := h.explained.concat <| Scene.isExplained_of_quiet
    (fun result hended => hs _ hended trivial) (fun result hended => hs _ hended trivial) _

theorem Accountable.take (h : Accountable story c) (command : Command) (world : σ) :
    Accountable (story ++ [takeScene env command c world]) (c.take env command world).1 := by
  have hexplained : (takeScene env command c world).IsExplained story :=
    Scene.isExplained_of_quiet (by simp [takeScene]) (by simp [takeScene]) _
  cases command with
  | reset =>
      exact accountable_of_idle rfl (by simp [Checkout.take, PurchaseState.initial])
        (h.explained.concat hexplained)
  | purchase request =>
      have hkept : Accountable (story ++ [takeScene env (.purchase request) c world]) c :=
        h.quiet (by simp [takeScene, Deed.IsTurn])
      rw [Checkout.take]
      split
      · next hphase =>
        split
        · next account _ =>
          refine { hkept with served := fun _ => hkept.served (.inl hphase), submitting := ?_ }
          -- A checkout that is ready is not busy with a submission.
          intro job hwork
          have hsubmitting := (h.submitting job hwork).1
          simp [hphase] at hsubmitting
        · exact hkept
      · exact hkept

/-- A check that ends says what the minter needs, or why it has failed. -/
theorem Accountable.endCheck (h : Accountable story c) {job : Job Eligibility} {world world' : σ}
    {asked : List Call} {result : Except Fault Eligibility} (hwork : c.work = some (.check job))
    (hjob : job.resume env world = (.finished result, asked, world')) (hbefore : s.before = c)
    (hheard : s.heard = job.heard env world)
    (hdeeds : s.deeds =
      asked.map .asked ++ .endedCheck result :: (c.checked result).2.map .posted) :
    Accountable (story ++ [s]) (c.checked result).1 := by
  obtain ⟨account, price, hlatest, hcandid⟩ := h.checking job hwork
  have hresult := hcandid.resume env world
  rw [hjob, ← hheard] at hresult
  have hexplained : s.IsExplained story := by
    refine ⟨fun fault hfault => ?_, by simp [hdeeds]⟩
    obtain rfl : .error fault = result := by simpa [hdeeds] using hfault
    rw [hbefore]
    exact hresult.imp_right fun hown => ⟨account, price, hlatest, hown⟩
  rcases result with fault | details | reason
  · exact accountable_of_idle rfl (by simp [checked, PurchaseState.broken])
      (h.explained.concat hexplained)
  · exact accountable_of_idle rfl (fun _ => ⟨details, rfl, hresult details rfl⟩)
      (h.explained.concat hexplained)
  · exact accountable_of_idle rfl (by simp [checked]) (h.explained.concat hexplained)

/-- A submission that ends leaves what makes the wallet eligible, or says why it has failed. -/
theorem Accountable.endSubmission (h : Accountable story c) {job : Job Hash} {world world' : σ}
    {asked : List Call} {result : Except Fault Hash} (hwork : c.work = some (.submission job))
    (hjob : job.resume env world = (.finished result, asked, world')) (hbefore : s.before = c)
    (hheard : s.heard = job.heard env world) {account : Option Address}
    (hdeeds : s.deeds =
      asked.map .asked ++ .endedSubmission result :: (c.submitted account result).2.map .posted) :
    Accountable (story ++ [s]) (c.submitted account result).1 := by
  obtain ⟨hphase, payer, price, hlatest, hcandid⟩ := h.submitting job hwork
  have hresult := hcandid.resume env world
  rw [hjob, ← hheard] at hresult
  have hserved := h.served (.inr hphase)
  have hexplained : s.IsExplained story := by
    refine ⟨by simp [hdeeds], fun fault hfault => ?_⟩
    obtain rfl : .error fault = result := by simpa [hdeeds] using hfault
    rw [hbefore]
    exact hresult.imp_right fun hown => ⟨payer, price, hlatest, hown⟩
  cases result with
  | ok txHash => exact accountable_of_idle rfl (fun _ => hserved) (h.explained.concat hexplained)
  | error fault =>
      cases fault with
      | userRejected =>
          exact accountable_of_idle rfl (fun _ => hserved) (h.explained.concat hexplained)
      | _ =>
          refine accountable_of_idle rfl ?_ (h.explained.concat hexplained)
          simp [submitted, PurchaseState.broken]

/-- Every scene keeps a checkout accountable. -/
theorem Accountable.scene (h : Accountable story s.before) (hs : Staged env price s) :
    Accountable (story ++ [s]) s.after := by
  cases hs with
  | report c world =>
      have hkept : Accountable (story ++ [reportScene c world]) c :=
        h.quiet (by simp [reportScene, Deed.IsTurn])
      refine hkept.congr (publish_keeps c).setup_eq ?_ ?_ <;> simp [reportScene, publish_eq]
  | take command c world => exact h.take command world
  | rest c world => exact h.quiet (by simp)
  | beginCheck c world hphase hwork =>
      have hlatest : Latest Deed.IsTurn _ (.beganCheck (env.account world c.setup.wallet) price) :=
        latest_concat (deedsOf story) trivial
      exact {
        served := by simp [hphase]
        checking := by
          rintro job ⟨⟩
          exact ⟨_, price, by simpa using hlatest, checkProgram_candid _ _ _⟩
        submitting := by simp
        explained := h.explained.concat (Scene.isExplained_of_quiet (by simp) (by simp) _) }
  | beginSubmission c world hphase hwork =>
      have hlatest : Latest Deed.IsTurn _
          (.beganSubmission (env.account world c.setup.wallet) price) :=
        latest_concat (deedsOf story) trivial
      obtain ⟨details, hdetails, hserved⟩ := h.served (.inr hphase)
      exact {
        served := fun _ => ⟨details, hdetails, hserved⟩
        checking := by simp
        submitting := by
          rintro job ⟨⟩
          exact ⟨hphase, _, price, by simpa using hlatest,
            submissionProgram_candid hdetails hserved _ _⟩
        explained := h.explained.concat (Scene.isExplained_of_quiet (by simp) (by simp) _) }
  | @awaitCheck c world world' job next asked hwork hjob =>
      obtain ⟨account, price', hlatest, hcandid⟩ := h.checking job hwork
      have hnext := hcandid.resume env world
      rw [hjob] at hnext
      have hasked : ∀ deed ∈ asked.map Deed.asked, ¬ deed.IsTurn := fun _ => not_isTurn_of_mem_asked
      refine { h.quiet hasked with checking := ?_, submitting := by simp }
      rintro job ⟨⟩
      exact ⟨account, price', latest_concat_scene hlatest hasked, hnext⟩
  | endCheck hwork hjob => exact h.endCheck hwork hjob rfl rfl rfl
  | @awaitSubmission c world world' job next asked hwork hjob =>
      obtain ⟨hphase, account, price', hlatest, hcandid⟩ := h.submitting job hwork
      have hnext := hcandid.resume env world
      rw [hjob] at hnext
      have hasked : ∀ deed ∈ asked.map Deed.asked, ¬ deed.IsTurn := fun _ => not_isTurn_of_mem_asked
      refine { h.quiet hasked with checking := by simp, submitting := ?_ }
      rintro job ⟨⟩
      exact ⟨hphase, account, price', latest_concat_scene hlatest hasked, hnext⟩
  | endSubmission hwork hjob => exact h.endSubmission hwork hjob rfl rfl rfl

/-- A turn adds its scenes to the story of a checkout. -/
theorem Accountable.turn (h : Accountable story c) (price : Option Amount) (world : σ) :
    Accountable (story ++ c.scenes env price world) (c.turn env price world).1 :=
  scenes_invariant (P := Accountable) (fun h hs => h.scene hs) (fun _ h => h.congr rfl rfl rfl)
    (fun h => accountable_of_idle rfl h.served h.explained) h world

end Checkout

end MintSale
