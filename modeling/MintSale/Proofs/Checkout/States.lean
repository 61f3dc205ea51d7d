import Mathlib.Data.List.Chain
import MintSale.Proofs.Checkout.Reporting
import MintSale.Proofs.Checkout.Scenes
import MintSale.Proofs.History

/-!
# What the states of a checkout mean

The fields of a state are set and cleared one by one, but whoever hears of the state only hears of
fields that go with its phase. A failure is told before the state that comes of it, and the same
state is never told twice in a row.
-/

namespace MintSale

open History

/-! ## Meaningful states -/

/-- What is in the fields of a state goes with its phase. The message of a failure has been sent by
then. -/
def PurchaseState.IsMeaningful (sent : List Message) (s : PurchaseState) : Prop :=
  match s.phase with
  | .checkingEligibility => s = .initial
  | .readyForPurchase =>
    s.eligibility.isSome ∧ s.errorMessage = none ∧ s.ineligibleReason = none
  | .initiatingPurchase =>
    s.eligibility.isSome ∧ s.errorMessage = none ∧ s.ineligibleReason = none ∧
      s.purchaseTo.isSome
  | .userIneligible =>
    s.ineligibleReason.isSome ∧ s.eligibility = none ∧ s.errorMessage = none
  | .error => ∃ text, s.errorMessage = some text ∧ ∃ m ∈ sent, m.report = .failed text

namespace PurchaseState

variable {sent more : List Message} {s : PurchaseState}

theorem IsMeaningful.mono (h : s.IsMeaningful sent) (hsent : sent ⊆ more) :
    s.IsMeaningful more := by
  unfold IsMeaningful at h ⊢
  cases hphase : s.phase with
  | error =>
      simp only [hphase] at h ⊢
      obtain ⟨text, htext, m, hm, hreport⟩ := h
      exact ⟨text, htext, m, hsent hm, hreport⟩
  | _ => simpa only [hphase] using h

/-- As long as nothing has failed, a state has a meaning of its own. -/
theorem IsMeaningful.of_no_failure (h : s.IsMeaningful sent)
    (hnone : ∀ m ∈ sent, ∀ text, m.report ≠ .failed text) :
    s.phase ≠ .error ∧ s.IsMeaningful [] := by
  unfold IsMeaningful at h ⊢
  cases hphase : s.phase with
  | error =>
      simp only [hphase] at h
      obtain ⟨text, -, m, hm, hreport⟩ := h
      exact absurd hreport (hnone m hm text)
  | _ => exact ⟨by simp, by simpa only [hphase] using h⟩

theorem IsMeaningful.begin (h : s.IsMeaningful sent) (hphase : s.phase = .readyForPurchase)
    (account : Address) (request : PurchaseRequest) :
    (s.begin account request).IsMeaningful sent := by
  simp only [IsMeaningful, hphase] at h
  exact ⟨h.1, rfl, h.2.2, rfl⟩

theorem IsMeaningful.bought (h : s.IsMeaningful sent) (hphase : s.phase = .initiatingPurchase)
    (txHash : Hash) : (s.bought txHash).IsMeaningful sent := by
  simp only [IsMeaningful, hphase] at h
  exact ⟨h.1, rfl, h.2.2.1⟩

theorem IsMeaningful.declined (h : s.IsMeaningful sent)
    (hphase : s.phase = .initiatingPurchase) :
    ({ s with phase := .readyForPurchase } : PurchaseState).IsMeaningful sent := by
  simp only [IsMeaningful, hphase] at h
  exact ⟨h.1, h.2.1, h.2.2.1⟩

theorem isMeaningful_broken (s : PurchaseState) {text : String} {m : Message} (hm : m ∈ sent)
    (hreport : m.report = .failed text) : (s.broken text).IsMeaningful sent :=
  ⟨text, rfl, m, hm, hreport⟩

end PurchaseState

/-! ## Reports that make sense -/

/-- Every state among these messages is meaningful by the time when it is sent, and differs from the
one before it. -/
structure MakesSense (sent : List Message) : Prop where
  meaningful : Throughout (fun earlier m => ∀ state, m.state? = some state →
    state.IsMeaningful earlier) sent
  changes : (statesIn sent).IsChain (· ≠ ·)

namespace MakesSense

variable {sent more : List Message} {m : Message} {state : PurchaseState}

theorem nil : MakesSense [] :=
  ⟨throughout_nil _, .nil⟩

/-- Other reports do not count. -/
theorem quiet (h : MakesSense sent) (hmore : ∀ m ∈ more, m.state? = none) :
    MakesSense (sent ++ more) where
  meaningful := by
    refine (throughout_append_iff _ _ _).mpr ⟨h.meaningful, throughout_of_forall _ ?_⟩
    intro m hm earlier state hstate
    simp [hmore m hm] at hstate
  changes := by
    have hnone : statesIn more = [] := List.filterMap_eq_nil_iff.mpr hmore
    simpa [hnone] using h.changes

/-- A new state may be told if it has a meaning. -/
theorem concat (h : MakesSense sent) (hstate : m.state? = some state)
    (hmeaningful : state.IsMeaningful sent) (hnew : (statesIn sent).getLast? ≠ some state) :
    MakesSense (sent ++ [m]) where
  meaningful := by
    refine h.meaningful.concat ?_
    intro told htold
    obtain rfl : state = told := Option.some.inj (hstate.symm.trans htold)
    exact hmeaningful
  changes := by
    have hlast : statesIn [m] = [state] := by simp [statesIn, hstate]
    rw [statesIn_append, hlast]
    refine h.changes.append (.singleton state) ?_
    rintro last hmem next hnext rfl
    obtain rfl : state = last := by simpa using hnext
    exact hnew hmem

end MakesSense

namespace Checkout

variable {σ : Type} {env : Environment σ} {price : Option Amount} {sent more : List Message}
  {c d : Checkout}

/-! ## What a checkout has sent -/

/-- What a checkout has sent makes sense. As long as it is heard, its state has a meaning too, and
it knows which state it has told last. -/
structure Sensible (sent : List Message) (c : Checkout) : Prop where
  sense : MakesSense sent
  inPhase : c.IsInPhase
  meaningful : c.IsOnLine → c.state.IsMeaningful sent
  reported_eq : c.IsOnLine → c.reported = (statesIn sent).getLast?

namespace Sensible

theorem fresh (setup : Setup) (generation : Nat) : Sensible [] (.fresh setup generation) where
  sense := .nil
  inPhase := by simp [IsInPhase, Checkout.fresh]
  meaningful _ := rfl
  reported_eq _ := rfl

/-- Only the state, what was told of it, the work and the line count. -/
theorem congr (h : Sensible sent c) (hstate : d.state = c.state)
    (hreported : d.reported = c.reported) (hwork : d.work = c.work)
    (hline : d.IsOnLine → c.IsOnLine) : Sensible sent d where
  sense := h.sense
  inPhase work hd := by
    rw [hstate]
    exact h.inPhase work (hwork ▸ hd)
  meaningful hd := by
    rw [hstate]
    exact h.meaningful (hline hd)
  reported_eq hd := by
    rw [hreported]
    exact h.reported_eq (hline hd)

/-- A checkout goes on in a state that has a meaning, and tells of other things than its state. -/
theorem goesOn (h : Sensible sent c) (hline : d.line = c.line) (hreported : d.reported = c.reported)
    (hquiet : ∀ m ∈ more, m.state? = none) (hphase : d.IsInPhase)
    (hstate : c.IsOnLine → d.state.IsMeaningful (sent ++ more)) : Sensible (sent ++ more) d where
  sense := h.sense.quiet hquiet
  inPhase := hphase
  meaningful hd := hstate (by rwa [IsOnLine, ← hline])
  reported_eq hd := by
    have hnone : statesIn more = [] := List.filterMap_eq_nil_iff.mpr hquiet
    rw [hreported, statesIn_append, hnone, List.append_nil]
    exact h.reported_eq (by rwa [IsOnLine, ← hline])

theorem report (h : Sensible sent c) : Sensible (sent ++ c.publish.2) c.publish.1 := by
  by_cases hsame : c.reported = some c.state
  · simpa [publish, hsame] using h
  · by_cases hline : c.IsOnLine
    · have hsent : c.publish.2 =
          [⟨c.line.role, c.line.generation, .purchaseState c.state⟩] := by
        simp [publish, hsame, Line.post, hline.1, hline.2]
      have hmeaningful := h.meaningful hline
      rw [hsent, publish_eq]
      exact {
        sense := h.sense.concat rfl hmeaningful (by rwa [← h.reported_eq hline])
        inPhase := h.inPhase
        meaningful := fun _ => hmeaningful.mono (List.subset_append_left _ _)
        reported_eq := fun _ => by simp [statesIn, Message.state?] }
    · have hnone : c.publish.2 = [] := by
        have hdead : c.line.post (.purchaseState c.state) = none := by
          unfold Line.post
          split
          · rfl
          · exact absurd (by simp_all [IsOnLine]) hline
        simp [publish, hsame, hdead]
      rw [hnone, publish_eq, List.append_nil]
      exact ⟨h.sense, h.inPhase, fun hd => absurd hd hline, fun hd => absurd hd hline⟩

/-- A checkout changes its state and says nothing. -/
theorem change (h : Sensible sent c) (hline : d.line = c.line) (hreported : d.reported = c.reported)
    (hphase : d.IsInPhase) (hstate : c.IsOnLine → d.state.IsMeaningful sent) : Sensible sent d := by
  have hgone : Sensible (sent ++ []) d :=
    h.goesOn hline hreported (by simp) hphase (by rwa [List.append_nil])
  rwa [List.append_nil] at hgone

theorem take (h : Sensible sent c) (env : Environment σ) (command : Command) (world : σ) :
    Sensible sent (c.take env command world).1 := by
  cases command with
  | reset =>
      simp only [Checkout.take]
      exact h.change rfl rfl (by simp [IsInPhase]) fun _ => rfl
  | purchase request =>
      simp only [Checkout.take]
      split
      · next hready =>
        split
        · next account _ =>
          have hidle := h.inPhase.work_of_ready hready
          exact h.change rfl rfl (by simp [IsInPhase, hidle])
            fun hline => (h.meaningful hline).begin hready account request
        · exact h
      · exact h

theorem startWork (h : Sensible sent c) (work : Work) (hphase : c.state.phase = work.phase) :
    Sensible sent { c with work := some work } where
  sense := h.sense
  inPhase := by rintro _ ⟨⟩; exact hphase
  meaningful := h.meaningful
  reported_eq := h.reported_eq

/-- The news of a failure arrives on a line on which the state will be heard. -/
theorem isMeaningful_failed (hline : c.IsOnLine) (sent : List Message) (text : String) :
    (c.state.broken text).IsMeaningful (sent ++ (c.line.post (.failed text)).toList) := by
  have hposted : c.line.post (.failed text) =
      some ⟨c.line.role, c.line.generation, .failed text⟩ := by
    simp [Line.post, hline.1, hline.2]
  rw [hposted]
  exact PurchaseState.isMeaningful_broken _ (List.mem_append_right sent List.mem_cons_self) rfl

theorem state?_of_failed {line : Line} {text : String} :
    ∀ m ∈ (line.post (.failed text)).toList, m.state? = none := by
  intro m hm
  obtain rfl := Line.eq_of_mem_post hm
  rfl

theorem checked (h : Sensible sent c) (hphase : c.state.phase = .checkingEligibility)
    (result : Except Fault Eligibility) :
    Sensible (sent ++ (c.checked result).2) (c.checked result).1 := by
  have hinitial (hline : c.IsOnLine) : c.state = .initial := by
    simpa [PurchaseState.IsMeaningful, hphase] using h.meaningful hline
  rcases result with fault | eligibility
  · exact h.goesOn rfl rfl state?_of_failed (by simp [IsInPhase, Checkout.checked])
      fun hline => isMeaningful_failed hline sent fault.message
  · cases eligibility with
    | eligible details =>
        refine h.goesOn rfl rfl (by simp [Checkout.checked])
          (by simp [IsInPhase, Checkout.checked]) fun hline => ?_
        simp [Checkout.checked, PurchaseState.IsMeaningful, hinitial hline, PurchaseState.initial]
    | ineligible reason =>
        refine h.goesOn rfl rfl (by simp [Checkout.checked])
          (by simp [IsInPhase, Checkout.checked]) fun hline => ?_
        simp [Checkout.checked, PurchaseState.IsMeaningful, hinitial hline, PurchaseState.initial]

theorem submitted (h : Sensible sent c) (hphase : c.state.phase = .initiatingPurchase)
    (account : Option Address) (result : Except Fault Hash) :
    Sensible (sent ++ (c.submitted account result).2) (c.submitted account result).1 := by
  rcases result with fault | txHash
  · cases fault with
    | userRejected =>
        refine h.goesOn rfl rfl (by simp [Checkout.submitted])
          (by simp [IsInPhase, Checkout.submitted]) fun hline => ?_
        simpa [Checkout.submitted] using (h.meaningful hline).declined hphase
    | _ =>
        exact h.goesOn rfl rfl state?_of_failed (by simp [IsInPhase, Checkout.submitted])
          fun hline => isMeaningful_failed hline sent _
  · refine h.goesOn rfl rfl ?_ (by simp [IsInPhase, Checkout.submitted]) fun hline => ?_
    · intro m hm
      obtain rfl := Line.eq_of_mem_post hm
      rfl
    · exact ((h.meaningful hline).bought hphase txHash).mono (List.subset_append_left _ _)

/-! ## Turns -/

theorem move {c' : Checkout} {world world' : σ} {ds : List Deed} (h : Sensible sent c)
    (hmove : Move env price c world ds c' world') :
    Sensible (sent ++ ds.filterMap Deed.message?) c' := by
  cases hmove with
  | report => simpa using h.report
  | sort commands =>
      simpa using h.congr (d := { c with commands := commands }) rfl rfl rfl id
  | take command =>
      simpa [List.filterMap_cons, Deed.message?] using h.take env command world
  | beginCheck hphase =>
      simpa [List.filterMap_cons, Deed.message?] using h.startWork (.check _) hphase
  | beginSubmission hphase =>
      simpa [List.filterMap_cons, Deed.message?] using h.startWork (.submission _) hphase
  | @awaitCheck _ _ next _ hwork =>
      have hphase : c.state.phase = .checkingEligibility := h.inPhase _ hwork
      simpa using h.startWork (.check next) hphase
  | @awaitSubmission _ _ next _ hwork =>
      have hphase : c.state.phase = .initiatingPurchase := h.inPhase _ hwork
      simpa using h.startWork (.submission next) hphase
  | endCheck hwork =>
      simpa [List.filterMap_cons, Deed.message?] using h.checked (h.inPhase _ hwork) _
  | endSubmission hwork =>
      simpa [List.filterMap_cons, Deed.message?] using h.submitted (h.inPhase _ hwork) _ _
  | leave =>
      have hleft : Sensible sent { c with hasEnded := true, work := none } :=
        ⟨h.sense, by simp [IsInPhase], h.meaningful, h.reported_eq⟩
      simpa using hleft

theorem turn (h : Sensible sent c) (env : Environment σ) (price : Option Amount) (world : σ) :
    Sensible (sent ++ (c.turn env price world).2.1) (c.turn env price world).1 := by
  have hmoves : Sensible ((sent.map Deed.posted ++ c.deeds env price world).filterMap
      Deed.message?) (c.turn env price world).1 := by
    refine (turn_moves c world).invariant
      (P := fun history d => Sensible (history.filterMap Deed.message?) d) ?_ ?_
    · intro history d world ds d' world' hd hmove
      simpa using hd.move hmove
    · simpa using h
  simpa [(c.deeds_tell env price world).1] using hmoves

theorem stop (h : Sensible sent c) : Sensible sent c.stop :=
  h.congr rfl rfl rfl fun hline => absurd hline.1 (by simp [Checkout.stop])

theorem tell (h : Sensible sent c) (command : Command) :
    Sensible sent { c with commands := c.commands ++ [command] } :=
  h.congr rfl rfl rfl id

/-- What is told in the scenes of an act makes sense after what has been told before. -/
theorem act (h : Sensible sent c) (env : Environment σ) (world : σ) (act : Act σ) :
    Sensible (sent ++ (deedsOf (c.actScenes env world act)).filterMap Deed.message?)
      (c.act env world act).1 := by
  cases act with
  | turn price =>
      rw [actScenes, deedsOf_scenes, (c.deeds_tell env price world).1]
      exact h.turn env price world
  | tell | close | stop | hangUp | change =>
      change Sensible (sent ++ []) _
      rw [List.append_nil]
      exact h.congr rfl rfl rfl (by simp [IsOnLine, Checkout.act, Checkout.stop])

theorem story (h : Sensible sent c) (env : Environment σ) (world : σ) (acts : List (Act σ)) :
    MakesSense (sent ++ (deedsOf (c.story env world acts)).filterMap Deed.message?) := by
  induction acts generalizing sent c world with
  | nil => simpa [Checkout.story] using h.sense
  | cons act acts ih =>
      have hrest := ih (h.act env world act) (c.act env world act).2
      simpa [Checkout.story] using hrest

end Sensible

end Checkout

end MintSale
