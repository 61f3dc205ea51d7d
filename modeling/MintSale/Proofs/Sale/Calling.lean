import MintSale.Proofs.Sale.Landing
import MintSale.Proofs.Sale.Phases

/-!
# What a context calls for

Deciding asks different questions in the two phases of a running sale. Where settling ends follows
from what is known alone: it is the first of five phases for which there is a cause. No settling
takes more than three decisions, and a sale that is ready stays so while only time passes.
-/

namespace MintSale

theorem Project.objection_isSome_iff {project : Project} :
    project.objection.isSome ↔
      ∀ minter, project.minter = some minter → MinterType.classify minter.minterType = none := by
  unfold Project.objection Project.support
  cases hminter : project.minter with
  | none => simp [MinterSupport.objection]
  | some minter =>
      cases hkind : MinterType.classify minter.minterType <;> simp [MinterSupport.objection, hkind]

namespace Sale

variable {accounts : Accounts} {now : Timestamp} {ctx : Context} {phase : Phase}

namespace Context

/-! ## Causes -/

/-- The project cannot be sold: that is on record, or there is no project, or it has no minter of a
kind that is known. -/
def IsRuledOut (ctx : Context) : Prop :=
  ctx.ineligibleReason.isSome ∨ ctx.project = none ∨
    ∃ project, ctx.project = some project ∧
      ∀ minter, project.minter = some minter → MinterType.classify minter.minterType = none

/-- The project is complete, by its own word or by the chain's. -/
def IsSoldOut (ctx : Context) : Prop :=
  ∃ project, ctx.project = some project ∧
    (project.complete = true ∨ ∃ live, ctx.live = some live ∧ live.completedAt.isSome)

/-- The chain, live data and an account are there, the account is the artist's or the sale is not
paused, and the start time has come, if there is one. -/
def IsOnOffer (accounts : Accounts) (now : Timestamp) (ctx : Context) : Prop :=
  ctx.chain.isSome ∧ ∃ project live account, ctx.project = some project ∧ ctx.live = some live ∧
    ctx.account accounts = some account ∧ (account = project.artist ∨ live.paused = false) ∧
      ∀ start, project.startTime = some start → now.isBefore start = false

/-- The phase that a context calls for: the first one for which there is a cause. -/
inductive CallsFor (accounts : Accounts) (now : Timestamp) (ctx : Context) : Phase → Prop where
  | error (h : ctx.error.isSome) : CallsFor accounts now ctx .error
  | ineligible (herror : ctx.error = none) (h : ctx.IsRuledOut) :
      CallsFor accounts now ctx .ineligible
  | complete (herror : ctx.error = none) (hruled : ¬ ctx.IsRuledOut) (h : ctx.IsSoldOut) :
      CallsFor accounts now ctx .complete
  | readyForSale (herror : ctx.error = none) (hruled : ¬ ctx.IsRuledOut) (hsold : ¬ ctx.IsSoldOut)
      (h : ctx.IsOnOffer accounts now) : CallsFor accounts now ctx .readyForSale
  | idle (herror : ctx.error = none) (hruled : ¬ ctx.IsRuledOut) (hsold : ¬ ctx.IsSoldOut)
      (h : ¬ ctx.IsOnOffer accounts now) : CallsFor accounts now ctx .idle

theorem CallsFor.unique {phase' : Phase} (h : ctx.CallsFor accounts now phase)
    (h' : ctx.CallsFor accounts now phase') : phase = phase' := by
  cases h <;> cases h' <;> simp_all

theorem objection_isSome_iff : ctx.objection.isSome ↔ ctx.IsRuledOut := by
  unfold objection IsRuledOut
  cases hreason : ctx.ineligibleReason with
  | some reason => simp
  | none =>
      cases hproject : ctx.project with
      | none => simp
      | some project => simp [Project.objection_isSome_iff]

theorem isComplete_iff : ctx.isComplete = true ↔ ctx.IsSoldOut := by
  simp [isComplete, IsSoldOut, Project.isComplete, Option.any_eq_true]

/-- Where there is no cause for an end, being ready is being on offer. -/
theorem isReady_iff_isOnOffer (herror : ctx.error = none) (hruled : ¬ ctx.IsRuledOut)
    (hsold : ¬ ctx.IsSoldOut) : ctx.isReady accounts now = true ↔ ctx.IsOnOffer accounts now := by
  have hobjection : ctx.objection = none := by
    simpa [← objection_isSome_iff] using hruled
  have hcomplete : ctx.isComplete = false := by
    simpa [← isComplete_iff] using hsold
  have hreason : ctx.ineligibleReason = none := by
    simpa using fun h => hruled (.inl h)
  simp only [isReady, isPurchasable, Bool.and_eq_true, Option.isNone_iff_eq_none, herror, hreason,
    true_and, isPurchasable_iff]
  constructor
  · rintro ⟨hchain, p, l, a, hp, hl, ha, -, -, hpaused, hstart⟩
    refine ⟨hchain, p, l, a, hp, hl, ha, ?_, hstart⟩
    cases hp : l.paused with
    | false => exact .inr rfl
    | true => exact .inl (hpaused hp)
  · rintro ⟨hchain, p, l, a, hp, hl, ha, hpaused, hstart⟩
    have heligible : p.isEligible = true := by
      simpa [objection, hreason, hp, Project.isEligible] using hobjection
    have hincomplete : p.isComplete (some l) = false := by
      simpa [isComplete, hp, hl] using hcomplete
    refine ⟨hchain, p, l, a, hp, hl, ha, hincomplete, heligible, ?_, hstart⟩
    intro hp
    simpa [hp] using hpaused

/-- A context calls for the phase in which a running sale lands. -/
theorem callsFor_landing (accounts : Accounts) (now : Timestamp) (ctx : Context) :
    ctx.CallsFor accounts now (ctx.landing accounts now) := by
  unfold landing ending
  cases herror : ctx.error with
  | some text => exact .error (by simp [herror])
  | none =>
      by_cases hruled : ctx.IsRuledOut
      · simpa [objection_isSome_iff, hruled] using CallsFor.ineligible herror hruled
      by_cases hsold : ctx.IsSoldOut
      · simpa [objection_isSome_iff, hruled, isComplete_iff, hsold] using
          CallsFor.complete herror hruled hsold
      by_cases hoffer : ctx.IsOnOffer accounts now
      · simpa [objection_isSome_iff, hruled, isComplete_iff, hsold,
          isReady_iff_isOnOffer herror hruled hsold, hoffer] using
          CallsFor.readyForSale herror hruled hsold hoffer
      · simpa [objection_isSome_iff, hruled, isComplete_iff, hsold,
          isReady_iff_isOnOffer herror hruled hsold, hoffer] using
          CallsFor.idle herror hruled hsold hoffer

theorem callsFor_iff : ctx.CallsFor accounts now phase ↔ ctx.landing accounts now = phase := by
  constructor
  · intro h
    exact (callsFor_landing accounts now ctx).unique h
  · rintro rfl
    exact callsFor_landing accounts now ctx

end Context

/-! ## Deciding without a bound -/

/-- Deciding from a phase until it stays, however long that takes, with the number of decisions. -/
inductive Settles (accounts : Accounts) (now : Timestamp) (ctx : Context) :
    Phase → Nat → Decision → Prop where
  | stays {phase : Phase} (h : (decide accounts now phase ctx).phase = phase) :
      Settles accounts now ctx phase 1 (decide accounts now phase ctx)
  | moves {phase : Phase} {steps : Nat} {rest : Decision}
      (h : (decide accounts now phase ctx).phase ≠ phase)
      (hrest : Settles accounts now ctx (decide accounts now phase ctx).phase steps rest) :
      Settles accounts now ctx phase (steps + 1)
        ⟨rest.phase, (decide accounts now phase ctx).actions ++ rest.actions⟩

/-- Deciding ends in a phase that stays. -/
theorem Settles.decide_phase {steps : Nat} {d : Decision}
    (h : Settles accounts now ctx phase steps d) :
    (decide accounts now d.phase ctx).phase = d.phase := by
  induction h with
  | stays h => rw [h, h]
  | moves h hrest ih => exact ih

/-- A bound that deciding does not reach makes no difference. -/
theorem Settles.settleWithin_eq {steps bound : Nat} {d : Decision}
    (h : Settles accounts now ctx phase steps d) (hbound : steps ≤ bound) :
    settleWithin accounts now bound phase ctx = d := by
  induction h generalizing bound with
  | stays h =>
      obtain ⟨bound, rfl⟩ := Nat.exists_eq_add_of_le' hbound
      simp [settleWithin, h]
  | @moves phase steps rest h hrest ih =>
      obtain ⟨bound, rfl⟩ := Nat.exists_eq_add_of_le' (Nat.le_trans (by omega) hbound : 1 ≤ bound)
      simp [settleWithin, h, ih (Nat.le_of_add_le_add_right hbound)]

/-- Where a running sale lands, deciding stays. -/
theorem decide_landing (accounts : Accounts) (now : Timestamp) (ctx : Context) :
    (decide accounts now (ctx.landing accounts now) ctx).phase = ctx.landing accounts now := by
  cases hlanding : ctx.landing accounts now with
  | idle => rw [decide, decideIdle_phase, hlanding]
  | readyForSale => simp [decide, Context.landing_eq_ready_iff.mp hlanding]
  | fetchingProjectData | complete | error | ineligible => rfl

theorem exists_settles_idle (accounts : Accounts) (now : Timestamp) (ctx : Context) :
    ∃ steps d, steps ≤ 2 ∧ Settles accounts now ctx .idle steps d := by
  have hfirst : (decide accounts now .idle ctx).phase = ctx.landing accounts now :=
    decideIdle_phase accounts now ctx
  have hsecond := decide_landing accounts now ctx
  by_cases hlanding : ctx.landing accounts now = .idle
  · exact ⟨1, _, by omega, .stays (hfirst.trans hlanding)⟩
  · rw [← hfirst] at hlanding hsecond
    exact ⟨2, _, by omega, .moves hlanding (.stays hsecond)⟩

theorem exists_settles (accounts : Accounts) (now : Timestamp) (ctx : Context) (phase : Phase) :
    ∃ steps d, steps ≤ 3 ∧ Settles accounts now ctx phase steps d := by
  obtain ⟨steps, d, hsteps, hidle⟩ := exists_settles_idle accounts now ctx
  cases phase with
  | idle => exact ⟨steps, d, by omega, hidle⟩
  | readyForSale =>
      cases hready : ctx.isReady accounts now with
      | true => exact ⟨1, _, by omega, .stays (by simp [decide, hready])⟩
      | false =>
          have hidle' : (decide accounts now .readyForSale ctx).phase = .idle := by
            simp [decide, hready]
          have hmoves : (decide accounts now .readyForSale ctx).phase ≠ .readyForSale := by
            simp [hidle']
          rw [← hidle'] at hidle
          exact ⟨steps + 1, _, by omega, .moves hmoves hidle⟩
  | fetchingProjectData | complete | error | ineligible => exact ⟨1, _, by omega, .stays rfl⟩

/-- Settling is deciding without a bound, and takes three decisions at most. -/
theorem settles_settle (accounts : Accounts) (now : Timestamp) (ctx : Context) (phase : Phase) :
    ∃ steps ≤ 3, Settles accounts now ctx phase steps (settle accounts now phase ctx) := by
  obtain ⟨steps, d, hsteps, hsettles⟩ := exists_settles accounts now ctx phase
  have hbound : steps ≤ maxSteps := Nat.le_trans hsteps (by decide)
  refine ⟨steps, hsteps, ?_⟩
  rwa [settle, hsettles.settleWithin_eq hbound]

/-! ## Where settling ends -/

theorem settle_phase_of_isRunning (hrunning : phase.IsRunning) :
    (settle accounts now phase ctx).phase = ctx.landing accounts now := by
  cases hready : ctx.isReady accounts now with
  | true =>
      rw [Context.landing_eq_ready_iff.mpr hready]
      rcases hrunning with rfl | rfl
      · rw [settle_idle_of_isReady hready]
      · rw [settle_ready_of_isReady hready]
  | false =>
      rw [← decideIdle_phase]
      rcases hrunning with rfl | rfl
      · rw [settle_idle_of_not_isReady hready]
      · rw [settle_ready_of_not_isReady hready]

/-- A sale that settles as ready is a running one with a context that is ready. -/
theorem isReady_of_settle (h : (settle accounts now phase ctx).phase = .readyForSale) :
    phase.IsRunning ∧ ctx.isReady accounts now = true := by
  by_cases hrunning : phase.IsRunning
  · rw [settle_phase_of_isRunning hrunning] at h
    exact ⟨hrunning, Context.landing_eq_ready_iff.mp h⟩
  · have hnot : phase ≠ .idle ∧ phase ≠ .readyForSale := by simpa [Phase.IsRunning] using hrunning
    rw [settle_of_phase_ne hnot.1 hnot.2] at h
    exact absurd h hnot.2

/-- A context that is ready stays so as time passes. -/
theorem Context.isReady_later {later : Timestamp} (h : ctx.isReady accounts now = true)
    (hlater : later.isBefore now = false) : ctx.isReady accounts later = true := by
  obtain ⟨wallet, account, project, kind, live, hready⟩ := isReady_iff.mp h
  refine isReady_of_isReady h fun project' hproject start hstart => ?_
  obtain rfl : project = project' := Option.some.inj (hready.project_eq.symm.trans hproject)
  exact Timestamp.isBefore_of_later (hready.started start hstart) hlater

/-- From either phase of a running sale settling ends in the phase that the context calls for. From
any phase it ends where deciding stays, after three decisions at most. A sale that settles as ready
does so at any later time. -/
theorem settle_follows_context (accounts : Accounts) (ctx : Context) :
    (∀ now phase,
      ((settle accounts now .idle ctx).phase = phase ↔ ctx.CallsFor accounts now phase) ∧
        ((settle accounts now .readyForSale ctx).phase = phase ↔
          ctx.CallsFor accounts now phase)) ∧
    (∀ now phase,
      (decide accounts now (settle accounts now phase ctx).phase ctx).phase =
          (settle accounts now phase ctx).phase ∧
        ∃ steps ≤ 3, Settles accounts now ctx phase steps (settle accounts now phase ctx)) ∧
    ∀ now later phase, later.isBefore now = false →
      (settle accounts now phase ctx).phase = .readyForSale →
        (settle accounts later phase ctx).phase = .readyForSale ∧
          (settle accounts later .readyForSale ctx).phase = .readyForSale := by
  refine ⟨?_, ?_, ?_⟩
  · intro now phase
    rw [settle_phase_of_isRunning (.inl rfl), settle_phase_of_isRunning (.inr rfl),
      Context.callsFor_iff]
    exact ⟨.rfl, .rfl⟩
  · intro now phase
    obtain ⟨steps, hsteps, hsettles⟩ := settles_settle accounts now ctx phase
    exact ⟨hsettles.decide_phase, steps, hsteps, hsettles⟩
  · intro now later phase hlater hready
    obtain ⟨hrunning, hnow⟩ := isReady_of_settle hready
    have hthen := Context.landing_eq_ready_iff.mpr (Context.isReady_later hnow hlater)
    rw [settle_phase_of_isRunning hrunning, settle_phase_of_isRunning (.inr rfl)]
    exact ⟨hthen, hthen⟩

namespace Sample

/-- The artist, alone with a paused auction that starts at noon. -/
def auction : Context where
  projectId := none
  chain := some ⟨"chain"⟩
  wallet := some ⟨"wallet"⟩
  project := some { project with startTime := some noon }
  live := some ⟨true, .ofUInt64 100, 10, 100, true, true, none⟩
  error := none
  ineligibleReason := none

/-- The day after. -/
def nextNoon : Timestamp :=
  ⟨⟨2024, 1, 2⟩, 0, 0, by decide⟩

end Sample

/-- The auction is ready from noon on. -/
theorem settle_follows_context_auction :
    Sample.nextNoon.isBefore Sample.noon = false ∧
      (settle (fun _ => some Sample.project.artist) Sample.noon .idle Sample.auction).phase =
        .readyForSale ∧
      (settle (fun _ => some Sample.project.artist) Sample.nextNoon .idle Sample.auction).phase =
        .readyForSale :=
  ⟨by decide, by decide +kernel,
    ((settle_follows_context _ Sample.auction).2.2 Sample.noon Sample.nextNoon .idle (by decide)
      (by decide +kernel)).1⟩

end Sale

end MintSale
