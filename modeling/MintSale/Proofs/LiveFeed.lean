import MintSale.LiveFeed
import MintSale.Proofs.Collaborator.Conduct
import MintSale.Proofs.Sale.Report

/-!
# What a feed does in a turn

A feed stays at its line, only reads, and has ended once it says that it has failed.
-/

namespace MintSale

namespace LiveFeed

/-- What stays of a feed, and what can arrive of it meanwhile. -/
structure Keeps (f : LiveFeed) (messages : List Message) (f' : LiveFeed) : Prop where
  setup_eq : f'.setup = f.setup
  line_eq : f'.line = f.line
  ended_of : f.exit?.isSome → f'.exit?.isSome
  reports : ∀ m ∈ messages, m.role = f.line.role ∧ m.generation = f.line.generation ∧
    ((∃ data, m.report = .liveData data) ∨ ((∃ text, m.report = .failed text) ∧ f'.exit?.isSome))

/-- A round under way has nothing sent. -/
def OnlyReads (f : LiveFeed) : Prop :=
  ∀ job, f.stage = .reading job → job.Within (¬ ·.IsSend) fun _ => True

theorem round_within (s : Setup) : (round s).Within (¬ ·.IsSend) fun _ => True := by
  simp only [round, Program.within_bind, Program.within_calls]
  refine ⟨by simp [Call.IsSend], ?_⟩
  rintro (fault | ⟨price, state, ⟨⟩⟩) <;> trivial

theorem onlyReads_fresh (setup : Setup) (generation interval : Nat) :
    (fresh setup generation interval).OnlyReads := by
  rintro job ⟨⟩
  exact round_within setup

variable {σ : Type} (env : Environment σ) (now : Nat)

theorem read_keeps {f : LiveFeed} (hreading : f.exit? = none) (job : Job LiveSaleData) (world : σ) :
    Keeps f (f.read env now job world).2.1 (f.read env now job world).1 := by
  have hended : ∀ f' : LiveFeed, f.exit?.isSome → f'.exit?.isSome := by simp [hreading]
  unfold read
  rcases job.resume env world with ⟨result | next, asked, world'⟩
  · cases result with
    | ok data =>
        unfold Line.post
        by_cases hdead : f.line.isStopped || !f.line.isHeard
        · simp only [hdead]
          exact ⟨rfl, rfl, hended _, by simp⟩
        · simp only [hdead]
          exact ⟨rfl, rfl, hended _, by simp⟩
    | error fault =>
        refine ⟨rfl, rfl, hended _, ?_⟩
        intro m hm
        obtain rfl := Line.eq_of_mem_post hm
        exact ⟨rfl, rfl, .inr ⟨⟨_, rfl⟩, rfl⟩⟩
  · exact ⟨rfl, rfl, hended _, by simp⟩

theorem turn_keeps (f : LiveFeed) (world : σ) :
    Keeps f (f.turn env now world).2.1 (f.turn env now world).1 := by
  unfold turn
  cases hstage : f.stage with
  | ended exit => exact ⟨rfl, rfl, id, by simp⟩
  | reading job =>
      have hreading : f.exit? = none := by simp [exit?, hstage]
      by_cases hstopped : f.line.isStopped
      · simp only [hstopped]
        exact ⟨rfl, rfl, fun _ => rfl, by simp⟩
      · simp only [hstopped]
        exact read_keeps env now hreading job world
  | resting due =>
      have hreading : f.exit? = none := by simp [exit?, hstage]
      by_cases hstopped : f.line.isStopped
      · simp only [hstopped]
        exact ⟨rfl, rfl, fun _ => rfl, by simp⟩
      · by_cases hearly : now < due
        · simp only [hstopped, hearly]
          exact ⟨rfl, rfl, id, by simp⟩
        · simpa [hstopped, hearly] using read_keeps env now hreading (.fresh (round f.setup)) world

theorem read_onlyReads (f : LiveFeed) (job : Job LiveSaleData)
    (hjob : job.Within (¬ ·.IsSend) fun _ => True) (world : σ) :
    (f.read env now job world).1.OnlyReads ∧
      ∀ call ∈ (f.read env now job world).2.2.1, ¬ call.IsSend := by
  obtain ⟨hnext, hasked⟩ := hjob.resume env world
  unfold read
  rcases hresume : job.resume env world with ⟨result | next, asked, world'⟩ <;>
    rw [hresume] at hnext hasked
  · cases result with
    | ok data =>
        simp only
        split
        · exact ⟨by simp [OnlyReads], hasked⟩
        · exact ⟨by simp [OnlyReads], hasked⟩
    | error fault => exact ⟨by simp [OnlyReads], hasked⟩
  · refine ⟨?_, hasked⟩
    rintro job ⟨⟩
    exact hnext

theorem turn_onlyReads {f : LiveFeed} (h : f.OnlyReads) (world : σ) :
    (f.turn env now world).1.OnlyReads ∧
      ∀ call ∈ (f.turn env now world).2.2.1, ¬ call.IsSend := by
  unfold turn
  cases hstage : f.stage with
  | ended exit => exact ⟨h, by simp⟩
  | reading job =>
      by_cases hstopped : f.line.isStopped
      · simp only [hstopped]
        exact ⟨by simp [OnlyReads], by simp⟩
      · simp only [hstopped]
        exact read_onlyReads env now f job (h job hstage) world
  | resting due =>
      by_cases hstopped : f.line.isStopped
      · simp only [hstopped]
        exact ⟨by simp [OnlyReads], by simp⟩
      · by_cases hearly : now < due
        · simp only [hstopped, hearly]
          exact ⟨h, by simp⟩
        · simpa [hstopped, hearly] using
            read_onlyReads env now f (.fresh (round f.setup)) (round_within f.setup) world

end LiveFeed

end MintSale
