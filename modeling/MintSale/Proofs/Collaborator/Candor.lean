import MintSale.Proofs.Collaborator.Hearing

/-!
# Where failures come from

A candid program passes on the failure of a call as it is. When it fails, then either with a fault
of its own or with one that it has just heard.
-/

namespace MintSale

variable {α β σ : Type} {own : Fault → Prop} {good : α → Prop}

/-! ## Candid programs -/

namespace Program

/-- A program that fails with the fault of a call that fails. Other faults that it fails with are
its own, and what it ends well with is good. -/
def Candid (own : Fault → Prop) (good : α → Prop) : Program α → Prop
  | .done (.ok a) => good a
  | .done (.error fault) => own fault
  | .ask _ next => (∀ fault, next (.error fault) = .done (.error fault)) ∧
    ∀ answers, (next (.ok answers)).Candid own good

theorem candid_pure {a : α} (h : good a) : (pure a : Program α).Candid own good :=
  h

theorem candid_ofExcept {result : Except Fault α} (hok : ∀ a, result = .ok a → good a)
    (herror : ∀ fault, result = .error fault → own fault) :
    (ofExcept result).Candid own good := by
  cases result with
  | ok a => exact hok a rfl
  | error fault => exact herror fault rfl

theorem candid_calls (cs : List Call) : (calls cs).Candid own fun _ => True :=
  ⟨fun _ => rfl, fun _ => trivial⟩

theorem candid_call (c : Call) : (call c).Candid own fun _ => True :=
  ⟨fun _ => rfl, fun _ => trivial⟩

theorem Candid.bind {good' : β → Prop} {p : Program α} {f : α → Program β}
    (hp : p.Candid own good) (hf : ∀ a, good a → (f a).Candid own good') :
    (p >>= f).Candid own good' := by
  change (p.bind f).Candid own good'
  induction p with
  | done result =>
      cases result with
      | ok a => exact hf a hp
      | error fault => exact hp
  | ask calls next ih =>
      obtain ⟨hfails, hnext⟩ := hp
      refine ⟨fun fault => ?_, fun answers => ih (.ok answers) (hnext answers)⟩
      change (next (.error fault)).bind f = _
      rw [hfails]
      rfl

/-- A program that goes on with a value that has to be there. -/
theorem Candid.require_bind {good : β → Prop} {fault : Fault} {value : Option α}
    {f : α → Program β} (hf : ∀ a, value = some a → (f a).Candid own good)
    (hown : value = none → own fault) : (require fault value >>= f).Candid own good := by
  cases value with
  | none => exact hown rfl
  | some a => exact hf a rfl

/-- A program that asks a call and goes on with the answer. -/
theorem Candid.call_bind {good : β → Prop} {c : Call} {f : c.Answer → Program β}
    (hf : ∀ answer, (f answer).Candid own good) : (call c >>= f).Candid own good :=
  (candid_call c).bind fun answer _ => hf answer

end Program

/-! ## What is heard of a failure -/

/-- One of the answers is that a call has failed in that way. -/
def Hears (heard : List Answered) (fault : Fault) : Prop :=
  ∃ call, ⟨call, .error fault⟩ ∈ heard

theorem hears_concat (log : List Answered) (call : Call) (fault : Fault) :
    Hears (log ++ [⟨call, .error fault⟩]) fault :=
  ⟨call, List.mem_append_right log (List.mem_singleton_self _)⟩

theorem eq_error_of_map {f : α → β} {result : Except Fault α} {fault : Fault}
    (h : result.map f = .error fault) : result = .error fault := by
  cases result with
  | ok a => simp [Except.map] at h
  | error fault' => simpa [Except.map] using h

namespace Slots

open Environment

variable (env : Environment σ)

/-- A group that fails when it is asked has heard so. -/
theorem start_hears {calls : List Call} {world : σ} {log : List Answered} {fault : Fault}
    (h : (start env.recorded calls (world, log)).1 = .error fault) :
    Hears (start env.recorded calls (world, log)).2.2.2 fault := by
  induction calls generalizing world log with
  | nil => simp [start] at h
  | cons call calls ih =>
      rcases hask : env.ask call world with ⟨(fault' | answer) | ticket, next⟩
      · simp only [start, recorded_ask_now hask] at h ⊢
        cases h
        exact hears_concat log call fault
      · simp only [start, recorded_ask_now hask] at h ⊢
        exact ih (eq_error_of_map h)
      · simp only [start, recorded_ask_later hask] at h ⊢
        have hrest := @ih next log
        rcases hstart : start env.recorded calls (next, log) with ⟨fault' | slots, asked, last⟩ <;>
          rw [hstart] at hrest
        · simp only [hstart] at h ⊢
          cases h
          exact hrest rfl
        · simp [hstart] at h

/-- A group that fails when its answers are collected has heard so. -/
theorem collect_hears {calls : List Call} {slots : Slots calls} {world : σ} {log : List Answered}
    {fault : Fault} (h : (slots.collect env.recorded (world, log)).1 = .error fault) :
    Hears (slots.collect env.recorded (world, log)).2.2 fault := by
  induction calls generalizing world log with
  | nil => simp [collect] at h
  | cons call calls ih =>
      obtain ⟨answer | ticket, rest⟩ := slots
      · simp only [collect] at h ⊢
        exact ih (eq_error_of_map h)
      · rcases hcollect : env.collect ticket call world with ⟨_ | fault' | answer, next⟩
        · simp only [collect, recorded_collect_none hcollect] at h ⊢
          have hrest := @ih rest next log
          rcases hplain : rest.collect env.recorded (next, log) with ⟨fault' | slots, last⟩ <;>
            rw [hplain] at hrest
          · simp only [hplain] at h ⊢
            cases h
            exact hrest rfl
          · simp [hplain] at h
        · simp only [collect, recorded_collect_some hcollect, abandon_recorded] at h ⊢
          cases h
          exact hears_concat log call fault
        · simp only [collect, recorded_collect_some hcollect] at h ⊢
          exact ih (eq_error_of_map h)

end Slots

/-! ## Candid jobs -/

/-- What is left of a job is candid. -/
def Job.Candid (own : Fault → Prop) (good : α → Prop) : Job α → Prop
  | .fresh program => program.Candid own good
  | .waiting calls _ next => (Program.ask calls next).Candid own good

/-- How far a candid job has come, and what it has heard on the way. -/
def Progress.Candid (own : Fault → Prop) (good : α → Prop) (heard : List Answered) :
    Progress α → Prop
  | .finished (.ok a) => good a
  | .finished (.error fault) => Hears heard fault ∨ own fault
  | .pending job => job.Candid own good

theorem Program.Candid.run {p : Program α} (h : p.Candid own good) (env : Environment σ)
    (world : σ) (log : List Answered) :
    (p.run env.recorded (world, log)).1.Candid own good
      (p.run env.recorded (world, log)).2.2.2 := by
  induction p generalizing world log with
  | done result =>
      cases result with
      | ok a => exact h
      | error fault => exact .inr h
  | ask calls next ih =>
      obtain ⟨hfails, hnext⟩ := h
      have hhears := @Slots.start_hears σ env calls world log
      rcases hstart : Slots.start env.recorded calls (world, log) with
        ⟨fault | slots, asked, world', log'⟩ <;> rw [hstart] at hhears
      · -- A failure is passed on at once, so nothing else is heard.
        simp only [Program.run, hstart, hfails]
        exact .inl (hhears rfl)
      · cases hanswers : slots.answers? with
        | none =>
            simp only [Program.run, hstart, hanswers]
            exact ⟨hfails, hnext⟩
        | some answers =>
            simp only [Program.run, hstart, hanswers]
            exact ih (.ok answers) (hnext answers) world' log'

/-- A candid job that goes on stays candid, and it fails with what it hears or with a fault of its
own. -/
theorem Job.Candid.resume {job : Job α} (h : job.Candid own good) (env : Environment σ)
    (world : σ) : (job.resume env world).1.Candid own good (job.heard env world) := by
  obtain ⟨log, hrecorded⟩ := job.resume_recorded env world []
  have hprogress : (job.resume env.recorded (world, [])).1 = (job.resume env world).1 := by
    rw [hrecorded]
  rw [← hprogress, Job.heard]
  cases job with
  | fresh program => exact Program.Candid.run h env world []
  | waiting calls slots next =>
      obtain ⟨hfails, hnext⟩ := h
      have hhears := @Slots.collect_hears σ env calls slots world []
      rcases hcollect : slots.collect env.recorded (world, []) with
        ⟨fault | slots', world', log'⟩ <;> rw [hcollect] at hhears
      · simp only [Job.resume, hcollect, hfails]
        exact .inl (hhears rfl)
      · cases hanswers : slots'.answers? with
        | none =>
            simp only [Job.resume, hcollect, hanswers]
            exact ⟨hfails, hnext⟩
        | some answers =>
            simp only [Job.resume, hcollect, hanswers]
            exact (hnext answers).run env world' log'

end MintSale
