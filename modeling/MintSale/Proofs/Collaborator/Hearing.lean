import MintSale.Proofs.Collaborator.Conduct

/-!
# What a job hears

Collaborators that write their answers down answer just as they did before. What they write down
while a job goes on is what the job hears, and that alone leads its program on.
-/

namespace MintSale

/-- A call and the answer to it. -/
structure Answered where
  call : Call
  result : Except Fault call.Answer

variable {α β σ : Type}

/-! ## Collaborators that write down their answers -/

namespace Environment

/-- The collaborators, writing down each answer when they give it. -/
def recorded (env : Environment σ) : Environment (σ × List Answered) where
  account world := env.account world.1
  ask call world :=
    match env.ask call world.1 with
    | (.now result, next) => (.now result, next, world.2 ++ [⟨call, result⟩])
    | (.later ticket, next) => (.later ticket, next, world.2)
  collect ticket call world :=
    match env.collect ticket call world.1 with
    | (some result, next) => (some result, next, world.2 ++ [⟨call, result⟩])
    | (none, next) => (none, next, world.2)
  abandon ticket world := (env.abandon ticket world.1, world.2)

variable {env : Environment σ} {call : Call} {ticket : Ticket} {world next : σ}
  {log : List Answered}

theorem recorded_ask_now {result : Except Fault call.Answer}
    (h : env.ask call world = (.now result, next)) :
    env.recorded.ask call (world, log) = (.now result, next, log ++ [⟨call, result⟩]) := by
  simp [recorded, h]

theorem recorded_ask_later (h : env.ask call world = (.later ticket, next)) :
    env.recorded.ask call (world, log) = (.later ticket, next, log) := by
  simp [recorded, h]

theorem recorded_collect_some {result : Except Fault call.Answer}
    (h : env.collect ticket call world = (some result, next)) :
    env.recorded.collect ticket call (world, log) =
      (some result, next, log ++ [⟨call, result⟩]) := by
  simp [recorded, h]

theorem recorded_collect_none (h : env.collect ticket call world = (none, next)) :
    env.recorded.collect ticket call (world, log) = (none, next, log) := by
  simp [recorded, h]

@[simp] theorem recorded_abandon :
    env.recorded.abandon ticket (world, log) = (env.abandon ticket world, log) :=
  rfl

end Environment

open Environment

variable (env : Environment σ)

namespace Slots

theorem abandon_recorded {calls : List Call} (slots : Slots calls) (world : σ)
    (log : List Answered) :
    slots.abandon env.recorded (world, log) = (slots.abandon env world, log) := by
  unfold abandon
  induction slots.tickets generalizing world with
  | nil => rfl
  | cons ticket tickets ih => exact ih (env.abandon ticket world)

theorem start_recorded (calls : List Call) (world : σ) (log : List Answered) :
    ∃ log', start env.recorded calls (world, log) =
      ((start env calls world).1, (start env calls world).2.1, (start env calls world).2.2,
        log') := by
  induction calls generalizing world log with
  | nil => exact ⟨log, rfl⟩
  | cons call calls ih =>
      rcases hask : env.ask call world with ⟨(fault | answer) | ticket, next⟩
      · exact ⟨_, by simp [start, recorded_ask_now hask, hask]; rfl⟩
      · obtain ⟨log', hrest⟩ := ih next (log ++ [⟨call, .ok answer⟩])
        exact ⟨log', by simp [start, recorded_ask_now hask, hask, hrest]⟩
      · obtain ⟨log', hrest⟩ := ih next log
        refine ⟨log', ?_⟩
        rcases hplain : start env calls next with ⟨fault | slots, asked, last⟩ <;>
          rw [hplain] at hrest
        · simp [start, recorded_ask_later hask, hask, hrest, hplain]
        · simp [start, recorded_ask_later hask, hask, hrest, hplain]

theorem collect_recorded {calls : List Call} (slots : Slots calls) (world : σ)
    (log : List Answered) :
    ∃ log', slots.collect env.recorded (world, log) =
      ((slots.collect env world).1, (slots.collect env world).2, log') := by
  induction calls generalizing world log with
  | nil => exact ⟨log, rfl⟩
  | cons call calls ih =>
      obtain ⟨answer | ticket, rest⟩ := slots
      · obtain ⟨log', hrest⟩ := ih rest world log
        exact ⟨log', by simp [collect, hrest]⟩
      · rcases hcollect : env.collect ticket call world with ⟨_ | fault | answer, next⟩
        · obtain ⟨log', hrest⟩ := ih rest next log
          refine ⟨log', ?_⟩
          rcases hplain : rest.collect env next with ⟨fault | slots, last⟩ <;> rw [hplain] at hrest
          · simp [collect, recorded_collect_none hcollect, hcollect, hrest, hplain]
          · simp [collect, recorded_collect_none hcollect, hcollect, hrest, hplain]
        · exact ⟨_, by simp [collect, recorded_collect_some hcollect, hcollect, abandon_recorded]; rfl⟩
        · obtain ⟨log', hrest⟩ := ih rest next (log ++ [⟨call, .ok answer⟩])
          exact ⟨log', by simp [collect, recorded_collect_some hcollect, hcollect, hrest]⟩

end Slots

theorem Program.run_recorded (p : Program α) (world : σ) (log : List Answered) :
    ∃ log', p.run env.recorded (world, log) =
      ((p.run env world).1, (p.run env world).2.1, (p.run env world).2.2, log') := by
  induction p generalizing world log with
  | done result => exact ⟨log, rfl⟩
  | ask calls next ih =>
      obtain ⟨log', hstart⟩ := Slots.start_recorded env calls world log
      rcases hplain : Slots.start env calls world with ⟨fault | slots, asked, world'⟩ <;>
        rw [hplain] at hstart
      · obtain ⟨log'', hrest⟩ := ih (.error fault) world' log'
        exact ⟨log'', by simp [run, hstart, hplain, hrest]⟩
      · cases hanswers : slots.answers? with
        | none => exact ⟨log', by simp [run, hstart, hplain, hanswers]⟩
        | some answers =>
            obtain ⟨log'', hrest⟩ := ih (.ok answers) world' log'
            exact ⟨log'', by simp [run, hstart, hplain, hanswers, hrest]⟩

namespace Job

/-- A job goes on just the same when the answers are written down. -/
theorem resume_recorded (job : Job α) (world : σ) (log : List Answered) :
    ∃ log', job.resume env.recorded (world, log) =
      ((job.resume env world).1, (job.resume env world).2.1, (job.resume env world).2.2, log') := by
  cases job with
  | fresh program => exact program.run_recorded env world log
  | waiting calls slots next =>
      obtain ⟨log', hcollect⟩ := slots.collect_recorded env world log
      rcases hplain : slots.collect env world with ⟨fault | slots', world'⟩ <;>
        rw [hplain] at hcollect
      · obtain ⟨log'', hrest⟩ := (next (.error fault)).run_recorded env world' log'
        exact ⟨log'', by simp [resume, hcollect, hplain, hrest]⟩
      · cases hanswers : slots'.answers? with
        | none => exact ⟨log', by simp [resume, hcollect, hplain, hanswers]⟩
        | some answers =>
            obtain ⟨log'', hrest⟩ := (next (.ok answers)).run_recorded env world' log'
            exact ⟨log'', by simp [resume, hcollect, hplain, hanswers, hrest]⟩

/-- The answers that a job gets when it goes on. -/
def heard (job : Job α) (world : σ) : List Answered :=
  (job.resume env.recorded (world, [])).2.2.2

end Job

/-! ## One call at a time -/

/-- The answer to a group of one call. -/
def Answers.single {call : Call} (result : Except Fault call.Answer) :
    Except Fault (Answers [call]) :=
  result.map fun answer => (answer, ())

section

variable {env : Environment σ} {call : Call} {next : Except Fault (Answers [call]) → Program α}
  {world world' : σ} {ticket : Ticket} {result : Except Fault call.Answer}

theorem Program.run_now (h : env.ask call world = (.now result, world')) :
    (Program.ask [call] next).run env world =
      (((next (Answers.single result)).run env world').1,
        call :: ((next (Answers.single result)).run env world').2.1,
        ((next (Answers.single result)).run env world').2.2) := by
  rw [run, Slots.start, h]
  cases result <;> rfl

theorem Program.run_later (h : env.ask call world = (.later ticket, world')) :
    (Program.ask [call] next).run env world =
      (.pending (.waiting [call] (.owed ticket, ()) next), [call], world') := by
  simp [run, Slots.start, h, Slots.answers?]

theorem Job.resume_collected (h : env.collect ticket call world = (some result, world')) :
    (Job.waiting [call] (.owed ticket, ()) next).resume env world =
      (next (Answers.single result)).run env world' := by
  simp only [resume, Slots.collect, h]
  cases result <;> rfl

theorem Job.resume_owed (h : env.collect ticket call world = (none, world')) :
    (Job.waiting [call] (.owed ticket, ()) next).resume env world =
      (.pending (.waiting [call] (.owed ticket, ()) next), [], world') := by
  simp [resume, Slots.collect, h, Slots.answers?]

end

namespace Program

/-- Whatever the answers, the program asks one call at a time. -/
def OneByOne : Program α → Prop
  | .done _ => True
  | .ask calls next => (∃ call, calls = [call]) ∧ ∀ answers, (next answers).OneByOne

/-- Answers, one after another, lead a program on to what is left of it. -/
inductive Leads : Program α → List Answered → Program α → Prop where
  | refl (p : Program α) : Leads p [] p
  | step {call : Call} {next : Except Fault (Answers [call]) → Program α}
      {result : Except Fault call.Answer} {heard : List Answered} {rest : Program α} :
      Leads (next (Answers.single result)) heard rest →
      Leads (.ask [call] next) (⟨call, result⟩ :: heard) rest

variable {p q rest : Program α} {heard more : List Answered}

theorem Leads.trans (h : p.Leads heard q) (h' : q.Leads more rest) :
    p.Leads (heard ++ more) rest := by
  induction h with
  | refl => exact h'
  | step _ ih => exact .step (ih h')

theorem Leads.oneByOne (h : p.Leads heard rest) (hp : p.OneByOne) : rest.OneByOne := by
  induction h with
  | refl => exact hp
  | step _ ih => exact ih (hp.2 _)

theorem Leads.within {asks : Call → Prop} {ends : Except Fault α → Prop} (h : p.Leads heard rest)
    (hp : p.Within asks ends) : rest.Within asks ends := by
  induction h with
  | refl => exact hp
  | step _ ih => exact ih (hp.2 _)

theorem oneByOne_call (c : Call) : (call c).OneByOne := by
  refine ⟨⟨c, rfl⟩, fun answers => ?_⟩
  rcases answers with fault | ⟨answer, ⟨⟩⟩ <;> trivial

theorem OneByOne.bind {f : α → Program β} (hp : p.OneByOne) (hf : ∀ a, (f a).OneByOne) :
    (p >>= f).OneByOne := by
  change (p.bind f).OneByOne
  induction p with
  | done result =>
      cases result with
      | ok a => exact hf a
      | error fault => trivial
  | ask calls next ih => exact ⟨hp.1, fun answers => ih answers (hp.2 answers)⟩

/-- The one answer that leads a call to its end is the answer to it. -/
theorem Leads.of_call {c : Call} {answer : c.Answer}
    (h : (call c).Leads heard (.done (.ok answer))) : heard = [⟨c, .ok answer⟩] := by
  cases h with
  | @step _ _ result _ _ h =>
      rcases result with fault | answer' <;> cases h
      rfl

/-- A program that begins with a call is led to an end by a failure of this call, or by an answer
and what leads it on from there. -/
theorem leads_call_bind_iff {c : Call} {f : c.Answer → Program β} {result : Except Fault β} :
    (call c >>= f).Leads heard (.done result) ↔
      (∃ fault, heard = [⟨c, .error fault⟩] ∧ result = .error fault) ∨
        ∃ answer more, heard = ⟨c, .ok answer⟩ :: more ∧ (f answer).Leads more (.done result) := by
  change ((call c).bind f).Leads heard (.done result) ↔ _
  constructor
  · intro h
    cases h with
    | @step _ _ reply more _ h =>
        cases reply with
        | error fault =>
            cases h
            exact .inl ⟨fault, rfl, rfl⟩
        | ok answer => exact .inr ⟨answer, more, rfl, h⟩
  · rintro (⟨fault, rfl, rfl⟩ | ⟨answer, more, rfl, h⟩)
    · exact .step (.refl _)
    · exact .step h

/-- A program that goes on with the result of another one is led through both. -/
theorem Leads.of_bind {f : α → Program β} {b : β} (h : (p >>= f).Leads heard (.done (.ok b))) :
    ∃ first a second, heard = first ++ second ∧ p.Leads first (.done (.ok a)) ∧
      (f a).Leads second (.done (.ok b)) := by
  change (p.bind f).Leads heard (.done (.ok b)) at h
  induction p generalizing heard with
  | done result =>
      cases result with
      | ok a => exact ⟨[], a, heard, rfl, .refl _, h⟩
      | error fault => cases h
  | ask calls next ih =>
      cases h with
      | @step call _ result heard _ h =>
          obtain ⟨first, a, second, rfl, hfirst, hsecond⟩ := ih _ h
          exact ⟨_ :: first, a, second, rfl, .step hfirst, hsecond⟩

end Program

/-- Answers have led the program of a job on to what is left of it. -/
inductive Job.Continues (program : Program α) (heard : List Answered) : Job α → Prop where
  | fresh {rest : Program α} (h : program.Leads heard rest) : Continues program heard (.fresh rest)
  | waiting {call : Call} {next : Except Fault (Answers [call]) → Program α} (ticket : Ticket)
      (h : program.Leads heard (.ask [call] next)) :
      Continues program heard (.waiting [call] (.owed ticket, ()) next)

theorem Job.Continues.within {program : Program α} {heard : List Answered} {job : Job α}
    {asks : Call → Prop} {ends : Except Fault α → Prop} (h : job.Continues program heard)
    (hprogram : program.Within asks ends) : job.Within asks ends := by
  cases h with
  | fresh h => exact h.within hprogram
  | waiting ticket h => exact (h.within hprogram).2

/-- How far answers have led a program. -/
inductive Progress.Continues (program : Program α) (heard : List Answered) : Progress α → Prop where
  | finished {result : Except Fault α} (h : program.Leads heard (.done result)) :
      Continues program heard (.finished result)
  | pending {call : Call} {next : Except Fault (Answers [call]) → Program α} (ticket : Ticket)
      (h : program.Leads heard (.ask [call] next)) :
      Continues program heard (.pending (.waiting [call] (.owed ticket, ()) next))

theorem Progress.Continues.before {p q : Program α} {heard more : List Answered}
    {progress : Progress α} (h : progress.Continues q more) (hp : p.Leads heard q) :
    progress.Continues p (heard ++ more) := by
  cases h with
  | finished h => exact .finished (hp.trans h)
  | pending ticket h => exact .pending ticket (hp.trans h)

theorem Progress.Continues.job {program : Program α} {heard : List Answered} {job : Job α}
    (h : (Progress.pending job).Continues program heard) : job.Continues program heard := by
  cases h with
  | pending ticket h => exact .waiting ticket h

theorem Program.OneByOne.run {p : Program α} (h : p.OneByOne) (env : Environment σ) (world : σ)
    (log : List Answered) :
    ∃ heard, (p.run env.recorded (world, log)).2.2.2 = log ++ heard ∧
      (p.run env.recorded (world, log)).1.Continues p heard := by
  induction p generalizing world log with
  | done result => exact ⟨[], by simp [Program.run], .finished (.refl _)⟩
  | ask calls next ih =>
      obtain ⟨⟨call, rfl⟩, hnext⟩ := h
      rcases hask : env.ask call world with ⟨result | ticket, world'⟩
      · obtain ⟨heard, hlog, hcontinues⟩ :=
          ih (Answers.single result) (hnext _) world' (log ++ [⟨call, result⟩])
        refine ⟨⟨call, result⟩ :: heard, ?_, ?_⟩
        · rw [run_now (recorded_ask_now hask)]
          simpa using hlog
        · rw [run_now (recorded_ask_now hask)]
          exact hcontinues.before (.step (.refl _))
      · refine ⟨[], ?_, ?_⟩
        · rw [run_later (recorded_ask_later hask)]
          simp
        · rw [run_later (recorded_ask_later hask)]
          exact .pending ticket (.refl _)

/-- What a job hears leads its program on. -/
theorem Job.Continues.resume {program : Program α} {heard : List Answered} {job : Job α}
    (h : job.Continues program heard) (hone : program.OneByOne) (env : Environment σ) (world : σ) :
    (job.resume env world).1.Continues program (heard ++ job.heard env world) := by
  obtain ⟨log, hrecorded⟩ := job.resume_recorded env world []
  have hprogress : (job.resume env.recorded (world, [])).1 = (job.resume env world).1 := by
    rw [hrecorded]
  rw [← hprogress, Job.heard]
  cases h with
  | fresh h =>
      obtain ⟨more, hlog, hcontinues⟩ := (h.oneByOne hone).run env world []
      rw [Job.resume, hlog]
      exact hcontinues.before h
  | @waiting call next ticket h =>
      rcases hcollect : env.collect ticket call world with ⟨_ | result, world'⟩
      · rw [resume_owed (recorded_collect_none hcollect)]
        rw [List.append_nil]
        exact .pending ticket h
      · obtain ⟨more, hlog, hcontinues⟩ :=
          ((h.oneByOne hone).2 (Answers.single result)).run env world' [⟨call, result⟩]
        rw [resume_collected (recorded_collect_some hcollect)]
        simp only [List.nil_append]
        rw [hlog]
        simpa using hcontinues.before (h.trans (.step (.refl _)))

end MintSale
