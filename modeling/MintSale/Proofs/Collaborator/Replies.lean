import MintSale.Proofs.Collaborator.Hearing

/-!
# Programs and settled replies

Collaborators whose replies are settled lead a program to one outcome, and which calls it asks on
the way is settled too. Collaborators that answer at once bring a program there in one go, and a job
that has to wait for them gets to the same end.
-/

namespace MintSale

variable {α β σ : Type}

/-- What collaborators reply to each call, whenever it is asked. -/
abbrev Replies := (call : Call) → Except Fault call.Answer

/-! ## Groups of calls -/

namespace Replies

variable (replies : Replies)

/-- The answers to the calls of a group, or the first failure among them. -/
def all : (calls : List Call) → Except Fault (Answers calls)
  | [] => .ok ()
  | call :: calls =>
    match replies call with
    | .ok answer => (all calls).map (answer, ·)
    | .error fault => .error fault

/-- The calls of a group that are asked: none behind one that fails. -/
def reached : List Call → List Call
  | [] => []
  | call :: calls =>
    match replies call with
    | .ok _ => call :: reached calls
    | .error _ => [call]

@[simp] theorem all_single (call : Call) : replies.all [call] = Answers.single (replies call) := by
  rw [all]
  cases replies call <;> rfl

@[simp] theorem reached_single (call : Call) : replies.reached [call] = [call] := by
  rw [reached]
  cases replies call <;> rfl

end Replies

/-! ## Outcomes -/

namespace Program

variable (replies : Replies)

/-- How a program ends with these replies. -/
def outcome : Program α → Except Fault α
  | .done result => result
  | .ask calls next => (next (replies.all calls)).outcome

/-- What a program asks with these replies, in order. -/
def questions : Program α → List Call
  | .done _ => []
  | .ask calls next => replies.reached calls ++ (next (replies.all calls)).questions

/-- With these replies the program asks these calls, in order, and has this result. -/
structure ComesTo (p : Program α) (asked : List Call) (result : Except Fault α) : Prop where
  questions_eq : p.questions replies = asked
  outcome_eq : p.outcome replies = result

variable {replies}

theorem comesTo_pure (a : α) : (pure a : Program α).ComesTo replies [] (.ok a) :=
  ⟨rfl, rfl⟩

theorem comesTo_fail (fault : Fault) : (fail fault : Program α).ComesTo replies [] (.error fault) :=
  ⟨rfl, rfl⟩

/-- A program that asks a call comes to what it goes on to with the answer. -/
theorem ComesTo.call_bind {c : Call} {answer : c.Answer} {f : c.Answer → Program α}
    {asked : List Call} {result : Except Fault α} (hc : replies c = .ok answer)
    (hf : (f answer).ComesTo replies asked result) :
    (call c >>= f).ComesTo replies (c :: asked) result := by
  constructor
  · change (Program.bind (call c) f).questions replies = _
    rw [call, Program.bind, questions, Replies.reached_single, Replies.all_single, hc]
    exact congrArg (c :: ·) hf.questions_eq
  · change (Program.bind (call c) f).outcome replies = _
    rw [call, Program.bind, outcome, Replies.all_single, hc]
    exact hf.outcome_eq

/-- A program fails with a call that it asks. -/
theorem ComesTo.call_bind_error {c : Call} {fault : Fault} {f : c.Answer → Program α}
    (hc : replies c = .error fault) :
    (call c >>= f).ComesTo replies [c] (.error fault) := by
  constructor
  · change (Program.bind (call c) f).questions replies = _
    rw [call, Program.bind, questions, Replies.reached_single, Replies.all_single, hc]
    rfl
  · change (Program.bind (call c) f).outcome replies = _
    rw [call, Program.bind, outcome, Replies.all_single, hc]
    rfl

end Program

/-! ## Collaborators that answer at once -/

/-- All calls of a group have been answered. -/
def Slots.ofAnswers : {calls : List Call} → Answers calls → Slots calls
  | [], _ => ()
  | _ :: _, (answer, answers) => (.answered answer, ofAnswers answers)

theorem Slots.answers?_ofAnswers {calls : List Call} (answers : Answers calls) :
    (Slots.ofAnswers answers).answers? = some answers := by
  induction calls with
  | nil => rfl
  | cons call calls ih =>
      obtain ⟨answer, answers⟩ := answers
      rw [ofAnswers, Slots.answers?, ih]
      rfl

/-- The collaborators give these replies, and at once. -/
def Environment.IsPrompt (env : Environment σ) (replies : Replies) : Prop :=
  ∀ call world, ∃ next, env.ask call world = (.now (replies call), next)

variable {env : Environment σ} {replies : Replies}

theorem Slots.start_prompt (h : env.IsPrompt replies) (calls : List Call) (world : σ) :
    ∃ next, Slots.start env calls world =
      ((replies.all calls).map Slots.ofAnswers, replies.reached calls, next) := by
  induction calls generalizing world with
  | nil => exact ⟨world, rfl⟩
  | cons call calls ih =>
      obtain ⟨next, hask⟩ := h call world
      rw [start, hask, Replies.all, Replies.reached]
      cases replies call with
      | error fault => exact ⟨next, rfl⟩
      | ok answer =>
          obtain ⟨last, hrest⟩ := ih next
          refine ⟨last, ?_⟩
          dsimp only
          rw [hrest]
          cases replies.all calls <;> rfl

/-- With collaborators that answer at once, a program comes to its outcome in one go. -/
theorem Program.run_prompt (h : env.IsPrompt replies) (p : Program α) (world : σ) :
    ∃ next, p.run env world = (.finished (p.outcome replies), p.questions replies, next) := by
  induction p generalizing world with
  | done result => exact ⟨world, rfl⟩
  | ask calls next ih =>
      obtain ⟨world', hstart⟩ := Slots.start_prompt h calls world
      rw [run, hstart, outcome, questions]
      cases hall : replies.all calls with
      | error fault =>
          obtain ⟨last, hrest⟩ := ih (.error fault) world'
          exact ⟨last, by simp [Except.map, hrest]⟩
      | ok answers =>
          obtain ⟨last, hrest⟩ := ih (.ok answers) world'
          exact ⟨last, by simp [Except.map, Slots.answers?_ofAnswers, hrest]⟩

/-! ## One program after another -/

/-- A program that goes on with the result of another one asks what that one asks, and goes on from
where it has ended. -/
theorem Program.run_bind {p : Program α} {world world' : σ} {asked : List Call}
    {result : Except Fault α} (h : p.run env world = (.finished result, asked, world'))
    (f : α → Program β) :
    (p >>= f).run env world = (((Program.done result >>= f).run env world').1,
      asked ++ ((Program.done result >>= f).run env world').2.1,
      ((Program.done result >>= f).run env world').2.2) := by
  change (p.bind f).run env world = _
  induction p generalizing world asked with
  | done result =>
      cases h
      rfl
  | ask calls next ih =>
      rw [Program.run] at h
      rw [Program.bind, Program.run]
      rcases hstart : Slots.start env calls world with ⟨fault | slots, first, between⟩ <;>
        rw [hstart] at h
      · rcases hrest : (next (.error fault)).run env between with ⟨progress, more, last⟩
        simp only [hrest] at h
        cases h
        simp only [ih _ hrest, List.append_assoc]
      · cases hanswers : slots.answers? with
        | none => simp [hanswers] at h
        | some answers =>
            rcases hrest : (next (.ok answers)).run env between with ⟨progress, more, last⟩
            simp only [hanswers, hrest] at h
            cases h
            simp only [hanswers, ih _ hrest, List.append_assoc]

/-! ## Collaborators that take their time -/

/-- Answers that agree with the replies lead a program on to the same outcome. -/
theorem Program.Leads.outcome_eq {p rest : Program α} {heard : List Answered}
    (h : p.Leads heard rest) (hreplies : ∀ x ∈ heard, x.result = replies x.call) :
    p.outcome replies = rest.outcome replies ∧
      p.questions replies = heard.map Answered.call ++ rest.questions replies := by
  induction h with
  | refl p => exact ⟨rfl, rfl⟩
  | @step call next result heard rest h ih =>
      obtain rfl : result = replies call := hreplies _ List.mem_cons_self
      obtain ⟨houtcome, hquestions⟩ := ih fun x hx => hreplies x (List.mem_cons_of_mem _ hx)
      rw [outcome, questions, Replies.all_single, Replies.reached_single]
      exact ⟨houtcome, congrArg (call :: ·) hquestions⟩

/-- However often a job has to wait: if all that it hears agrees with the replies, it ends with its
program's outcome, and has asked what its program asks. -/
theorem Job.Continues.outcome_eq {program : Program α} {heard : List Answered} {job : Job α}
    (h : job.Continues program heard) (hone : program.OneByOne) {world : σ}
    (hreplies : ∀ x ∈ heard ++ job.heard env world, x.result = replies x.call)
    {result : Except Fault α} (hend : (job.resume env world).1 = .finished result) :
    result = program.outcome replies ∧
      program.questions replies = (heard ++ job.heard env world).map Answered.call := by
  have hcontinues := h.resume hone env world
  rw [hend] at hcontinues
  cases hcontinues with
  | finished hleads =>
      obtain ⟨houtcome, hquestions⟩ := hleads.outcome_eq hreplies
      exact ⟨houtcome.symm, by simpa [Program.questions] using hquestions⟩

end MintSale
