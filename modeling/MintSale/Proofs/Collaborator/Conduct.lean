import MintSale.Collaborator.Job

/-!
# What programs can do

A program's conduct is what it asks and how it ends, whatever the answers are. It is a matter of the
program alone and carries over to jobs, however far they have come.
-/

namespace MintSale

/-- Whether a call lets a wallet send something. -/
def Call.IsSend : Call → Prop
  | .send .. => True
  | _ => False

namespace Program

variable {α β : Type}

/-! ## Conduct -/

/-- Whatever the answers, the program only asks calls that satisfy `asks`, and only ends as `ends`
allows. -/
def Within (asks : Call → Prop) (ends : Except Fault α → Prop) : Program α → Prop
  | .done result => ends result
  | .ask calls next => (∀ call ∈ calls, asks call) ∧ ∀ answers, (next answers).Within asks ends

theorem Within.mono {asks asks' : Call → Prop} {ends ends' : Except Fault α → Prop}
    {p : Program α} (h : p.Within asks ends) (hasks : ∀ call, asks call → asks' call)
    (hends : ∀ result, ends result → ends' result) : p.Within asks' ends' := by
  induction p with
  | done result => exact hends result h
  | ask calls next ih =>
      obtain ⟨hcalls, hnext⟩ := h
      exact ⟨fun call hc => hasks call (hcalls call hc), fun answers => ih answers (hnext answers)⟩

@[simp] theorem within_fail (asks : Call → Prop) (ends : Except Fault α → Prop) (fault : Fault) :
    (fail fault : Program α).Within asks ends ↔ ends (.error fault) :=
  Iff.rfl

@[simp] theorem within_require (asks : Call → Prop) (ends : Except Fault α → Prop) (fault : Fault)
    (value : Option α) :
    (require fault value).Within asks ends ↔
      (∀ a, value = some a → ends (.ok a)) ∧ (value = none → ends (.error fault)) := by
  cases value <;> simp [require, Within]

@[simp] theorem within_call (asks : Call → Prop) (c : Call)
    (ends : Except Fault c.Answer → Prop) :
    (call c).Within asks ends ↔ asks c ∧ ∀ result, ends result := by
  constructor
  · rintro ⟨hasks, hends⟩
    refine ⟨hasks c (by simp), fun result => ?_⟩
    cases result with
    | ok answer => exact hends (.ok (answer, ()))
    | error fault => exact hends (.error fault)
  · rintro ⟨hasks, hends⟩
    refine ⟨by simpa using hasks, fun answers => ?_⟩
    cases answers with
    | ok answers => exact hends (.ok answers.1)
    | error fault => exact hends (.error fault)

@[simp] theorem within_calls (asks : Call → Prop) (cs : List Call)
    (ends : Except Fault (Answers cs) → Prop) :
    (calls cs).Within asks ends ↔ (∀ c ∈ cs, asks c) ∧ ∀ result, ends result :=
  Iff.rfl

@[simp] theorem within_attempt (asks : Call → Prop)
    (ends : Except Fault (Except Fault α) → Prop) (p : Program α) :
    p.attempt.Within asks ends ↔ p.Within asks fun result => ends (.ok result) := by
  induction p with
  | done result => rfl
  | ask calls next ih => simp only [attempt, Within, ih]

/-- How a program ends that goes on with the result of another one. -/
def andThen (f : α → Program β) (asks : Call → Prop) (ends : Except Fault β → Prop) :
    Except Fault α → Prop
  | .ok a => (f a).Within asks ends
  | .error fault => ends (.error fault)

@[simp] theorem within_bind (asks : Call → Prop) (ends : Except Fault β → Prop) (p : Program α)
    (f : α → Program β) :
    (p >>= f).Within asks ends ↔ p.Within asks (andThen f asks ends) := by
  change (p.bind f).Within asks ends ↔ _
  induction p with
  | done result => cases result <;> rfl
  | ask calls next ih => simp only [Program.bind, Within, ih]

/-- A program that asks a call and goes on with the answer. -/
theorem Within.call_bind {asks : Call → Prop} {ends : Except Fault β → Prop} {c : Call}
    {f : c.Answer → Program β} (hc : asks c) (hf : ∀ answer, (f answer).Within asks ends)
    (hends : ∀ fault, ends (.error fault)) : (call c >>= f).Within asks ends := by
  refine (within_bind _ _ _ _).mpr ((within_call _ _ _).mpr ⟨hc, ?_⟩)
  rintro (fault | answer)
  · exact hends fault
  · exact hf answer

/-- A program that goes on with a value that has to be there. -/
theorem Within.require_bind {asks : Call → Prop} {ends : Except Fault β → Prop} {fault : Fault}
    {value : Option α} {f : α → Program β} (hf : ∀ a, value = some a → (f a).Within asks ends)
    (hends : ends (.error fault)) : (require fault value >>= f).Within asks ends := by
  refine (within_bind _ _ _ _).mpr ((within_require _ _ _ _).mpr ⟨hf, fun _ => ?_⟩)
  exact hends

/-! ## Results -/

/-- Some answers lead the program to a result. -/
inductive Yields : Program α → α → Prop where
  | done (a : α) : Yields (.done (.ok a)) a
  | ask {calls : List Call} {next : Except Fault (Answers calls) → Program α} {a : α}
      (answers : Except Fault (Answers calls)) :
      Yields (next answers) a → Yields (.ask calls next) a

/-- A program only ends with what it yields. -/
theorem Within.yields {asks : Call → Prop} {ends : Except Fault α → Prop} {p : Program α}
    (h : p.Within asks ends) :
    p.Within asks fun result => ends result ∧ ∀ a, result = .ok a → p.Yields a := by
  induction p with
  | done result =>
      refine ⟨h, ?_⟩
      rintro a rfl
      exact .done a
  | ask calls next ih =>
      refine ⟨h.1, fun answers => ?_⟩
      refine (ih answers (h.2 answers)).mono (fun _ => id) ?_
      rintro result ⟨hends, hyields⟩
      exact ⟨hends, fun a ha => .ask answers (hyields a ha)⟩

/-- What a program yields is among the ways it may end. -/
theorem Yields.ends {asks : Call → Prop} {ends : Except Fault α → Prop} {p : Program α} {a : α}
    (h : p.Yields a) (hp : p.Within asks ends) : ends (.ok a) := by
  induction h with
  | done a => exact hp
  | ask answers _ ih => exact ih (hp.2 answers)

end Program

/-! ## Jobs -/

namespace Job

variable {α σ : Type}

/-- The conduct of what is left of a job. -/
def Within (asks : Call → Prop) (ends : Except Fault α → Prop) : Job α → Prop
  | .fresh program => program.Within asks ends
  | .waiting _ _ next => ∀ answers, (next answers).Within asks ends

end Job

/-- How far a job has come, given its conduct. -/
def Progress.Within {α : Type} (asks : Call → Prop) (ends : Except Fault α → Prop) :
    Progress α → Prop
  | .finished result => ends result
  | .pending job => job.Within asks ends

variable {α σ : Type} {asks : Call → Prop} {ends : Except Fault α → Prop}

/-- Only calls of the group are asked. -/
theorem Slots.mem_of_start (env : Environment σ) (calls : List Call) (world : σ) :
    ∀ call ∈ (Slots.start env calls world).2.1, call ∈ calls := by
  induction calls generalizing world with
  | nil => simp [Slots.start]
  | cons c calls ih =>
      simp only [Slots.start]
      split
      · simp
      · next world' _ =>
        intro call hcall
        rcases List.mem_cons.mp hcall with rfl | hcall
        · exact List.mem_cons_self
        · exact List.mem_cons_of_mem c (ih world' call hcall)
      · next world' _ =>
        intro call hcall
        split at hcall <;> rcases List.mem_cons.mp hcall with rfl | hcall
        · exact List.mem_cons_self
        · exact List.mem_cons_of_mem c (ih world' call hcall)
        · exact List.mem_cons_self
        · exact List.mem_cons_of_mem c (ih world' call hcall)

/-- A program that goes on as far as possible keeps to its conduct. -/
theorem Program.Within.run (env : Environment σ) {p : Program α} (h : p.Within asks ends)
    (world : σ) :
    (p.run env world).1.Within asks ends ∧ ∀ call ∈ (p.run env world).2.1, asks call := by
  induction p generalizing world with
  | done result => exact ⟨h, by simp [Program.run]⟩
  | ask calls next ih =>
      have hstart := Slots.mem_of_start env calls world
      obtain ⟨hcalls, hnext⟩ := h
      rw [Program.run]
      split
      · next fault asked world' hs =>
        rw [hs] at hstart
        obtain ⟨hends, hmore⟩ := ih (.error fault) (hnext _) world'
        refine ⟨hends, fun call hcall => ?_⟩
        rcases List.mem_append.mp hcall with hcall | hcall
        · exact hcalls call (hstart call hcall)
        · exact hmore call hcall
      · next slots asked world' hs =>
        rw [hs] at hstart
        split
        · next answers _ =>
          obtain ⟨hends, hmore⟩ := ih (.ok answers) (hnext _) world'
          refine ⟨hends, fun call hcall => ?_⟩
          rcases List.mem_append.mp hcall with hcall | hcall
          · exact hcalls call (hstart call hcall)
          · exact hmore call hcall
        · exact ⟨hnext, fun call hcall => hcalls call (hstart call hcall)⟩

/-- A job that goes on as far as possible keeps to its conduct. -/
theorem Job.Within.resume (env : Environment σ) {job : Job α} (h : job.Within asks ends)
    (world : σ) :
    (job.resume env world).1.Within asks ends ∧
      ∀ call ∈ (job.resume env world).2.1, asks call := by
  cases job with
  | fresh program => exact Program.Within.run env h world
  | waiting calls slots next =>
      rw [Job.resume]
      split
      · exact (h _).run env _
      · split
        · exact (h _).run env _
        · exact ⟨h, by simp⟩

end MintSale
