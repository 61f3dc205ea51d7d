import MintSale.Proofs.Collaborator.Candor

/-!
# What a group of calls hears

Until a group ends, all that has been heard of it is in its slots, in whatever order it has come. A
group fails with the first failure that is heard, and nothing is heard after it.
-/

namespace MintSale

/-- The answer is no failure. -/
def Answered.IsGood (a : Answered) : Prop :=
  ∃ answer, a.result = .ok answer

/-- The answers to a group, each with its call. -/
def Answers.each : {calls : List Call} → Answers calls → List Answered
  | [], _ => []
  | call :: _, (answer, rest) => ⟨call, .ok answer⟩ :: rest.each

namespace Slots

/-- The answers that are there, each with its call. -/
def got : {calls : List Call} → Slots calls → List Answered
  | [], _ => []
  | call :: _, (.answered answer, rest) => ⟨call, .ok answer⟩ :: rest.got
  | _ :: _, (.owed _, rest) => rest.got

variable {calls : List Call} {slots : Slots calls}

theorem isGood_of_got : ∀ a ∈ slots.got, a.IsGood := by
  induction calls with
  | nil => simp [got]
  | cons call calls ih =>
      obtain ⟨answer | ticket, rest⟩ := slots
      · exact List.forall_mem_cons.mpr ⟨⟨answer, rfl⟩, ih⟩
      · exact ih

theorem length_got_le : slots.got.length ≤ calls.length := by
  induction calls with
  | nil => simp [got]
  | cons call calls ih =>
      obtain ⟨answer | ticket, rest⟩ := slots
      · simpa [got] using ih
      · exact Nat.le_succ_of_le ih

/-- An answer is missing as long as one is owed. -/
theorem length_got_lt (h : slots.answers? = none) : slots.got.length < calls.length := by
  induction calls with
  | nil => simp [answers?] at h
  | cons call calls ih =>
      obtain ⟨answer | ticket, rest⟩ := slots
      · have hrest : rest.answers? = none := Option.map_eq_none_iff.mp h
        simpa [got] using ih hrest
      · have hle : rest.got.length ≤ calls.length := length_got_le
        exact Nat.lt_succ_of_le hle

theorem got_of_answers {answers : Answers calls} (h : slots.answers? = some answers) :
    slots.got = answers.each := by
  induction calls with
  | nil => rfl
  | cons call calls ih =>
      obtain ⟨answer | ticket, rest⟩ := slots
      · obtain ⟨more, hrest, rfl⟩ := Option.map_eq_some_iff.mp h
        simp [got, Answers.each, ih hrest]
      · simp [answers?] at h

/-! ## Asking -/

open Environment

variable {σ : Type} {env : Environment σ} {world next : σ} {log log' : List Answered}
  {asked : List Call} {fault : Fault} {slots' : Slots calls}

/-- All calls of a group are asked if none fails, and what was heard by then is in the slots. -/
theorem start_ok (h : start env.recorded calls (world, log) = (.ok slots, asked, next, log')) :
    asked = calls ∧ log' = log ++ slots.got := by
  induction calls generalizing world log asked with
  | nil =>
      obtain ⟨-, rfl, -, rfl⟩ : _ ∧ [] = asked ∧ world = next ∧ log = log' := by
        simpa [start] using h
      exact ⟨rfl, (List.append_nil _).symm⟩
  | cons call calls ih =>
      rcases hask : env.ask call world with ⟨(fault | answer) | ticket, world'⟩
      · simp [start, recorded_ask_now hask] at h
      · rcases hrest : start env.recorded calls (world', log ++ [⟨call, .ok answer⟩]) with
          ⟨fault | rest, more, last⟩
        · simp [start, recorded_ask_now hask, hrest, Except.map] at h
        · simp only [start, recorded_ask_now hask, hrest, Except.map, Prod.mk.injEq] at h
          obtain ⟨hslots, rfl, rfl⟩ := h
          cases hslots
          obtain ⟨rfl, rfl⟩ := ih hrest
          exact ⟨rfl, by simp [got]⟩
      · rcases hrest : start env.recorded calls (world', log) with ⟨fault | rest, more, last⟩
        · simp [start, recorded_ask_later hask, hrest] at h
        · simp only [start, recorded_ask_later hask, hrest, Prod.mk.injEq] at h
          obtain ⟨hslots, rfl, rfl⟩ := h
          cases hslots
          obtain ⟨rfl, rfl⟩ := ih hrest
          exact ⟨rfl, by simp [got]⟩

/-- A group that fails at once asks no call behind the one that fails. -/
theorem start_error
    (h : start env.recorded calls (world, log) = (.error fault, asked, next, log')) :
    ∃ before call after good, calls = before ++ call :: after ∧ asked = before ++ [call] ∧
      log' = log ++ good ++ [⟨call, .error fault⟩] ∧ (∀ a ∈ good, a.IsGood) ∧
      (good.map (·.call)).Sublist before := by
  induction calls generalizing world log asked next with
  | nil => simp [start] at h
  | cons call calls ih =>
      rcases hask : env.ask call world with ⟨(fault' | answer) | ticket, world'⟩
      · obtain ⟨rfl, rfl, -, rfl⟩ : fault' = fault ∧ [call] = asked ∧ world' = next ∧
            log ++ [⟨call, .error fault'⟩] = log' := by
          simpa [start, recorded_ask_now hask] using h
        exact ⟨[], call, calls, [], by simp⟩
      · rcases hrest : start env.recorded calls (world', log ++ [⟨call, .ok answer⟩]) with
          ⟨fault' | rest, more, last⟩
        · obtain ⟨rfl, rfl, rfl⟩ : fault' = fault ∧ call :: more = asked ∧ last = (next, log') := by
            simpa [start, recorded_ask_now hask, hrest, Except.map] using h
          obtain ⟨before, c, after, good, rfl, rfl, rfl, hgood, hcalls⟩ := ih hrest
          refine ⟨call :: before, c, after, ⟨call, .ok answer⟩ :: good, rfl, rfl, by simp, ?_, ?_⟩
          · exact List.forall_mem_cons.mpr ⟨⟨answer, rfl⟩, hgood⟩
          · exact hcalls.cons_cons call
        · simp [start, recorded_ask_now hask, hrest, Except.map] at h
      · rcases hrest : start env.recorded calls (world', log) with
          ⟨fault' | rest, more, last, log''⟩
        · obtain ⟨rfl, rfl, -, rfl⟩ : fault' = fault ∧ call :: more = asked ∧
              env.abandon ticket last = next ∧ log'' = log' := by
            simpa [start, recorded_ask_later hask, hrest] using h
          obtain ⟨before, c, after, good, rfl, rfl, rfl, hgood, hcalls⟩ := ih hrest
          exact ⟨call :: before, c, after, good, rfl, rfl, rfl, hgood, hcalls.cons call⟩
        · simp [start, recorded_ask_later hask, hrest] at h

/-! ## Collecting -/

/-- What is newly heard is put into the slots. -/
theorem collect_ok (h : slots.collect env.recorded (world, log) = (.ok slots', next, log')) :
    ∃ new, log' = log ++ new ∧ (slots.got ++ new).Perm slots'.got := by
  induction calls generalizing world log with
  | nil =>
      obtain ⟨-, -, rfl⟩ : _ ∧ world = next ∧ log = log' := by simpa [collect] using h
      exact ⟨[], by simp, by simp [got]⟩
  | cons call calls ih =>
      obtain ⟨answer | ticket, rest⟩ := slots
      · rcases hrest : rest.collect env.recorded (world, log) with ⟨fault | rest', last⟩
        · simp [collect, hrest, Except.map] at h
        · simp only [collect, hrest, Except.map, Prod.mk.injEq] at h
          obtain ⟨hslots, rfl⟩ := h
          cases hslots
          obtain ⟨new, hlog, hperm⟩ := ih hrest
          exact ⟨new, hlog, hperm.cons _⟩
      · rcases hcollect : env.collect ticket call world with ⟨_ | fault | answer, world'⟩
        · rcases hrest : rest.collect env.recorded (world', log) with ⟨fault | rest', last⟩
          · simp [collect, recorded_collect_none hcollect, hrest] at h
          · simp only [collect, recorded_collect_none hcollect, hrest, Prod.mk.injEq] at h
            obtain ⟨hslots, rfl⟩ := h
            cases hslots
            exact ih hrest
        · simp [collect, recorded_collect_some hcollect] at h
        · rcases hrest : rest.collect env.recorded (world', log ++ [⟨call, .ok answer⟩]) with
            ⟨fault | rest', last⟩
          · simp [collect, recorded_collect_some hcollect, hrest, Except.map] at h
          · simp only [collect, recorded_collect_some hcollect, hrest, Except.map,
              Prod.mk.injEq] at h
            obtain ⟨hslots, rfl⟩ := h
            cases hslots
            obtain ⟨new, hlog, hperm⟩ := ih hrest
            refine ⟨⟨call, .ok answer⟩ :: new, by simpa using hlog, ?_⟩
            exact List.perm_middle.trans (hperm.cons _)

/-- Collecting ends with the first failure. -/
theorem collect_error
    (h : slots.collect env.recorded (world, log) = (.error fault, next, log')) :
    ∃ good call, call ∈ calls ∧ log' = log ++ good ++ [⟨call, .error fault⟩] ∧
      ∀ a ∈ good, a.IsGood := by
  induction calls generalizing world log next with
  | nil => simp [collect] at h
  | cons call calls ih =>
      obtain ⟨answer | ticket, rest⟩ := slots
      · rcases hrest : rest.collect env.recorded (world, log) with ⟨fault' | rest', last⟩
        · obtain ⟨rfl, rfl⟩ : fault' = fault ∧ last = (next, log') := by
            simpa [collect, hrest, Except.map] using h
          obtain ⟨good, c, hc, hlog, hgood⟩ := ih hrest
          exact ⟨good, c, List.mem_cons_of_mem call hc, hlog, hgood⟩
        · simp [collect, hrest, Except.map] at h
      · rcases hcollect : env.collect ticket call world with ⟨_ | fault' | answer, world'⟩
        · rcases hrest : rest.collect env.recorded (world', log) with ⟨fault' | rest', last, log''⟩
          · obtain ⟨rfl, -, rfl⟩ : fault' = fault ∧ env.abandon ticket last = next ∧
                log'' = log' := by
              simpa [collect, recorded_collect_none hcollect, hrest] using h
            obtain ⟨good, c, hc, hlog, hgood⟩ := ih hrest
            exact ⟨good, c, List.mem_cons_of_mem call hc, hlog, hgood⟩
          · simp [collect, recorded_collect_none hcollect, hrest] at h
        · obtain ⟨rfl, -, rfl⟩ : fault' = fault ∧ rest.abandon env world' = next ∧
              log ++ [⟨call, .error fault'⟩] = log' := by
            simpa [collect, recorded_collect_some hcollect, abandon_recorded] using h
          exact ⟨[], call, by simp⟩
        · rcases hrest : rest.collect env.recorded (world', log ++ [⟨call, .ok answer⟩]) with
            ⟨fault' | rest', last⟩
          · obtain ⟨rfl, rfl⟩ : fault' = fault ∧ last = (next, log') := by
              simpa [collect, recorded_collect_some hcollect, hrest, Except.map] using h
            obtain ⟨good, c, hc, hlog, hgood⟩ := ih hrest
            refine ⟨⟨call, .ok answer⟩ :: good, c, List.mem_cons_of_mem call hc, ?_, ?_⟩
            · simpa using hlog
            · exact List.forall_mem_cons.mpr ⟨⟨answer, rfl⟩, hgood⟩
          · simp [collect, recorded_collect_some hcollect, hrest, Except.map] at h

end Slots

end MintSale
