import Mathlib.Data.List.Chain
import MintSale.Proofs.Collaborator.Groups
import MintSale.Proofs.LiveFeed

/-!
# The rounds of a feed

What a feed asks, hears and sends falls into rounds. A round asks for the price and the state, and
is reported once both answers are there or one of them is a failure. Another round only follows one
that has succeeded, and not before the interval is over.
-/

namespace MintSale.LiveFeed

/-! ## Rounds -/

/-- Something that a feed does at a time, or an answer that it gets. -/
inductive Beat where
  | asked (now : Nat) (call : Call)
  | heard (answer : Answered)
  | sent (now : Nat) (message : Message)

/-- One round of reading. -/
structure Round where
  began : Nat
  asked : List Call
  heard : List Answered
  /-- When the round was reported, and how. -/
  reported : Option (Nat × Report)

/-- What a round adds to the record of the feed with a number. -/
def Round.beats (generation : Nat) (r : Round) : List Beat :=
  r.asked.map (.asked r.began) ++ r.heard.map .heard ++
    (r.reported.map fun (now, report) => .sent now ⟨.feed, generation, report⟩).toList

/-- The two reads of a round. -/
def Setup.reads (s : Setup) : List Call :=
  [.priceInfo s.chain s.project, .projectState s.chain s.project]

/-- What a round can be. -/
inductive Setup.Has (s : Setup) : Round → Prop where
  /-- One that waits for an answer or has been given up. -/
  | unfinished {began : Nat} {heard : List Answered} (hgood : ∀ a ∈ heard, a.IsGood)
      (hfew : heard.length < 2) : Has s ⟨began, s.reads, heard, none⟩
  | succeeded {began now : Nat} {heard : List Answered} {price : PriceInfo} {state : ProjectState}
      (hheard : heard.Perm [⟨.priceInfo s.chain s.project, .ok price⟩,
        ⟨.projectState s.chain s.project, .ok state⟩]) :
      Has s ⟨began, s.reads, heard, some (now, .liveData (.ofReads price state))⟩
  | failed {began now : Nat} {good : List Answered} {call : Call} {fault : Fault}
      (hgood : ∀ a ∈ good, a.IsGood) (hcall : call ∈ s.reads) :
      Has s ⟨began, s.reads, good ++ [⟨call, .error fault⟩], some (now, .failed fault.message)⟩
  /-- The price failed at once, so the state was not asked for. -/
  | refused {began : Nat} {fault : Fault} :
      Has s ⟨began, [.priceInfo s.chain s.project],
        [⟨.priceInfo s.chain s.project, .error fault⟩], some (began, .failed fault.message)⟩

/-- A round may begin at a time if the one before it has succeeded an interval ago. -/
def Round.Allows (interval : Nat) (r : Round) (began : Nat) : Prop :=
  ∃ now data, r.reported = some (now, .liveData data) ∧ now + interval ≤ began

/-- Rounds of reading that keep the interval. A round that has not succeeded is the last one. -/
structure Protocol (s : Setup) (interval : Nat) (rounds : List Round) : Prop where
  each : ∀ r ∈ rounds, s.Has r
  spaced : rounds.IsChain fun r next => r.Allows interval next.began

section Protocols

variable {s : Setup} {interval : Nat} {rounds : List Round} {r : Round}

theorem Protocol.nil (s : Setup) (interval : Nat) : Protocol s interval [] :=
  ⟨by simp, .nil⟩

theorem protocol_concat_iff : Protocol s interval (rounds ++ [r]) ↔
    Protocol s interval rounds ∧ s.Has r ∧
      ∀ last ∈ rounds.getLast?, last.Allows interval r.began := by
  constructor
  · rintro ⟨heach, hspaced⟩
    obtain ⟨hrounds, -, hlast⟩ := List.isChain_append.mp hspaced
    refine ⟨⟨fun r hr => heach r (List.mem_append_left _ hr), hrounds⟩, heach r (by simp), ?_⟩
    exact fun last hmem => hlast last hmem r (by simp)
  · rintro ⟨⟨heach, hspaced⟩, hr, hlast⟩
    constructor
    · intro r' hr'
      rcases List.mem_append.mp hr' with hr' | hr'
      · exact heach r' hr'
      · rwa [List.mem_singleton.mp hr']
    · refine hspaced.append (.singleton r) fun last hmem next hnext => ?_
      obtain rfl : r = next := by simpa using hnext
      exact hlast last hmem

end Protocols

/-! ## The program of a round -/

/-- What becomes of the answers to both reads. -/
def joined (s : Setup) : Except Fault (Answers s.reads) → Program LiveSaleData
  | .ok (price, state, ()) => .done (.ok (.ofReads price state))
  | .error fault => .done (.error fault)

theorem round_eq (s : Setup) : round s = .ask s.reads (joined s) := by
  change Program.ask _ _ = _
  congr 1
  funext answers
  rcases answers with fault | ⟨price, state, ⟨⟩⟩ <;> rfl

/-- How the end of a round is reported. -/
def outcome : Except Fault LiveSaleData → Report
  | .ok data => .liveData data
  | .error fault => .failed fault.message

/-- How far a round has come at a time, given what it has asked and heard. -/
inductive Reading (s : Setup) (began now : Nat) (asked : List Call) (heard : List Answered) :
    Progress LiveSaleData → Prop where
  | pending (slots : Slots s.reads) (hasked : asked = s.reads) (howed : slots.answers? = none)
      (hheard : heard.Perm slots.got) :
      Reading s began now asked heard (.pending (.waiting s.reads slots (joined s)))
  | finished (result : Except Fault LiveSaleData)
      (hround : s.Has ⟨began, asked, heard, some (now, outcome result)⟩) :
      Reading s began now asked heard (.finished result)

section Reads

variable {σ : Type} {env : Environment σ} {s : Setup} {world next : σ} {began now : Nat}
  {heard new : List Answered} {asked : List Call} {progress : Progress LiveSaleData}

/-- A round succeeds with the answers to both reads. -/
theorem has_of_answers (began now : Nat) {slots : Slots s.reads} (hheard : heard.Perm slots.got)
    {answers : Answers s.reads} (hanswers : slots.answers? = some answers) :
    ∃ data, joined s (.ok answers) = .done (.ok data) ∧
      s.Has ⟨began, s.reads, heard, some (now, .liveData data)⟩ := by
  rw [Slots.got_of_answers hanswers] at hheard
  obtain ⟨price, state, ⟨⟩⟩ := answers
  exact ⟨_, rfl, .succeeded hheard⟩

/-- A round that begins asks both reads, unless the price fails at once. -/
theorem fresh_reading (h : (Job.fresh (round s)).resume env.recorded (world, []) =
      (progress, asked, next, heard)) : Reading s now now asked heard progress := by
  rw [Job.resume, round_eq, Program.run] at h
  rcases hstart : Slots.start env.recorded s.reads (world, []) with
    ⟨fault | slots, asked', world', heard'⟩
  · simp only [hstart, joined, Program.run, List.append_nil, Prod.mk.injEq] at h
    obtain ⟨rfl, rfl, -, rfl⟩ := h
    obtain ⟨before, call, after, good, hreads, rfl, rfl, hgood, hcalls⟩ := Slots.start_error hstart
    refine .finished (.error fault) ?_
    rw [List.nil_append]
    cases before with
    | nil =>
        obtain ⟨rfl, -⟩ := List.cons.inj hreads
        obtain rfl : good = [] := by simpa using hcalls
        exact .refused
    | cons first before =>
        have hasked : first :: before ++ [call] = s.reads := by
          cases before <;> simp_all [Setup.reads]
        have hcall : call ∈ s.reads := by simp [hreads]
        rw [hasked]
        exact .failed hgood hcall
  · obtain ⟨rfl, rfl⟩ := Slots.start_ok hstart
    cases hanswers : slots.answers? with
    | none =>
        simp only [hstart, hanswers, Prod.mk.injEq] at h
        obtain ⟨rfl, rfl, -, rfl⟩ := h
        exact .pending slots rfl hanswers (.refl _)
    | some answers =>
        obtain ⟨data, hjoined, hround⟩ := has_of_answers now now (.refl slots.got) hanswers
        simp only [hstart, hanswers, hjoined, Program.run, List.append_nil, Prod.mk.injEq] at h
        obtain ⟨rfl, rfl, -, rfl⟩ := h
        exact .finished (.ok data) hround

/-- A round that waits asks nothing more. -/
theorem waiting_reading {slots : Slots s.reads} (hheard : heard.Perm slots.got)
    (h : (Job.waiting s.reads slots (joined s)).resume env.recorded (world, []) =
      (progress, asked, next, new)) :
    asked = [] ∧ Reading s began now s.reads (heard ++ new) progress := by
  rw [Job.resume] at h
  rcases hcollect : slots.collect env.recorded (world, []) with ⟨fault | slots', world', heard'⟩
  · simp only [hcollect, joined, Program.run, Prod.mk.injEq] at h
    obtain ⟨rfl, rfl, -, rfl⟩ := h
    obtain ⟨good, call, hcall, rfl, hgood⟩ := Slots.collect_error hcollect
    refine ⟨rfl, .finished (.error fault) ?_⟩
    rw [List.nil_append, ← List.append_assoc]
    refine .failed (fun a ha => ?_) hcall
    rcases List.mem_append.mp ha with ha | ha
    · exact Slots.isGood_of_got a (hheard.mem_iff.mp ha)
    · exact hgood a ha
  · obtain ⟨more, hmore, hperm⟩ := Slots.collect_ok hcollect
    obtain rfl : heard' = more := hmore
    have hall : (heard ++ heard').Perm slots'.got := (hheard.append_right heard').trans hperm
    cases hanswers : slots'.answers? with
    | none =>
        simp only [hcollect, hanswers, Prod.mk.injEq] at h
        obtain ⟨rfl, rfl, -, rfl⟩ := h
        exact ⟨rfl, .pending slots' rfl hanswers hall⟩
    | some answers =>
        obtain ⟨data, hjoined, hround⟩ := has_of_answers began now hall hanswers
        simp only [hcollect, hanswers, hjoined, Program.run, Prod.mk.injEq] at h
        obtain ⟨rfl, rfl, -, rfl⟩ := h
        exact ⟨rfl, .finished (.ok data) hround⟩

end Reads

/-! ## Turns -/

/-- The round with which a feed goes on in its turn, if it does. -/
def goesOn? (now : Nat) (f : LiveFeed) : Option (Job LiveSaleData) :=
  if f.line.isStopped then none
  else match f.stage with
    | .reading job => some job
    | .resting due => if now < due then none else some (.fresh (round f.setup))
    | .ended _ => none

variable {σ : Type} (env : Environment σ)

/-- The answers that a feed gets in its turn. -/
def heard (now : Nat) (f : LiveFeed) (world : σ) : List Answered :=
  (f.turn env.recorded now (world, [])).2.2.2.2

/-- What a turn adds to the record of a feed. -/
def beats (now : Nat) (f : LiveFeed) (world : σ) : List Beat :=
  (f.turn env now world).2.2.1.map (.asked now) ++ (f.heard env now world).map .heard ++
    (f.turn env now world).2.1.map (.sent now)

section

variable {env} {now : Nat} {f : LiveFeed} {world : σ}

theorem turn_of_goesOn {job : Job LiveSaleData} (h : f.goesOn? now = some job) :
    f.line.isStopped = false ∧ ∀ {τ : Type} (env : Environment τ) (world : τ),
      f.turn env now world = f.read env now job world := by
  unfold goesOn? at h
  cases hstopped : f.line.isStopped with
  | true => simp [hstopped] at h
  | false =>
      refine ⟨rfl, fun env world => ?_⟩
      cases hstage : f.stage with
      | reading job' =>
          obtain rfl : job' = job := by simpa [hstopped, hstage] using h
          simp [turn, hstage, hstopped]
      | resting due =>
          have hdue : ¬ now < due ∧ .fresh (round f.setup) = job := by
            simpa [hstopped, hstage] using h
          simp [turn, hstage, hstopped, hdue.1, hdue.2]
      | ended exit => simp [hstopped, hstage] at h

/-- A feed that does not go on stays as it is or ends. -/
theorem turn_of_quiet (h : f.goesOn? now = none) (world : σ) :
    f.beats env now world = [] ∧ ((f.turn env now world).1.stage = f.stage ∨
      ∃ exit, (f.turn env now world).1.stage = .ended exit) := by
  have hgiven (job : Job LiveSaleData) : (job.abandon env.recorded (world, [])).2 = [] := by
    cases job with
    | fresh => rfl
    | waiting calls slots next =>
        exact congrArg Prod.snd (Slots.abandon_recorded env slots world [])
  unfold goesOn? at h
  unfold beats heard turn
  cases hstage : f.stage with
  | reading job =>
      have hstopped : f.line.isStopped = true := by simpa [hstage] using h
      simp [hstopped, hgiven]
  | resting due =>
      cases hstopped : f.line.isStopped with
      | true => simp
      | false =>
          have hearly : now < due := by simpa [hstage, hstopped] using h
          simp [hearly, hstage]
  | ended exit => simp [hstage]

/-- A feed that reads gets the answers that its round gets. -/
theorem read_recorded (now : Nat) (f : LiveFeed) {job : Job LiveSaleData} {next : σ}
    {progress : Progress LiveSaleData} {asked : List Call} {new : List Answered}
    (hjob : job.resume env.recorded (world, []) = (progress, asked, next, new)) :
    job.resume env world = (progress, asked, next) ∧
      (f.read env.recorded now job (world, [])).2.2.2.2 = new := by
  constructor
  · obtain ⟨log, hrecorded⟩ := job.resume_recorded env world []
    obtain ⟨rfl, rfl, rfl, -⟩ := Prod.mk.injEq .. ▸ hjob.symm.trans hrecorded
    rfl
  · rw [read, hjob]
    cases progress with
    | pending => rfl
    | finished result =>
        cases result with
        | error => rfl
        | ok data => cases hpost : f.line.post (.liveData data) <;> simp [hpost]

theorem turn_interval (env : Environment σ) (now : Nat) (f : LiveFeed) (world : σ) :
    (f.turn env now world).1.interval = f.interval := by
  have hread (job : Job LiveSaleData) : (f.read env now job world).1.interval = f.interval := by
    unfold LiveFeed.read
    rcases job.resume env world with ⟨(fault | data) | job, asked, next⟩
    · rfl
    · simp only
      split <;> rfl
    · rfl
  unfold turn
  split
  · rfl
  · split
    · rfl
    · exact hread _
  · split
    · rfl
    · split
      · rfl
      · exact hread _

end

/-! ## What a turn adds -/

/-- Where a feed stands after some rounds. -/
inductive Stands (s : Setup) (interval : Nat) : List Round → Stage → Prop where
  | begins : Stands s interval [] (.reading (.fresh (round s)))
  | reads {earlier : List Round} {began : Nat} {heard : List Answered} (slots : Slots s.reads)
      (hheard : heard.Perm slots.got) :
      Stands s interval (earlier ++ [⟨began, s.reads, heard, none⟩])
        (.reading (.waiting s.reads slots (joined s)))
  | rests {earlier : List Round} {r : Round} {now : Nat} {data : LiveSaleData}
      (hreported : r.reported = some (now, .liveData data)) :
      Stands s interval (earlier ++ [r]) (.resting (now + interval))
  | ended (rounds : List Round) (exit : Exit) : Stands s interval rounds (.ended exit)

/-- The record of a feed falls into rounds, and the feed stands where they have taken it. -/
structure Follows (setup : Setup) (generation interval : Nat) (record : List Beat)
    (f : LiveFeed) : Prop where
  setup_eq : f.setup = setup
  interval_eq : f.interval = interval
  role_eq : f.line.role = .feed
  generation_eq : f.line.generation = generation
  isHeard : f.line.isHeard = true
  inRounds : ∃ rounds, Protocol setup interval rounds ∧ Stands setup interval rounds f.stage ∧
    record = rounds.flatMap (·.beats generation)

section Turns

variable {env} {setup : Setup} {generation interval now : Nat} {record : List Beat} {f : LiveFeed}
  {world : σ}

theorem follows_fresh (setup : Setup) (generation interval : Nat) :
    Follows setup generation interval [] (fresh setup generation interval) where
  setup_eq := rfl
  interval_eq := rfl
  role_eq := rfl
  generation_eq := rfl
  isHeard := rfl
  inRounds := ⟨[], .nil _ _, .begins, rfl⟩

/-- A feed that goes on with a round leaves it waiting or reports it. -/
theorem Follows.read (h : Follows setup generation interval record f)
    (hstopped : f.line.isStopped = false) {job : Job LiveSaleData} {began : Nat}
    {asked : List Call} {heard : List Answered} {progress : Progress LiveSaleData}
    {more : List Call} {next : σ} (hjob : job.resume env world = (progress, more, next))
    (hreading : Reading setup began now asked heard progress) :
    ∃ r : Round, r.began = began ∧ setup.Has r ∧
      (∀ earlier, Stands setup interval (earlier ++ [r]) (f.read env now job world).1.stage) ∧
      (f.read env now job world).2.2.1 = more ∧
      r.beats generation = asked.map (.asked began) ++ heard.map .heard ++
        (f.read env now job world).2.1.map (.sent now) := by
  have hpost (report : Report) : f.line.post report = some ⟨.feed, generation, report⟩ := by
    simp [Line.post, hstopped, h.isHeard, h.role_eq, h.generation_eq]
  cases hreading with
  | pending slots hasked howed hheard =>
      have hread : f.read env now job world =
          ({ f with stage := .reading (.waiting setup.reads slots (joined setup)) }, [], more,
            next) := by
        simp [LiveFeed.read, hjob]
      have hround : setup.Has ⟨began, setup.reads, heard, none⟩ := by
        refine .unfinished (fun a ha => Slots.isGood_of_got a (hheard.mem_iff.mp ha)) ?_
        rw [hheard.length_eq]
        exact Slots.length_got_lt howed
      rw [hread]
      exact ⟨_, rfl, hround, fun _ => .reads slots hheard, rfl, by simp [Round.beats, hasked]⟩
  | finished result hround =>
      refine ⟨_, rfl, hround, ?_⟩
      cases result with
      | ok data =>
          have hread : f.read env now job world =
              ({ f with stage := .resting (now + interval) },
                [⟨.feed, generation, .liveData data⟩], more, next) := by
            simp [LiveFeed.read, hjob, hpost, h.interval_eq]
          rw [hread]
          exact ⟨fun _ => .rests rfl, rfl, by simp [Round.beats, outcome]⟩
      | error fault =>
          have hread : f.read env now job world = ({ f with stage := .ended .failed },
              [⟨.feed, generation, .failed fault.message⟩], more, next) := by
            simp [LiveFeed.read, hjob, hpost]
          rw [hread]
          exact ⟨fun _ => .ended _ _, rfl, by simp [Round.beats, outcome]⟩

/-- A feed that goes on with a round has it at the end of its record. -/
theorem Follows.goOn (h : Follows setup generation interval record f)
    {job : Job LiveSaleData} (hgoesOn : f.goesOn? now = some job)
    {progress : Progress LiveSaleData} {more : List Call} {next : σ} {new : List Answered}
    (hjob : job.resume env.recorded (world, []) = (progress, more, next, new))
    {earlier : List Round} (hearlier : Protocol setup interval earlier) {began : Nat}
    (hallows : ∀ last ∈ earlier.getLast?, last.Allows interval began) {asked : List Call}
    {heard : List Answered} (hreading : Reading setup began now asked heard progress)
    (hrecord : record ++ (more.map (.asked now) ++ new.map .heard) =
      earlier.flatMap (·.beats generation) ++ (asked.map (.asked began) ++ heard.map .heard)) :
    ∃ rounds, Protocol setup interval rounds ∧
      Stands setup interval rounds (f.turn env now world).1.stage ∧
      record ++ f.beats env now world = rounds.flatMap (·.beats generation) := by
  obtain ⟨hstopped, hturn⟩ := turn_of_goesOn hgoesOn
  obtain ⟨hplain, hnew⟩ := read_recorded now f hjob
  obtain ⟨r, hbegan, hround, hstands, hmore, hbeats⟩ := h.read hstopped hplain hreading
  refine ⟨earlier ++ [r], protocol_concat_iff.mpr ⟨hearlier, hround, hbegan ▸ hallows⟩, ?_, ?_⟩
  · rw [hturn]
    exact hstands earlier
  · have hheard : f.heard env now world = new := by rw [LiveFeed.heard, hturn, hnew]
    calc record ++ f.beats env now world
        = record ++ (more.map (.asked now) ++ new.map .heard) ++
            (f.read env now job world).2.1.map (.sent now) := by
          rw [beats, hheard, hturn, hmore, ← List.append_assoc]
      _ = earlier.flatMap (·.beats generation) ++ r.beats generation := by
          rw [hrecord, hbeats, List.append_assoc]
      _ = (earlier ++ [r]).flatMap (·.beats generation) := by simp

theorem Follows.turn (h : Follows setup generation interval record f) (env : Environment σ)
    (now : Nat) (world : σ) :
    Follows setup generation interval (record ++ f.beats env now world)
      (f.turn env now world).1 := by
  have hkeeps := f.turn_keeps env now world
  suffices hrounds : ∃ rounds, Protocol setup interval rounds ∧
      Stands setup interval rounds (f.turn env now world).1.stage ∧
      record ++ f.beats env now world = rounds.flatMap (·.beats generation) from {
    setup_eq := hkeeps.setup_eq.trans h.setup_eq
    interval_eq := (turn_interval env now f world).trans h.interval_eq
    role_eq := by rw [hkeeps.line_eq, h.role_eq]
    generation_eq := by rw [hkeeps.line_eq, h.generation_eq]
    isHeard := by rw [hkeeps.line_eq, h.isHeard]
    inRounds := hrounds }
  obtain ⟨rounds, hprotocol, hstands, hrecord⟩ := h.inRounds
  cases hgoesOn : f.goesOn? now with
  | none =>
      obtain ⟨hsilent, hstage⟩ := turn_of_quiet hgoesOn world
      refine ⟨rounds, hprotocol, ?_, by rw [hsilent, List.append_nil, hrecord]⟩
      rcases hstage with hstage | ⟨exit, hstage⟩
      · rwa [hstage]
      · rw [hstage]
        exact .ended rounds exit
  | some job =>
      rcases hjob : job.resume env.recorded (world, []) with ⟨progress, more, next, new⟩
      have hbegin (hfresh : job = .fresh (round setup))
          (hallows : ∀ last ∈ rounds.getLast?, last.Allows interval now) :=
        h.goOn hgoesOn hjob hprotocol hallows (fresh_reading (hfresh ▸ hjob)) (by rw [hrecord])
      have hstopped := (turn_of_goesOn hgoesOn).1
      generalize hstage : f.stage = stage at hstands
      cases hstands with
      | begins =>
          refine hbegin ?_ (by simp)
          simpa [goesOn?, hstopped, hstage, eq_comm] using hgoesOn
      | @reads earlier began heard slots hheard =>
          obtain rfl : .waiting setup.reads slots (joined setup) = job := by
            simpa [goesOn?, hstopped, hstage] using hgoesOn
          obtain ⟨hearlier, -, hallows⟩ := protocol_concat_iff.mp hprotocol
          obtain ⟨rfl, hreading⟩ := waiting_reading hheard hjob
          exact h.goOn hgoesOn hjob hearlier hallows hreading (by simp [hrecord, Round.beats])
      | @rests earlier r reported data hreported =>
          have hdue : ¬ now < reported + interval ∧ .fresh (round f.setup) = job := by
            simpa [goesOn?, hstopped, hstage] using hgoesOn
          refine hbegin (by rw [← hdue.2, h.setup_eq]) fun last hlast => ?_
          obtain rfl : r = last := by simpa using hlast
          exact ⟨reported, data, hreported, Nat.le_of_not_lt hdue.1⟩
      | ended exit => simp [goesOn?, hstopped, hstage] at hgoesOn

theorem Follows.stop (h : Follows setup generation interval record f) :
    Follows setup generation interval record f.stop :=
  { h with }

end Turns

/-! ## Runs -/

/-- What may happen to a feed that has nobody but a host. -/
inductive Act (σ : Type) where
  | turn
  | wait (milliseconds : Nat)
  | stop
  | change (event : σ → σ)

/-- A feed with its clock and its world. -/
structure Lone (σ : Type) where
  feed : LiveFeed
  clock : Nat
  world : σ

namespace Lone

/-- What comes of an act. -/
def act (l : Lone σ) : Act σ → Lone σ
  | .turn =>
    { l with
      feed := (l.feed.turn env l.clock l.world).1
      world := (l.feed.turn env l.clock l.world).2.2.2 }
  | .wait milliseconds => { l with clock := l.clock + milliseconds }
  | .stop => { l with feed := l.feed.stop }
  | .change event => { l with world := event l.world }

/-- What an act adds to the record. -/
def beats (l : Lone σ) : Act σ → List Beat
  | .turn => l.feed.beats env l.clock l.world
  | _ => []

def run (l : Lone σ) (acts : List (Act σ)) : Lone σ :=
  acts.foldl (act env) l

/-- All that the feed does and hears in a run. -/
def record (l : Lone σ) : List (Act σ) → List Beat
  | [] => []
  | act :: acts => l.beats env act ++ record (l.act env act) acts

variable {env}

theorem record_append (l : Lone σ) (first second : List (Act σ)) :
    l.record env (first ++ second) = l.record env first ++ (l.run env first).record env second := by
  induction first generalizing l with
  | nil => rfl
  | cons act first ih => simp [record, run, ih, List.append_assoc]

theorem follows_act {setup : Setup} {generation interval : Nat} {record : List Beat} {l : Lone σ}
    (h : Follows setup generation interval record l.feed) (act : Act σ) :
    Follows setup generation interval (record ++ l.beats env act) (l.act env act).feed := by
  cases act with
  | turn => exact h.turn env l.clock l.world
  | wait | change => simpa [beats, Lone.act] using h
  | stop => simpa [beats, Lone.act] using h.stop

theorem follows_run {setup : Setup} {generation interval : Nat} {record : List Beat} {l : Lone σ}
    (h : Follows setup generation interval record l.feed) (acts : List (Act σ)) :
    Follows setup generation interval (record ++ l.record env acts) (l.run env acts).feed := by
  induction acts generalizing record l with
  | nil => simpa [Lone.record, run] using h
  | cons act acts ih => simpa [Lone.record, run] using ih (follows_act h act)

/-- A feed that has been stopped does nothing more. -/
theorem record_of_stopped {l : Lone σ} (h : l.feed.line.isStopped = true) (acts : List (Act σ)) :
    l.record env acts = [] := by
  induction acts generalizing l with
  | nil => rfl
  | cons act acts ih =>
      have hquiet : l.beats env act = [] := by
        cases act with
        | turn => exact (turn_of_quiet (by simp [goesOn?, h]) l.world).1
        | wait | stop | change => rfl
      have hstopped : (l.act env act).feed.line.isStopped = true := by
        cases act with
        | turn => exact (congrArg Line.isStopped (l.feed.turn_keeps env _ _).line_eq).trans h
        | stop => rfl
        | wait | change => exact h
      rw [record, hquiet, ih hstopped, List.append_nil]

/-- Whatever is answered and whenever, all that a feed asks, hears and sends falls into rounds that
keep the interval, and it does nothing after it has been stopped. -/
theorem record_inRounds (env : Environment σ) (setup : Setup) (generation interval clock : Nat)
    (world : σ) :
    let l : Lone σ := ⟨.fresh setup generation interval, clock, world⟩
    (∀ acts, ∃ rounds, Protocol setup interval rounds ∧
      l.record env acts = rounds.flatMap (·.beats generation)) ∧
    ∀ before after, l.record env (before ++ .stop :: after) = l.record env before := by
  intro l
  constructor
  · intro acts
    have hfollows : Follows setup generation interval ([] ++ l.record env acts)
        (l.run env acts).feed := follows_run (follows_fresh setup generation interval) acts
    obtain ⟨rounds, hprotocol, -, hrecord⟩ := hfollows.inRounds
    exact ⟨rounds, hprotocol, hrecord⟩
  · intro before after
    have hstopped : ((l.run env before).act env .stop).feed.line.isStopped = true := rfl
    rw [record_append, record, record_of_stopped hstopped, List.append_nil]
    exact List.append_nil _

/-- A feed with an interval of ten milliseconds sends at once and after each of them, until it is
stopped while it waits. -/
example (setup : Setup) :
    let prompt : Environment Unit := {
      account := fun _ _ => none
      ask := fun call _ => (.now (match call with
        | .priceInfo .. => .ok ⟨true, .ofUInt64 100⟩
        | .projectState .. => .ok ⟨10, 100, true, false, none⟩
        | _ => .error .transport), ())
      collect := fun _ _ _ => (none, ())
      abandon := fun _ _ => () }
    let l : Lone Unit := ⟨.fresh setup 1 10, 0, ()⟩
    (l.record prompt
        [.turn, .wait 9, .turn, .wait 1, .turn, .wait 5, .stop, .wait 5, .turn]).filterMap
      (fun | .sent now _ => some now | _ => none) = [0, 10] := by
  cbv

end Lone

end MintSale.LiveFeed
