import MintSale.Proofs.Checkout.Scenes

/-!
# Resets

A checkout that has taken a reset goes on just as a new one would in its place: whatever it has been
through, nothing of that is left but what it has reported last. To say so, a turn is cut where the
reset is taken, and what is left of it is a turn with less room.
-/

namespace MintSale

/-! ## Other numbers -/

/-- The same line under the number of another checkout. -/
def Line.relabel (generation : Nat) (line : Line) : Line :=
  { line with role := .checkout, generation := generation }

/-- The same report by another checkout. -/
def Message.relabel (generation : Nat) (m : Message) : Message :=
  ⟨.checkout, generation, m.report⟩

theorem Line.post_relabel (generation : Nat) (line : Line) (report : Report) :
    ((line.relabel generation).post report).toList =
      (line.post report).toList.map (Message.relabel generation) := by
  unfold post relabel
  split <;> rfl

namespace Checkout

variable {σ : Type} (env : Environment σ) (price : Option Amount) (generation : Nat)

/-- The same checkout under another number. -/
def relabel (c : Checkout) : Checkout :=
  { c with line := c.line.relabel generation }

/-! ## Turns with less room -/

/-- The end of a turn, once the commands that fit into it have been taken. -/
def endTurn (isFull : Bool) (c : Checkout) (world : σ) :
    Checkout × List Message × List Call × σ :=
  if isFull then ({ c with work := c.workNow env price world }, [], [], world)
  else if c.isClosed then ({ c with hasEnded := true, work := none }, [], [], c.drop env world)
  else
    let (c, worked, asked, world) := c.advance env price world
    (c.publish.1, worked ++ c.publish.2, asked, world)

/-- A turn with room for so many commands. -/
def turnWithin (room : Nat) (c : Checkout) (world : σ) :
    Checkout × List Message × List Call × σ :=
  let (d, taken, world) :=
    takeAll env (c.commands.take room) { c.publish.1 with commands := c.commands.drop room } world
  let (d, worked, asked, world) := d.endTurn env price (room ≤ c.commands.length) world
  (d, c.publish.2 ++ taken ++ worked, asked, world)

theorem turn_eq_turnWithin {c : Checkout} (hended : c.hasEnded = false)
    (hstopped : c.line.isStopped = false) (world : σ) :
    c.turn env price world = c.turnWithin env price turnLimit world := by
  unfold turn turnWithin endTurn overruns
  simp only [hended, hstopped, publish_commands]
  by_cases hfull : turnLimit ≤ c.commands.length
  · simp [hfull]
  by_cases hclosed : (takeAll env (c.commands.take turnLimit)
      { c.publish.1 with commands := c.commands.drop turnLimit } world).1.isClosed
  · simp [hfull, hclosed]
  · simp [hfull, hclosed]

variable {generation} {c : Checkout}

theorem take_with_commands (c : Checkout) (command : Command) (commands : List Command)
    (world : σ) : { c with commands := commands }.take env command world =
      ({ (c.take env command world).1 with commands := commands },
        (c.take env command world).2) := by
  cases command with
  | reset => rfl
  | purchase request =>
      simp only [take]
      split
      · split <;> rfl
      · rfl

theorem publish_with_commands (c : Checkout) (commands : List Command) :
    { c with commands := commands }.publish =
      ({ c.publish.1 with commands := commands }, c.publish.2) := by
  unfold publish
  dsimp only
  split <;> rfl

theorem takeAll_with_commands (taken : List Command) (c : Checkout) (commands : List Command)
    (world : σ) : takeAll env taken { c with commands := commands } world =
      ({ (takeAll env taken c world).1 with commands := commands },
        (takeAll env taken c world).2) := by
  induction taken generalizing c world with
  | nil => rfl
  | cons command taken ih =>
      simp only [takeAll, take_with_commands, publish_with_commands, ih]

theorem takeAll_append (first second : List Command) (c : Checkout) (world : σ) :
    takeAll env (first ++ second) c world =
      let (d, taken, between) := takeAll env first c world
      let (e, rest, last) := takeAll env second d between
      (e, taken ++ rest, last) := by
  induction first generalizing c world with
  | nil => rfl
  | cons command first ih => simp only [List.cons_append, takeAll, ih, List.append_assoc]

/-! ## Between commands -/

/-- The state is the one last reported. -/
def IsReported (c : Checkout) : Prop :=
  c.reported = some c.state

theorem isReported_publish (c : Checkout) : c.publish.1.IsReported := by
  rw [publish_eq]
  rfl

theorem IsReported.publish_eq (h : c.IsReported) : c.publish = (c, []) :=
  if_pos h

theorem IsReported.takeAll (h : c.IsReported) (commands : List Command) (world : σ) :
    (takeAll env commands c world).1.IsReported := by
  induction commands generalizing c world with
  | nil => exact h
  | cons command commands ih => exact ih (isReported_publish _) _

/-- What taking commands does not touch. -/
structure Keeping (c d : Checkout) : Prop where
  setup_eq : d.setup = c.setup
  line_eq : d.line = c.line
  isClosed_eq : d.isClosed = c.isClosed
  hasEnded_eq : d.hasEnded = c.hasEnded
  commands_eq : d.commands = c.commands

theorem Keeping.trans {c d e : Checkout} (h : Keeping c d) (h' : Keeping d e) : Keeping c e :=
  ⟨h'.setup_eq.trans h.setup_eq, h'.line_eq.trans h.line_eq, h'.isClosed_eq.trans h.isClosed_eq,
    h'.hasEnded_eq.trans h.hasEnded_eq, h'.commands_eq.trans h.commands_eq⟩

theorem keeping_publish (c : Checkout) : Keeping c c.publish.1 := by
  rw [publish_eq]
  exact ⟨rfl, rfl, rfl, rfl, rfl⟩

theorem keeping_take (c : Checkout) (command : Command) (world : σ) :
    Keeping c (c.take env command world).1 := by
  cases command with
  | reset => exact ⟨rfl, rfl, rfl, rfl, rfl⟩
  | purchase request =>
      rw [take]
      split
      · split <;> exact ⟨rfl, rfl, rfl, rfl, rfl⟩
      · exact ⟨rfl, rfl, rfl, rfl, rfl⟩

theorem keeping_takeAll (commands : List Command) (c : Checkout) (world : σ) :
    Keeping c (takeAll env commands c world).1 := by
  induction commands generalizing c world with
  | nil => exact ⟨rfl, rfl, rfl, rfl, rfl⟩
  | cons command commands ih =>
      exact (keeping_take env c command world).trans ((keeping_publish _).trans (ih _ _))

/-! ## Turns that are cut -/

/-- A turn can be cut behind any command that it takes. What is left of it is a turn with less
room. -/
theorem turnWithin_append {before later : List Command} {room : Nat}
    (hcommands : c.commands = before ++ later) (hroom : before.length ≤ room) (world : σ) :
    c.turnWithin env price room world =
      let (d, taken, between) :=
        takeAll env before { c.publish.1 with commands := later } world
      let (e, rest, asked, last) := d.turnWithin env price (room - before.length) between
      (e, c.publish.2 ++ taken ++ rest, asked, last) := by
  have htake : (before ++ later).take room = before ++ later.take (room - before.length) := by
    rw [List.take_append, List.take_of_length_le hroom]
  have hdrop : (before ++ later).drop room = later.drop (room - before.length) := by
    rw [List.drop_append, List.drop_eq_nil_of_le hroom, List.nil_append]
  have hfull : (room ≤ (before ++ later).length) = (room - before.length ≤ later.length) := by
    rw [List.length_append]
    exact propext (by omega)
  have hreported := (isReported_publish c).takeAll env before world
  simp only [turnWithin, hcommands, htake, hdrop, hfull, takeAll_append, takeAll_with_commands]
  generalize takeAll env before c.publish.1 world = t at hreported ⊢
  obtain ⟨d, taken, between⟩ := t
  have hpublish : ({ d with commands := later } : Checkout).publish =
      ({ d with commands := later }, []) := IsReported.publish_eq hreported
  simp only [hpublish, takeAll_with_commands, List.nil_append, List.append_assoc]

/-- A turn begins with a report, if there is something to report. -/
theorem turnWithin_publish (room : Nat) (c : Checkout) (world : σ) :
    c.turnWithin env price room world =
      ((c.publish.1.turnWithin env price room world).1,
        c.publish.2 ++ (c.publish.1.turnWithin env price room world).2.1,
        (c.publish.1.turnWithin env price room world).2.2) := by
  have hsame : ({ c.publish.1 with commands := c.commands } : Checkout) = c.publish.1 := by
    rw [publish_eq]
  have hcommands : c.commands = [] ++ c.commands := rfl
  rw [turnWithin_append env price hcommands (Nat.zero_le room), hsame]
  simp [takeAll]

/-- The checkout after a reset. -/
def restarted (c : Checkout) : Checkout :=
  { c with state := .initial, work := none }

theorem take_reset (c : Checkout) (world : σ) :
    c.take env .reset world = (c.restarted, c.drop env world) :=
  rfl

/-- A turn can be cut where it takes a reset. -/
theorem turnWithin_reset {before later : List Command} {room : Nat}
    (hcommands : c.commands = before ++ .reset :: later) (hroom : before.length < room)
    (world : σ) :
    c.turnWithin env price room world =
      let (d, taken, between) :=
        takeAll env before { c.publish.1 with commands := later } world
      let (e, rest, asked, last) := d.restarted.turnWithin env price
        (room - (before.length + 1)) (d.drop env between)
      (e, c.publish.2 ++ taken ++ rest, asked, last) := by
  have hroom' : room - before.length - 1 = room - (before.length + 1) := Nat.sub_sub _ _ _
  have hnext : Command.reset :: later = [.reset] ++ later := rfl
  have hone : [Command.reset].length ≤ room - before.length := by
    rw [List.length_singleton]
    omega
  rw [turnWithin_append env price hcommands (Nat.le_of_lt hroom)]
  simp only [takeAll_with_commands]
  have hreported := (isReported_publish c).takeAll env before world
  generalize takeAll env before c.publish.1 world = t at hreported ⊢
  obtain ⟨d, taken, between⟩ := t
  have hpublish : ({ d with commands := .reset :: later } : Checkout).publish =
      ({ d with commands := .reset :: later }, []) := IsReported.publish_eq hreported
  have hrest := turnWithin_publish env price (room - (before.length + 1))
    ({ d with commands := later } : Checkout).restarted (d.drop env between)
  have hdrop : ({ d with commands := later } : Checkout).drop env between = d.drop env between :=
    rfl
  dsimp only
  rw [turnWithin_append env price hnext hone, hpublish]
  simp only [takeAll, take_reset, hdrop, hrest, List.length_singleton, hroom', List.nil_append,
    List.append_nil, List.append_assoc]

/-- With room for all commands that wait, it does not matter how much there is. -/
theorem turnWithin_eq {room room' : Nat} (h : c.commands.length < room)
    (h' : c.commands.length < room') (world : σ) :
    c.turnWithin env price room world = c.turnWithin env price room' world := by
  have hle := Nat.le_of_lt h
  have hle' := Nat.le_of_lt h'
  simp [turnWithin, List.take_of_length_le hle, List.drop_eq_nil_of_le hle,
    List.take_of_length_le hle', List.drop_eq_nil_of_le hle', Nat.not_le.mpr h, Nat.not_le.mpr h']

/-! ## The same under another number -/

theorem publish_relabel (c : Checkout) :
    (c.relabel generation).publish =
      (c.publish.1.relabel generation, c.publish.2.map (Message.relabel generation)) := by
  unfold publish
  by_cases h : c.reported = some c.state
  · simp [relabel, h]
  · simp [relabel, h, Line.post_relabel]

theorem take_relabel (c : Checkout) (command : Command) (world : σ) :
    (c.relabel generation).take env command world =
      ((c.take env command world).1.relabel generation, (c.take env command world).2) := by
  cases command with
  | reset => rfl
  | purchase request =>
      have hstate : (c.relabel generation).state = c.state := rfl
      have hsetup : (c.relabel generation).setup = c.setup := rfl
      rw [take, take, hstate, hsetup]
      by_cases hphase : c.state.phase = .readyForPurchase
      · simp only [if_pos hphase]
        cases env.account world c.setup.wallet <;> rfl
      · simp only [if_neg hphase]

theorem takeAll_relabel (commands : List Command) (c : Checkout) (world : σ) :
    takeAll env commands (c.relabel generation) world =
      ((takeAll env commands c world).1.relabel generation,
        (takeAll env commands c world).2.1.map (Message.relabel generation),
        (takeAll env commands c world).2.2) := by
  induction commands generalizing c world with
  | nil => rfl
  | cons command commands ih =>
      simp only [takeAll, take_relabel, publish_relabel, ih, List.map_append]

theorem checked_relabel (c : Checkout) (result : Except Fault Eligibility) :
    (c.relabel generation).checked result =
      ((c.checked result).1.relabel generation,
        (c.checked result).2.map (Message.relabel generation)) := by
  rcases result with fault | eligibility
  · simp [checked, relabel, Line.post_relabel]
  · cases eligibility <;> rfl

theorem submitted_relabel (c : Checkout) (account : Option Address) (result : Except Fault Hash) :
    (c.relabel generation).submitted account result =
      ((c.submitted account result).1.relabel generation,
        (c.submitted account result).2.map (Message.relabel generation)) := by
  rcases result with fault | txHash
  · cases fault <;> simp [submitted, relabel, Line.post_relabel]
  · simp [submitted, relabel, Line.post_relabel]

theorem advance_relabel (c : Checkout) (world : σ) :
    (c.relabel generation).advance env price world =
      ((c.advance env price world).1.relabel generation,
        (c.advance env price world).2.1.map (Message.relabel generation),
        (c.advance env price world).2.2) := by
  have hnow : (c.relabel generation).workNow env price world = c.workNow env price world := rfl
  unfold advance
  rw [hnow]
  cases c.workNow env price world with
  | none => rfl
  | some work =>
      cases work with
      | check job =>
          rcases hjob : job.resume env world with ⟨result | next, asked, world'⟩
          · simp [hjob, checked_relabel]
          · simp [hjob, relabel]
      | submission job =>
          rcases hjob : job.resume env world with ⟨result | next, asked, world'⟩
          · have hsetup : (c.relabel generation).setup = c.setup := rfl
            simp [hjob, submitted_relabel, hsetup]
          · simp [hjob, relabel]

theorem endTurn_relabel (isFull : Bool) (c : Checkout) (world : σ) :
    (c.relabel generation).endTurn env price isFull world =
      ((c.endTurn env price isFull world).1.relabel generation,
        (c.endTurn env price isFull world).2.1.map (Message.relabel generation),
        (c.endTurn env price isFull world).2.2) := by
  unfold endTurn
  cases isFull with
  | true => rfl
  | false =>
      cases hclosed : c.isClosed with
      | true =>
          have hsame : (c.relabel generation).isClosed = true := hclosed
          simp only [hsame]
          rfl
      | false =>
          have hsame : (c.relabel generation).isClosed = false := hclosed
          simp [hsame, advance_relabel, publish_relabel]

theorem turnWithin_relabel (room : Nat) (c : Checkout) (world : σ) :
    (c.relabel generation).turnWithin env price room world =
      ((c.turnWithin env price room world).1.relabel generation,
        (c.turnWithin env price room world).2.1.map (Message.relabel generation),
        (c.turnWithin env price room world).2.2) := by
  have hready : ({ c.publish.1.relabel generation with commands := c.commands.drop room } :
      Checkout) = ({ c.publish.1 with commands := c.commands.drop room } : Checkout).relabel
        generation := rfl
  have hcommands : (c.relabel generation).commands = c.commands := rfl
  simp only [turnWithin, publish_relabel, hcommands, hready, takeAll_relabel, endTurn_relabel,
    List.map_append]

theorem turn_relabel (c : Checkout) (world : σ) :
    (c.relabel generation).turn env price world =
      ((c.turn env price world).1.relabel generation,
        (c.turn env price world).2.1.map (Message.relabel generation),
        (c.turn env price world).2.2) := by
  cases hended : c.hasEnded with
  | true =>
      have hsame : (c.relabel generation).hasEnded = true := hended
      simp [turn, hended, hsame]
  | false =>
      have hsame : (c.relabel generation).hasEnded = false := hended
      cases hstopped : c.line.isStopped with
      | true =>
          have hline : (c.relabel generation).line.isStopped = true := hstopped
          simp only [turn, hended, hsame, hstopped, hline]
          rfl
      | false =>
          have hline : (c.relabel generation).line.isStopped = false := hstopped
          rw [turn_eq_turnWithin env price hsame hline,
            turn_eq_turnWithin env price hended hstopped, turnWithin_relabel]

/-! ## What a checkout does from then on -/

/-- What arrives of the reports and what is asked when something happens. -/
def told (env : Environment σ) (c : Checkout) (world : σ) : Act σ → List Message × List Call
  | .turn price => ((c.turn env price world).2.1, (c.turn env price world).2.2.1)
  | _ => ([], [])

/-- The same, one after the other, and what there is in the end. -/
def conduct (env : Environment σ) (c : Checkout) (world : σ) :
    List (Act σ) → List (List Message × List Call) × Checkout × σ
  | [] => ([], c, world)
  | act :: acts =>
    let (d, next) := c.act env world act
    let (rest, last) := conduct env d next acts
    (c.told env world act :: rest, last)

theorem conduct_relabel (c : Checkout) (world : σ) (acts : List (Act σ)) :
    (c.relabel generation).conduct env world acts =
      ((c.conduct env world acts).1.map (Prod.map (List.map (Message.relabel generation)) id),
        (c.conduct env world acts).2.1.relabel generation,
        (c.conduct env world acts).2.2) := by
  induction acts generalizing c world with
  | nil => rfl
  | cons act acts ih =>
      have hact : (c.relabel generation).act env world act =
          ((c.act env world act).1.relabel generation, (c.act env world act).2) := by
        cases act with
        | turn price => rw [Checkout.act, turn_relabel, Checkout.act]
        | tell | close | stop | hangUp | change => rfl
      have htold : (c.relabel generation).told env world act =
          Prod.map (List.map (Message.relabel generation)) id (c.told env world act) := by
        cases act with
        | turn price => rw [told, turn_relabel, told, Prod.map]; rfl
        | tell | close | stop | hangUp | change => rfl
      simp only [conduct, hact, htold, ih, List.map_cons]

/-- A new checkout in the place of this one: it works with the same, has the same commands before
it, and as many or as few at the other ends. -/
def successor (generation : Nat) (c : Checkout) : Checkout :=
  { fresh c.setup generation with
    line := { Line.fresh .checkout generation with isHeard := c.line.isHeard }
    commands := c.commands
    isClosed := c.isClosed }

/-- Once the new checkout has reported its state, it is all that is left of the other one. -/
theorem publish_successor (hended : c.hasEnded = false) (hstopped : c.line.isStopped = false) :
    (c.successor generation).publish.1 = c.restarted.publish.1.relabel generation := by
  rw [publish_eq, publish_eq]
  simp [successor, fresh, restarted, relabel, Line.relabel, Line.fresh, hended, hstopped]

theorem publish_fresh_messages (c : Checkout) :
    (c.successor generation).publish.2 =
      ((c.successor generation).line.post (.purchaseState .initial)).toList :=
  rfl

theorem publish_restarted_messages (c : Checkout) :
    c.restarted.publish.2 = if c.reported = some .initial then []
      else (c.line.post (.purchaseState .initial)).toList := by
  unfold publish restarted
  split <;> rfl

/-- A checkout that takes a reset, whatever it has been through and is busy with, goes on from there
as a new one in its place does with the same room in its first turn: it asks the same, reports the
same under its own number, and leaves the same world behind, for all that may happen later. Only the
opening report is left out if the checkout has made it last. -/
theorem turn_reset {before later : List Command} (hended : c.hasEnded = false)
    (hstopped : c.line.isStopped = false) (hcommands : c.commands = before ++ .reset :: later)
    (hbefore : before.length < turnLimit) (env : Environment σ) (price : Option Amount) (world : σ)
    (generation : Nat) :
    ∃ (d e : Checkout) (past rest : List Message) (asked : List Call) (between last : σ),
      takeAll env before { c.publish.1 with commands := later } world = (d, past, between) ∧
      (d.take env .reset between).1.state = .initial ∧ (d.take env .reset between).1.work = none ∧
      c.turn env price world = (e, c.publish.2 ++ past ++
        ((if d.reported = some .initial then []
          else (d.line.post (.purchaseState .initial)).toList) ++ rest), asked, last) ∧
      (d.successor generation).turnWithin env price (turnLimit - (before.length + 1))
          (d.drop env between) =
        (e.relabel generation,
          ((d.successor generation).line.post (.purchaseState .initial)).toList ++
            rest.map (Message.relabel generation), asked, last) ∧
      (c.overruns = false →
        (d.successor generation).turn env price (d.drop env between) =
          (d.successor generation).turnWithin env price (turnLimit - (before.length + 1))
            (d.drop env between)) ∧
      ∀ acts, (e.relabel generation).conduct env last acts =
        ((e.conduct env last acts).1.map (Prod.map (List.map (Message.relabel generation)) id),
          (e.conduct env last acts).2.1.relabel generation, (e.conduct env last acts).2.2) := by
  have hkeeping := keeping_takeAll env before { c.publish.1 with commands := later } world
  have hcut := turnWithin_reset env price hcommands hbefore world
  generalize takeAll env before { c.publish.1 with commands := later } world = t at hkeeping hcut ⊢
  obtain ⟨d, past, between⟩ := t
  have hcommands' : d.commands = later := hkeeping.commands_eq
  have hended' : d.hasEnded = false :=
    hkeeping.hasEnded_eq.trans ((keeping_publish c).hasEnded_eq.trans hended)
  have hline : d.line = c.line := hkeeping.line_eq.trans (keeping_publish c).line_eq
  have hstopped' : d.line.isStopped = false := by rw [hline, hstopped]
  -- Both go on from the restarted checkout once it has reported: the new one under its own number.
  have hnew := turnWithin_publish env price
    (turnLimit - (before.length + 1)) (d.successor generation) (d.drop env between)
  rw [publish_successor hended' hstopped', turnWithin_relabel, publish_fresh_messages] at hnew
  have hold := turnWithin_publish env price
    (turnLimit - (before.length + 1)) d.restarted (d.drop env between)
  rw [publish_restarted_messages] at hold
  generalize d.restarted.publish.1.turnWithin env price (turnLimit - (before.length + 1))
    (d.drop env between) = r at hnew hold
  obtain ⟨e, rest, asked, last⟩ := r
  refine ⟨d, e, past, rest, asked, between, last, rfl, rfl, rfl, ?_, hnew, ?_,
    fun acts => conduct_relabel env e last acts⟩
  · rw [turn_eq_turnWithin env price hended hstopped, hcut]
    simp only [hold]
  · intro hroom
    have hlength : before.length + (later.length + 1) < turnLimit := by
      have hfits := of_decide_eq_false hroom
      rw [hcommands, List.length_append, List.length_cons] at hfits
      omega
    have hlater : (d.successor generation).commands.length = later.length :=
      congrArg List.length hcommands'
    rw [turn_eq_turnWithin env price rfl rfl]
    exact turnWithin_eq env price (by omega) (by omega) _

namespace Sample

/-- A sale to those on a list. -/
def listed : Setup where
  project := {
    id := "proj-1"
    index := 1
    core := .replicate 20 0xaa
    artist := .replicate 20 0xa1
    name := "Fidenza"
    complete := false
    startTime := none
    endTime := none
    currency := .native
    minter := some ⟨.replicate 20 0xbb, "MinterSetPriceMerkleV5", none, []⟩ }
  kind := .merkle
  chain := ⟨"chain"⟩
  wallet := ⟨"wallet"⟩

/-- Collaborators that owe every answer. Their world is the tickets that have been given back. -/
def owing : Environment (List Ticket) where
  account _ _ := some (.replicate 20 1)
  ask _ world := (.later world.length, world)
  collect _ _ world := (none, world)
  abandon ticket world := world ++ [ticket]

/-- A checkout that waits for the list when a reset comes. -/
def waiting : Checkout :=
  { ((fresh listed 0).turn owing none []).1 with commands := [.reset] }

end Sample

/-- A checkout that waits for the list gives its ticket back and asks again, as a new one does. -/
theorem turn_reset_waiting :
    (Sample.waiting.turn Sample.owing none []).2.2 = ([.allowlist Sample.listed.project], [0]) ∧
      ((({ Sample.waiting with commands := [] } : Checkout).successor 1).turn Sample.owing none
        [0]).2.2 = ([.allowlist Sample.listed.project], [0]) := by
  have hasks : (Sample.waiting.turn Sample.owing none []).2.2 =
      ([.allowlist Sample.listed.project], [0]) := rfl
  have hcommands : Sample.waiting.commands = [] ++ .reset :: [] := rfl
  refine ⟨hasks, ?_⟩
  obtain ⟨d, e, past, rest, asked, between, last, htaken, -, -, hturn, hnew, hroom, -⟩ :=
    turn_reset rfl rfl hcommands (by decide) Sample.owing none [] 1
  cases htaken
  have hsame : (asked, last) = ([.allowlist Sample.listed.project], [0]) := by
    rw [← hasks, hturn]
  exact (congrArg (·.2.2) ((hroom rfl).trans hnew)).trans hsame

end Checkout

end MintSale
