import MintSale.Collaborator.Program

/-!
# Jobs

A program under way. A collaborator answers a call at once or gives a ticket for the answer, which
is collected later. The calls of a group are asked in order, and none behind one that fails at once.
-/

namespace MintSale

/-- What a collaborator hands out for an answer that it owes. -/
abbrev Ticket := Nat

/-- What a collaborator says to a call. -/
inductive Reply (α : Type) where
  | now (result : Except Fault α)
  | later (ticket : Ticket)

/-- All collaborators together, as functions of the state `σ` that they are in. -/
structure Environment (σ : Type) where
  /-- The account that a wallet exposes. -/
  account : σ → WalletClient → Option Address
  ask : (call : Call) → σ → Reply call.Answer × σ
  /-- The answer for a ticket, once there is one. -/
  collect : Ticket → (call : Call) → σ → Option (Except Fault call.Answer) × σ
  /-- Nobody will collect the answer. -/
  abandon : Ticket → σ → σ

/-! ## Groups of calls -/

/-- How far a call of a group is. -/
inductive Slot (call : Call) where
  | answered (answer : call.Answer)
  | owed (ticket : Ticket)

/-- How far the calls of a group are. -/
def Slots : List Call → Type
  | [] => Unit
  | call :: calls => Slot call × Slots calls

namespace Slots

/-- The tickets of the answers that are owed. -/
def tickets : {calls : List Call} → Slots calls → List Ticket
  | [], _ => []
  | _ :: _, (.answered _, rest) => rest.tickets
  | _ :: _, (.owed ticket, rest) => ticket :: rest.tickets

/-- The answers, once none is owed. -/
def answers? : {calls : List Call} → Slots calls → Option (Answers calls)
  | [], _ => some ()
  | _ :: _, (.answered answer, rest) => rest.answers?.map (answer, ·)
  | _ :: _, (.owed _, _) => none

variable {σ : Type} (env : Environment σ)

/-- Asks the calls of a group in order. The result also tells which calls were asked. -/
def start : (calls : List Call) → σ → Except Fault (Slots calls) × List Call × σ
  | [], world => (.ok (), [], world)
  | call :: calls, world =>
    match env.ask call world with
    | (.now (.error fault), world) => (.error fault, [call], world)
    | (.now (.ok answer), world) =>
      let (rest, asked, world) := start calls world
      (rest.map (Slot.answered answer, ·), call :: asked, world)
    | (.later ticket, world) =>
      let (rest, asked, world) := start calls world
      match rest with
      | .ok slots => (.ok (.owed ticket, slots), call :: asked, world)
      | .error fault => (.error fault, call :: asked, env.abandon ticket world)

/-- Abandons all answers that are owed. -/
def abandon {calls : List Call} (slots : Slots calls) (world : σ) : σ :=
  slots.tickets.foldl (fun world ticket => env.abandon ticket world) world

/-- Collects the answers that are there. -/
def collect : {calls : List Call} → Slots calls → σ → Except Fault (Slots calls) × σ
  | [], _, world => (.ok (), world)
  | _ :: _, (.answered answer, rest), world =>
    let (rest, world) := collect rest world
    (rest.map (Slot.answered answer, ·), world)
  | call :: _, (.owed ticket, rest), world =>
    match env.collect ticket call world with
    | (some (.error fault), world) => (.error fault, rest.abandon env world)
    | (some (.ok answer), world) =>
      let (rest, world) := collect rest world
      (rest.map (Slot.answered answer, ·), world)
    | (none, world) =>
      match collect rest world with
      | (.ok slots, world) => (.ok (.owed ticket, slots), world)
      | (.error fault, world) => (.error fault, env.abandon ticket world)

end Slots

/-! ## Jobs -/

/-- A program before its first call or with a group of calls under way. -/
inductive Job (α : Type) where
  | fresh (program : Program α)
  | waiting (calls : List Call) (slots : Slots calls)
      (next : Except Fault (Answers calls) → Program α)

/-- How far a job has come. -/
inductive Progress (α : Type) where
  | finished (result : Except Fault α)
  | pending (job : Job α)

/-- A program and how far it goes without waiting: also the calls that it asks. -/
def Program.run {α σ : Type} (env : Environment σ) :
    Program α → σ → Progress α × List Call × σ
  | .done result, world => (.finished result, [], world)
  | .ask calls next, world =>
    match Slots.start env calls world with
    | (.error fault, asked, world) =>
      let (progress, more, world) := (next (.error fault)).run env world
      (progress, asked ++ more, world)
    | (.ok slots, asked, world) =>
      match slots.answers? with
      | some answers =>
        let (progress, more, world) := (next (.ok answers)).run env world
        (progress, asked ++ more, world)
      | none => (.pending (.waiting calls slots next), asked, world)

namespace Job

variable {α σ : Type} (env : Environment σ)

/-- The tickets that the job waits for. -/
def tickets : Job α → List Ticket
  | .fresh _ => []
  | .waiting _ slots _ => slots.tickets

/-- Goes on as far as possible without waiting. -/
def resume : Job α → σ → Progress α × List Call × σ
  | .fresh program, world => program.run env world
  | .waiting calls slots next, world =>
    match slots.collect env world with
    | (.error fault, world) => (next (.error fault)).run env world
    | (.ok slots, world) =>
      match slots.answers? with
      | some answers => (next (.ok answers)).run env world
      | none => (.pending (.waiting calls slots next), [], world)

/-- Gives the job up. -/
def abandon : Job α → σ → σ
  | .fresh _, world => world
  | .waiting _ slots _, world => slots.abandon env world

end Job

end MintSale
