import MintSale.Sale.Context

/-!
# Settling

The phase of a sale follows from its context. A decision is one step from a phase, with what there
is to do on the way; settling repeats it until the phase stays.
-/

namespace MintSale.Sale

/-- Something to do when a sale settles. Starting what already runs changes nothing. -/
inductive Action where
  | startFeed
  | stopFeed
  | startCheckout
  | stopCheckout
  | recordIneligibility (reason : String)
  deriving DecidableEq

/-- A phase to be in, and what to do to get there. -/
structure Decision where
  phase : Phase
  actions : List Action
  deriving DecidableEq

namespace Context

/-- Why the project cannot be sold: the recorded reason, or what its minter says. -/
def objection (ctx : Context) : Option String :=
  match ctx.ineligibleReason, ctx.project with
  | some reason, _ => some reason
  | none, some project => project.objection
  | none, none => some "Project metadata is unavailable"

/-- Whether the sale can go on: nothing speaks against it, the chain is there and the wallet may
buy. -/
def isReady (accounts : Accounts) (now : Timestamp) (ctx : Context) : Bool :=
  ctx.error.isNone && ctx.ineligibleReason.isNone && ctx.chain.isSome &&
    ctx.isPurchasable accounts now

/-- Whether the project is complete, as far as known. -/
def isComplete (ctx : Context) : Bool :=
  ctx.project.any fun project => project.isComplete ctx.live

end Context

variable (accounts : Accounts) (now : Timestamp)

/-- What a sale that is ready does. It keeps reading, for the price may change. -/
def readyActions : List Action := [.startFeed, .startCheckout]

/-- What a sale that is over does. -/
def stopActions : List Action := [.stopFeed, .stopCheckout]

/-- One step from the phase in which a sale waits. -/
def decideIdle (ctx : Context) : Decision :=
  if ctx.error.isSome then ⟨.error, stopActions⟩
  else match ctx.objection with
    | some reason =>
      ⟨.ineligible, stopActions ++
        if ctx.ineligibleReason.isNone then [.recordIneligibility reason] else []⟩
    | none =>
      if ctx.isComplete then ⟨.complete, stopActions⟩
      else if ctx.isReady accounts now then ⟨.readyForSale, readyActions⟩
      else if ctx.chain.isNone then ⟨.idle, [.stopFeed]⟩
      else ⟨.idle, [.startFeed]⟩

/-- One step from a phase. -/
def decide (phase : Phase) (ctx : Context) : Decision :=
  match phase with
  | .idle => decideIdle accounts now ctx
  | .readyForSale =>
    if ctx.isReady accounts now then ⟨.readyForSale, readyActions⟩
    else ⟨.idle, [.stopCheckout]⟩
  | phase => ⟨phase, []⟩

/-- Decides until the phase stays, but at most a number of times. -/
def settleWithin : (steps : Nat) → Phase → Context → Decision
  | 0, phase, _ => ⟨phase, []⟩
  | steps + 1, phase, ctx =>
    let step := decide accounts now phase ctx
    if step.phase = phase then step
    else
      let rest := settleWithin steps step.phase ctx
      ⟨rest.phase, step.actions ++ rest.actions⟩

/-- More steps than settling ever takes. -/
def maxSteps : Nat := 8

/-- The phase that a context leads to, and what to do on the way. -/
def settle (phase : Phase) (ctx : Context) : Decision :=
  settleWithin accounts now maxSteps phase ctx

end MintSale.Sale
