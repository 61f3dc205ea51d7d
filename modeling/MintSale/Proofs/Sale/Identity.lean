import MintSale.Proofs.Sale.Phases

/-!
# The project of a sale

A sale has no project until the way to it has ended, and never another one after that.
-/

namespace MintSale.Sale

/-- What tells which project is for sale. -/
def Context.identity (ctx : Context) : Option String × Option Project :=
  (ctx.projectId, ctx.project)

namespace Director

variable {d : Director}

theorem takeEvent_identity (d : Director) (event : Event) :
    (d.takeEvent event).context.identity = d.context.identity := by
  cases event with
  | chainAvailable client =>
      rw [takeEvent]
      split
      · rfl
      · simp [dropChainState, Context.identity]
  | chainUnavailable => simp [takeEvent, dropChainState, Context.identity]
  | walletAvailable client =>
      rw [takeEvent]
      split
      · rfl
      · simp [Context.identity]
  | walletUnavailable => simp [takeEvent, Context.identity]
  | liveData | error => rfl
  | command command =>
      rw [takeEvent]
      split <;> rfl

theorem takeMessage_identity (d : Director) (m : Message) :
    (d.takeMessage m).context.identity = d.context.identity := by
  obtain ⟨role, generation, report⟩ := m
  rw [takeMessage]
  split
  · cases report with
    | failed message => cases role <;> rfl
    | liveData | purchaseState | submitted => rfl
  · rfl

theorem Sound.settle_identity (h : d.Sound) (accounts : Accounts) (now : Timestamp) :
    (d.settle accounts now).context.identity = d.context.identity := by
  obtain ⟨reason, hcontext⟩ := h.settle_context accounts now
  rw [hcontext]
  rfl

end Director

namespace Floor

variable {σ : Type} {env : Environment σ} {f g : Floor σ}

/-- The way to the project ends once. -/
theorem metadata_act (h : f.metadata = none) (act : Act σ) : (f.act env act).metadata = none := by
  by_cases hdirector : ∃ now, act = .director now
  · obtain ⟨now, rfl⟩ := hdirector
    refine directorTurn_keeps (P := fun g => g.metadata = none) now h rfl ?_ ?_
    · intro a g hreach
      have hof := hreach.spared.metadata_of
      cases hmetadata : g.metadata with
      | none => rfl
      | some job => simp [h, hmetadata] at hof
    · rintro g d s - hnone
      simpa [seat] using hnone
  · have hother : ∀ now, act ≠ .director now := by simpa using hdirector
    rw [(act_unmoved hother f).metadata_eq, h]

/-- Which project is for sale only changes when the way to it ends. -/
theorem Orderly.act_identity (h : f.Orderly) (env : Environment σ) (act : Act σ) :
    (f.act env act).director.context.identity = f.director.context.identity ∨
      f.metadata.isSome ∧ (f.act env act).metadata = none := by
  by_cases hdirector : ∃ now, act = .director now
  · obtain ⟨now, rfl⟩ := hdirector
    have hturned := directorTurn_turned env now f
    change (f.directorTurn env now).2.2.director.context.identity = _ ∨
      _ ∧ (f.directorTurn env now).2.2.metadata = none
    generalize (f.directorTurn env now).2.2 = g at hturned ⊢
    cases hturned with
    | closed hopen => exact .inl rfl
    | shut hopen hshut =>
        exact .inl (by simp [Floor.seat, Director.dispose, Context.identity])
    | waits hopen hshut hnext => exact .inl (by rw [(next_reach hnext).spared.director_eq])
    | @took a g hopen hshut hnext =>
        obtain ⟨hg, hadmits⟩ := h.reach (next_reach hnext)
        have hdirector := (next_reach hnext).spared.director_eq
        have hsettle := (hg.sound.receive hadmits).settle_identity (env.account g.world) now
        cases a with
        | project result =>
            obtain ⟨hwaiting, hend⟩ := (next_reach hnext).metadata
            exact .inr ⟨hwaiting, by simpa [reached, Floor.seat] using hend⟩
        | event event =>
            refine .inl ?_
            rw [reached, Floor.seat, enact_director]
            exact hsettle.trans ((Director.takeEvent_identity _ _).trans (by rw [hdirector]))
        | message m =>
            refine .inl ?_
            rw [reached, Floor.seat, enact_director]
            exact hsettle.trans ((Director.takeMessage_identity _ _).trans (by rw [hdirector]))
  · have hother : ∀ now, act ≠ .director now := by simpa using hdirector
    exact .inl (by rw [(act_unmoved hother f).director_eq])

/-- Once the way to it has ended, a sale never gets another project. -/
theorem Orderly.run_identity (h : f.Orderly) (hmetadata : f.metadata = none)
    (acts : List (Act σ)) :
    (f.run env acts).director.context.identity = f.director.context.identity := by
  have hrun : (f.run env acts).Orderly ∧ (f.run env acts).metadata = none ∧
      (f.run env acts).director.context.identity = f.director.context.identity := by
    refine run_invariant (P := fun g => g.Orderly ∧ g.metadata = none ∧
      g.director.context.identity = f.director.context.identity) ?_ ⟨h, hmetadata, rfl⟩ acts
    rintro g act ⟨hg, hnone, hsame⟩
    refine ⟨hg.act env act, metadata_act hnone act, ?_⟩
    rcases hg.act_identity env act with hkept | ⟨hwaiting, -⟩
    · exact hkept.trans hsame
    · simp [hnone] at hwaiting
  exact hrun.2.2

/-- A sale whose project is on its way only has an id. -/
def Unidentified (id : Option String) (f : Floor σ) : Prop :=
  f.metadata.isSome → f.director.context.identity = (id, none)

theorem Orderly.act_unidentified {id : Option String} (h : f.Orderly) (hid : f.Unidentified id)
    (env : Environment σ) (act : Act σ) : (f.act env act).Unidentified id := by
  intro hwaiting
  have hbefore : f.metadata.isSome := by
    cases hmetadata : f.metadata with
    | none => simp [metadata_act hmetadata act] at hwaiting
    | some job => rfl
  rcases h.act_identity env act with hkept | ⟨-, hend⟩
  · exact hkept.trans (hid hbefore)
  · simp [hend] at hwaiting

end Floor

end MintSale.Sale
