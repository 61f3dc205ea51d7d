import MintSale.Proofs.Sale.Chronicle
import MintSale.Proofs.Sale.Phases

/-!
# The first cause

What a sale has on record against itself is the first that came up. Nothing replaces it later but a
failure of the way to the project, which is put on record whatever stands there.
-/

namespace MintSale.Sale

namespace Context

variable {ctx ctx' ctx'' : Context}

/-- What is on record against a sale is still on record later. -/
structure Remembers (ctx ctx' : Context) : Prop where
  error : ∀ text, ctx.error = some text → ctx'.error = some text
  ineligibleReason : ∀ text, ctx.ineligibleReason = some text → ctx'.ineligibleReason = some text

theorem Remembers.of_eq (herror : ctx'.error = ctx.error)
    (hreason : ctx'.ineligibleReason = ctx.ineligibleReason) : ctx.Remembers ctx' := by
  constructor <;> simp [herror, hreason]

theorem Remembers.refl (ctx : Context) : ctx.Remembers ctx :=
  .of_eq rfl rfl

theorem Remembers.trans (h : ctx.Remembers ctx') (h' : ctx'.Remembers ctx'') :
    ctx.Remembers ctx'' where
  error text htext := h'.error text (h.error text htext)
  ineligibleReason text htext := h'.ineligibleReason text (h.ineligibleReason text htext)

/-- How the way to the project ended does not go against what is on record. -/
def Accords (ctx : Context) : Except Fault Project → Prop
  | .ok _ => True
  | .error .noProjectId =>
    ∀ text, ctx.ineligibleReason = some text → text = Fault.noProjectId.message
  | .error fault => ∀ text, ctx.error = some text → text = fault.message

end Context

namespace Director

open Context

variable {accounts : Accounts} {now : Timestamp} {d : Director}

/-! ## Taking things in -/

theorem takeLiveData_remembers (d : Director) (data : LiveSaleData) :
    d.context.Remembers (d.takeLiveData data).context := by
  refine ⟨fun _ => id, fun text htext => ?_⟩
  simp [takeLiveData, htext]

theorem takeError_remembers (d : Director) (message : String) :
    d.context.Remembers (d.takeError message).context := by
  refine ⟨fun text htext => ?_, fun _ => id⟩
  simp [takeError, htext]

theorem takeEvent_remembers (d : Director) (event : Event) :
    d.context.Remembers (d.takeEvent event).context := by
  cases event with
  | chainAvailable client =>
      rw [takeEvent]
      split
      · exact .refl _
      · exact .of_eq (by simp [dropChainState]) (by simp [dropChainState])
  | chainUnavailable =>
      exact .of_eq (by simp [takeEvent, dropChainState]) (by simp [takeEvent, dropChainState])
  | walletAvailable client =>
      rw [takeEvent]
      split
      · exact .refl _
      · exact .of_eq (by simp) (by simp)
  | walletUnavailable => exact .of_eq (by simp [takeEvent]) (by simp [takeEvent])
  | liveData data => exact d.takeLiveData_remembers data
  | error message => exact d.takeError_remembers message
  | command command =>
      rw [takeEvent]
      split <;> exact .refl _

theorem takeMessage_remembers (d : Director) (m : Message) :
    d.context.Remembers (d.takeMessage m).context := by
  obtain ⟨role, generation, report⟩ := m
  rw [Director.takeMessage]
  split
  · cases report with
    | liveData data => exact d.takeLiveData_remembers data
    | failed message =>
        cases role with
        | feed => exact { d with feed := none : Director }.takeError_remembers message
        | checkout => exact d.takeError_remembers message
    | purchaseState | submitted => exact .refl _
  · exact .refl _

theorem takeProject_remembers {result : Except Fault Project} (h : d.context.Accords result) :
    d.context.Remembers (d.takeProject result).context := by
  rcases result with fault | project
  · cases fault with
    | noProjectId =>
        refine ⟨fun _ => id, fun text htext => ?_⟩
        simp [takeProject, h text htext]
    | _ =>
        refine ⟨fun text htext => ?_, fun _ => id⟩
        simp [takeProject, h text htext]
  · exact ⟨fun _ => id, fun _ => id⟩

/-- A failed way to the project is put on record, so what stood there is only remembered if it said
the same. -/
theorem accords_of_remembers {result : Except Fault Project} {ctx : Context}
    (hresult : (d.takeProject result).context.Remembers ctx) (h : d.context.Remembers ctx) :
    d.context.Accords result := by
  rcases result with fault | project
  · cases fault with
    | noProjectId =>
        intro text htext
        have hnow := hresult.ineligibleReason _ rfl
        exact Option.some.inj ((h.ineligibleReason text htext).symm.trans hnow)
    | _ =>
        intro text htext
        have hnow := hresult.error _ rfl
        exact Option.some.inj ((h.error text htext).symm.trans hnow)
  · trivial

theorem Sound.settle_remembers (h : d.Sound) (accounts : Accounts) (now : Timestamp) :
    d.context.Remembers (d.settle accounts now).context := by
  have houtcome := h.settle_outcome accounts now
  generalize d.settle accounts now = d' at houtcome ⊢
  cases houtcome with
  | stays => exact .refl _
  | ruledOut reason hreason =>
      -- If there is a reason on record, it is the objection itself.
      refine ⟨fun _ => id, fun text htext => ?_⟩
      simpa [Context.objection, htext] using hreason.symm
  | ready | failed | complete | unplugged | waiting => exact .of_eq (by simp) (by simp)

/-- What reaches a director does away with nothing, unless it is a project that goes against what is
on record. -/
theorem Sound.receive_remembers_iff {a : Arrival} (h : (d.receive a).Sound) (accounts : Accounts)
    (now : Timestamp) :
    d.context.Remembers ((d.receive a).settle accounts now).context ↔
      ∀ result, a = .project result → d.context.Accords result := by
  have hsettle := h.settle_remembers accounts now
  constructor
  · rintro hkept result rfl
    exact accords_of_remembers hsettle hkept
  · intro haccords
    cases a with
    | project result => exact (takeProject_remembers (haccords result rfl)).trans hsettle
    | event event => exact (d.takeEvent_remembers event).trans hsettle
    | message m => exact (d.takeMessage_remembers m).trans hsettle

end Director

/-! ## Runs -/

namespace Floor

variable {σ : Type} {env : Environment σ} {f g : Floor σ}

/-- If the project reaches the director at a moment, it does not go against what is on record. -/
def IsAccordant (moment : Moment σ) : Prop :=
  ∀ result now, moment.happening = .received (.project result) now →
    moment.floor.director.context.Accords result

theorem isAccordant_of_ne {act : Act σ} (h : ∀ now, act ≠ .director now) :
    ∀ m ∈ f.moments env act, IsAccordant m :=
  fun _ hm result now hproject => absurd hproject (not_received h hm (.project result) now)

theorem isAccordant_of_next {now : Timestamp} (hopen : f.isOpen = true)
    (hshut : f.isShutDown = false) {a : Option Arrival} (hnext : f.next env = (a, g)) :
    (∀ m ∈ f.moments env (.director now), IsAccordant m) ↔
      ∀ result, a = some (.project result) → f.director.context.Accords result := by
  rw [moments, happenings_of_next hopen hshut hnext]
  constructor
  · rintro h result rfl
    exact h ⟨f, .received (.project result) now⟩ (by simp) result now rfl
  · intro h m hm result now' hproject
    obtain ⟨happening, hmem, rfl⟩ := List.mem_map.mp hm
    subst hproject
    cases a with
    | none => simp at hmem
    | some a =>
        obtain ⟨rfl, -⟩ : .project result = a ∧ now' = now := by simpa using hmem
        exact h result rfl

theorem Orderly.directorTurn_remembers_iff (h : f.Orderly) (env : Environment σ)
    (now : Timestamp) :
    f.director.context.Remembers (f.directorTurn env now).2.2.director.context ↔
      ∀ m ∈ f.moments env (.director now), IsAccordant m := by
  have hturned := directorTurn_turned env now f
  generalize (f.directorTurn env now).2.2 = g at hturned ⊢
  cases hturned with
  | closed hopen =>
      have hnothing : f.moments env (.director now) = [] := by
        simp [moments, happenings_of_closed (.inl hopen)]
      simpa [hnothing] using Context.Remembers.refl _
  | shut hopen hshut =>
      have hnothing : f.moments env (.director now) = [] := by
        simp [moments, happenings_of_closed (.inr hshut)]
      simpa [hnothing, Floor.seat, Director.dispose] using Context.Remembers.refl _
  | waits hopen hshut hnext =>
      rw [isAccordant_of_next hopen hshut hnext, (next_reach hnext).spared.director_eq]
      simpa using Context.Remembers.refl _
  | @took a g hopen hshut hnext =>
      obtain ⟨hg, hadmits⟩ := h.reach (next_reach hnext)
      have hdirector := (next_reach hnext).spared.director_eq
      have hsound := hg.sound.receive hadmits
      rw [hdirector] at hsound
      rw [isAccordant_of_next hopen hshut hnext, reached, Floor.seat, enact_director, hdirector]
      simpa using hsound.receive_remembers_iff (env.account g.world) now

/-- An act does away with nothing on record exactly if no project comes that goes against it. -/
theorem Orderly.act_remembers_iff (h : f.Orderly) (env : Environment σ) (act : Act σ) :
    f.director.context.Remembers (f.act env act).director.context ↔
      ∀ m ∈ f.moments env act, IsAccordant m := by
  by_cases hdirector : ∃ now, act = .director now
  · obtain ⟨now, rfl⟩ := hdirector
    exact h.directorTurn_remembers_iff env now
  · have hother : ∀ now, act ≠ .director now := by simpa using hdirector
    rw [(act_unmoved hother f).director_eq]
    exact ⟨fun _ => isAccordant_of_ne hother, fun _ => .refl _⟩

theorem Orderly.run_remembers (h : f.Orderly) {acts : List (Act σ)}
    (haccords : ∀ m ∈ f.chronicle env acts, IsAccordant m) :
    f.director.context.Remembers (f.run env acts).director.context := by
  induction acts generalizing f with
  | nil => exact .refl _
  | cons act acts ih =>
      have hfirst := (h.act_remembers_iff env act).mpr
        fun m hm => haccords m (List.mem_append_left _ hm)
      exact hfirst.trans (ih (h.act env act) fun m hm => haccords m (List.mem_append_right _ hm))

/-- All that comes on record during a run stays there as it is to the end, exactly if the project
never comes as a failure that goes against what is on record then. -/
theorem run_remembers_iff (env : Environment σ) (start : Start) (interval : Nat)
    (isTracked : Bool) (world : σ) (acts : List (Act σ)) :
    (∀ before during after, acts = before ++ during ++ after →
      ((initial start interval isTracked world).run env before).director.context.Remembers
        ((initial start interval isTracked world).run env (before ++ during)).director.context) ↔
    ∀ moment ∈ (initial start interval isTracked world).chronicle env acts,
      IsAccordant moment := by
  have horderly := (orderly_initial start interval isTracked world).run env
  constructor
  · intro h m hm
    obtain ⟨before, act, after, rfl, hmoment⟩ := moment_of_chronicle hm
    have hkept := h before [act] after (by simp)
    rw [run_append] at hkept
    exact ((horderly before).act_remembers_iff env act).mp hkept m hmoment
  · rintro h before during after rfl
    rw [run_append]
    refine (horderly before).run_remembers fun m hm => h m ?_
    rw [chronicle_append, chronicle_append]
    exact List.mem_append_left _ (List.mem_append_right _ hm)

end Floor

/-- Collaborators of whom the source of projects only answers, with a failure, when told to. -/
def Sample.slowEnvironment : Environment Bool where
  account _ _ := some buyer
  ask _ world := (.later 0, world)
  collect _ _ world := (if world then some (.error .transport) else none, world)
  abandon _ world := world

/-- An error that the host reports while the project is on its way is replaced by the failure to get
the project. -/
theorem Floor.run_forgets_error :
    let f : Floor Bool := .initial ⟨some "proj-1", none, none, none, none⟩ 10 true false
    let acts : List (Act Bool) := [.post (.error "fire"), .director Sample.noon]
    let more : List (Act Bool) := [.change fun _ => true, .director Sample.noon]
    (f.run Sample.slowEnvironment acts).director.context.error = some "fire" ∧
      (f.run Sample.slowEnvironment (acts ++ more)).director.context.error =
        some "HTTP error" := by
  decide +kernel

end MintSale.Sale
