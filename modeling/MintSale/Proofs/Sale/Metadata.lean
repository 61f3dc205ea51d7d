import MintSale.Proofs.Collaborator.Hearing
import MintSale.Proofs.Format.Sale
import MintSale.Proofs.Sale.FirstCause
import MintSale.Proofs.Sale.Identity

/-!
# A sale that starts again

A sale that was stored starts again from the id of its project and the clients of the process alone.
The source of projects decides what becomes of it; what was stored only counts where the source
fails.
-/

namespace MintSale

/-- The source knows that there is no such project. -/
def Fault.IsNotFound : Fault → Prop
  | .projectNotFound _ => True
  | _ => False

namespace Sale

/-! ## What was stored -/

/-- A stored text has a project to fall back on: that of a sale that was not over, if it has the
right id. -/
def Usable (stored : Option String) (id : String) (project : Project) : Prop :=
  ∃ text s, stored = some text ∧ Snapshot.codec.decode text = .ok s ∧
    s.phase.isTerminal = false ∧ s.context.project = some project ∧ project.id = id

theorem restore_eq (stored : Option String) (id : String) (chain : Option ChainClient)
    (wallet : Option WalletClient) :
    ∃ kept, restore stored (some id) chain wallet = ⟨some id, chain, wallet, none, kept⟩ ∧
      ∀ project, Usable stored id project ↔ kept = some project ∧ project.id = id := by
  cases stored with
  | none => exact ⟨none, rfl, by simp [Usable]⟩
  | some text =>
      cases hread : Snapshot.codec.decode text with
      | error fault => exact ⟨none, by simp [restore, hydrate, hread], by simp [Usable, hread]⟩
      | ok s =>
          refine ⟨if s.phase.isTerminal then none else s.context.project, ?_, fun project => ?_⟩
          · simp [restore, hydrate, hread, Hydrated.toStart]
          · cases hover : s.phase.isTerminal <;> simp [Usable, hread, hover]

/-! ## The way to the project -/

/-- How the way to a project ends, given what the source answers. -/
inductive Resolves (stored : Option String) (id : String) :
    Except Fault Project → Except Fault Project → Prop where
  | answered (project : Project) : Resolves stored id (.ok project) (.ok project)
  | notFound (missing : String) :
      Resolves stored id (.error (.projectNotFound missing)) (.error (.projectNotFound missing))
  | fallsBack {fault : Fault} {project : Project} (hfault : ¬ fault.IsNotFound)
      (husable : Usable stored id project) : Resolves stored id (.error fault) (.ok project)
  | fails {fault : Fault} (hfault : ¬ fault.IsNotFound)
      (hnone : ∀ project, ¬ Usable stored id project) :
      Resolves stored id (.error fault) (.error fault)

theorem metadataProgram_restore (stored : Option String) (id : String)
    (chain : Option ChainClient) (wallet : Option WalletClient) :
    ∃ next, metadataProgram (restore stored (some id) chain wallet) = .ask [.project id] next ∧
      ∀ answer : Except Fault (Call.project id).Answer, ∃ result,
        next (Answers.single answer) = .done result ∧ Resolves stored id answer result := by
  obtain ⟨kept, hrestore, husable⟩ := restore_eq stored id chain wallet
  have hnone (hkept : kept = none) {fault : Fault} (hfault : ¬ fault.IsNotFound) :
      Resolves stored id (.error fault) (.error fault) :=
    .fails hfault fun project => by simp [husable, hkept]
  have hsome (project : Project) (hkept : kept = some project) {fault : Fault}
      (hfault : ¬ fault.IsNotFound) : ∃ result,
        (if project.id = id then pure project else Program.fail fault) = Program.done result ∧
          Resolves stored id (.error fault) result := by
    by_cases hid : project.id = id
    · have hproject : Usable stored id project := (husable project).mpr ⟨hkept, hid⟩
      exact ⟨_, by simp only [hid, if_true]; rfl, .fallsBack hfault hproject⟩
    · refine ⟨_, by simp only [hid, if_false]; rfl, .fails hfault fun other hother => ?_⟩
      obtain ⟨hsame, hother⟩ := (husable other).mp hother
      exact hid (Option.some.inj (hkept.symm.trans hsame) ▸ hother)
  rw [hrestore]
  refine ⟨_, rfl, fun answer => ?_⟩
  rcases answer with fault | project
  · cases fault with
    | projectNotFound missing => exact ⟨_, rfl, .notFound missing⟩
    | _ =>
        cases kept with
        | none => exact ⟨_, rfl, hnone rfl (by simp [Fault.IsNotFound])⟩
        | some project => exact hsome project rfl (by simp [Fault.IsNotFound])
  · exact ⟨_, rfl, .answered project⟩

/-- The way to a project has not begun, or the source has answered, which ends it. -/
theorem metadataProgram_leads {stored : Option String} {id : String} {chain : Option ChainClient}
    {wallet : Option WalletClient} {heard : List Answered} {rest : Program Project}
    (h : (metadataProgram (restore stored (some id) chain wallet)).Leads heard rest) :
    (heard = [] ∧ ∃ next, rest = .ask [.project id] next) ∨
      ∃ answer result, heard = [⟨.project id, answer⟩] ∧ rest = .done result ∧
        Resolves stored id answer result := by
  obtain ⟨next, hprogram, hnext⟩ := metadataProgram_restore stored id chain wallet
  rw [hprogram] at h
  cases h with
  | refl => exact .inl ⟨rfl, next, rfl⟩
  | @step _ _ answer heard _ h =>
      obtain ⟨result, hdone, hresolves⟩ := hnext answer
      rw [hdone] at h
      cases h
      exact .inr ⟨answer, result, rfl, rfl, hresolves⟩

theorem metadataProgram_asksOnce (stored : Option String) (id : String)
    (chain : Option ChainClient) (wallet : Option WalletClient) :
    ∃ next, metadataProgram (restore stored (some id) chain wallet) = .ask [.project id] next ∧
      ∀ answers, ∃ result, next answers = .done result := by
  obtain ⟨next, hprogram, hnext⟩ := metadataProgram_restore stored id chain wallet
  refine ⟨next, hprogram, fun answers => ?_⟩
  rcases answers with fault | ⟨project, ⟨⟩⟩
  · obtain ⟨result, hdone, -⟩ := hnext (.error fault)
    exact ⟨result, hdone⟩
  · obtain ⟨result, hdone, -⟩ := hnext (.ok project)
    exact ⟨result, hdone⟩

theorem metadataProgram_asks (stored : Option String) (id : String) (chain : Option ChainClient)
    (wallet : Option WalletClient) :
    (metadataProgram (restore stored (some id) chain wallet)).Within (· = .project id)
      fun _ => True := by
  obtain ⟨next, hprogram, hnext⟩ := metadataProgram_asksOnce stored id chain wallet
  rw [hprogram]
  refine ⟨by simp, fun answers => ?_⟩
  obtain ⟨result, hdone⟩ := hnext answers
  exact hdone ▸ trivial

theorem metadataProgram_oneByOne (stored : Option String) (id : String)
    (chain : Option ChainClient) (wallet : Option WalletClient) :
    (metadataProgram (restore stored (some id) chain wallet)).OneByOne := by
  obtain ⟨next, hprogram, hnext⟩ := metadataProgram_asksOnce stored id chain wallet
  rw [hprogram]
  refine ⟨⟨_, rfl⟩, fun answers => ?_⟩
  obtain ⟨result, hdone⟩ := hnext answers
  exact hdone ▸ trivial

/-! ## The source's answer -/

/-- What becomes of a sale once the source has answered. -/
inductive Context.Heeds (stored : Option String) (id : String) (before after : Context) :
    Except Fault Project → Prop where
  | answered {project : Project} (hproject : after.project = some project)
      (herror : after.error = before.error) : Heeds stored id before after (.ok project)
  | notFound {missing : String} (hproject : after.project = none)
      (herror : after.error = some (Fault.projectNotFound missing).message) :
      Heeds stored id before after (.error (.projectNotFound missing))
  | fallsBack {fault : Fault} {project : Project} (hfault : ¬ fault.IsNotFound)
      (husable : Usable stored id project) (hproject : after.project = some project)
      (herror : after.error = before.error) : Heeds stored id before after (.error fault)
  | fails {fault : Fault} (hfault : ¬ fault.IsNotFound) (hid : fault ≠ .noProjectId)
      (hnone : ∀ project, ¬ Usable stored id project) (hproject : after.project = none)
      (herror : after.error = some fault.message) : Heeds stored id before after (.error fault)
  | ruledOut (hnone : ∀ project, ¬ Usable stored id project) (hproject : after.project = none)
      (herror : after.error = before.error)
      (hreason : after.ineligibleReason = some Fault.noProjectId.message) :
      Heeds stored id before after (.error .noProjectId)

variable {stored : Option String} {id : String} {d : Director}

theorem Director.takeProject_heeds {answer result : Except Fault Project}
    (h : Resolves stored id answer result) (hproject : d.context.project = none) :
    Context.Heeds stored id d.context (d.takeProject result).context answer := by
  cases h with
  | answered project => exact .answered rfl rfl
  | notFound missing => exact .notFound hproject rfl
  | fallsBack hfault husable => exact .fallsBack hfault husable rfl rfl
  | @fails fault hfault hnone =>
      by_cases hid : fault = .noProjectId
      · subst hid
        exact .ruledOut hnone hproject rfl rfl
      · refine .fails hfault hid hnone ?_ ?_
        · cases fault <;> first | exact absurd rfl hid | exact hproject
        · cases fault <;> first | exact absurd rfl hid | rfl

/-- What a sale works with, whatever is known about its project. -/
def Context.setting (ctx : Context) :
    Option String × Option ChainClient × Option WalletClient × Option LiveSaleData :=
  (ctx.projectId, ctx.chain, ctx.wallet, ctx.live)

theorem Director.takeProject_setting (hid : d.context.projectId.isSome)
    (result : Except Fault Project) :
    (d.takeProject result).context.setting = d.context.setting := by
  obtain ⟨id, hid⟩ := Option.isSome_iff_exists.mp hid
  rcases result with fault | project
  · cases fault <;> rfl
  · simp [takeProject, Context.setting, hid]

theorem Director.Sound.settle_setting (h : d.Sound) (accounts : Accounts) (now : Timestamp) :
    (d.settle accounts now).context.setting = d.context.setting := by
  obtain ⟨reason, hcontext⟩ := h.settle_context accounts now
  rw [hcontext]
  rfl

theorem Context.Heeds.settle {before : Context} {answer : Except Fault Project}
    (h : Context.Heeds stored id before d.context answer) (hd : d.Sound) (accounts : Accounts)
    (now : Timestamp) : Context.Heeds stored id before (d.settle accounts now).context answer := by
  obtain ⟨reason, hcontext⟩ := hd.settle_context accounts now
  have hproject : (d.settle accounts now).context.project = d.context.project := by rw [hcontext]
  have herror : (d.settle accounts now).context.error = d.context.error := by rw [hcontext]
  have hremembers := (hd.settle_remembers accounts now).ineligibleReason
  cases h with
  | answered hp he => exact .answered (hproject.trans hp) (herror.trans he)
  | notFound hp he => exact .notFound (hproject.trans hp) (herror.trans he)
  | fallsBack hfault husable hp he =>
      exact .fallsBack hfault husable (hproject.trans hp) (herror.trans he)
  | fails hfault hid hnone hp he =>
      exact .fails hfault hid hnone (hproject.trans hp) (herror.trans he)
  | ruledOut hnone hp he hr =>
      exact .ruledOut hnone (hproject.trans hp) (herror.trans he) (hremembers _ hr)

namespace Floor

variable {σ : Type} {env : Environment σ} {f g : Floor σ}

/-- What the director hears on the way to the project by its next turn. -/
def heard (env : Environment σ) (f : Floor σ) : List Answered :=
  match f.metadata with
  | none => []
  | some job => job.heard env f.world

/-- The way to the project begins with the id of a sale that starts again, and nothing has come back
yet. -/
def IsOnTheWay (stored : Option String) (id : String) (chain : Option ChainClient)
    (wallet : Option WalletClient) (f : Floor σ) : Prop :=
  ∀ job, f.metadata = some job →
    job.Continues (metadataProgram (restore stored (some id) chain wallet)) []

variable {chain : Option ChainClient} {wallet : Option WalletClient}

theorem fetch_heard (env : Environment σ) (h : f.IsOnTheWay stored id chain wallet)
    (hwaiting : f.metadata.isSome) :
    (f.heard env = [] ∧ (f.fetch env).1 = none ∧ (f.fetch env).2.metadata.isSome ∧
        (f.fetch env).2.IsOnTheWay stored id chain wallet) ∨
      ∃ answer result, f.heard env = [⟨.project id, answer⟩] ∧ (f.fetch env).1 = some result ∧
        (f.fetch env).2.metadata = none ∧ Resolves stored id answer result := by
  obtain ⟨job, hjob⟩ := Option.isSome_iff_exists.mp hwaiting
  have hone := metadataProgram_oneByOne stored id chain wallet
  have hprogress := (h job hjob).resume hone env f.world
  have hheard : f.heard env = job.heard env f.world := by rw [Floor.heard, hjob]
  rw [List.nil_append, ← hheard] at hprogress
  rcases hresume : job.resume env f.world with ⟨result | next, asked, world⟩ <;>
    rw [hresume] at hprogress
  · cases hprogress with
    | finished hleads =>
        rcases metadataProgram_leads hleads with
          ⟨-, next, hnext⟩ | ⟨answer, result', hanswer, hdone, hresolves⟩
        · cases hnext
        · cases hdone
          exact .inr ⟨answer, result, hanswer, by simp [fetch, hjob, hresume],
            by simp [fetch, hjob, hresume], hresolves⟩
  · have hnone : f.heard env = [] := by
      cases hprogress with
      | pending ticket hleads =>
          rcases metadataProgram_leads hleads with ⟨hnone, -⟩ | ⟨answer, result, -, hdone, -⟩
          · exact hnone
          · cases hdone
    have hkept : (f.fetch env).2.metadata = some next := by simp [fetch, hjob, hresume]
    refine .inl ⟨hnone, by simp [fetch, hjob, hresume], by simp [hkept], fun other hother => ?_⟩
    obtain rfl : next = other := Option.some.inj (hkept.symm.trans hother)
    exact hnone ▸ hprogress.job

/-- The project reaches the director with the source's answer. -/
theorem Reach.heard {a : Option Arrival} (hreach : Reach env f a g)
    (h : f.IsOnTheWay stored id chain wallet) (hwaiting : f.metadata.isSome) :
    (f.heard env = [] ∧ g.metadata.isSome ∧ g.IsOnTheWay stored id chain wallet ∧
        ∀ result, a ≠ some (.project result)) ∨
      ∃ answer result, f.heard env = [⟨.project id, answer⟩] ∧ g.metadata = none ∧
        a = some (.project result) ∧ Resolves stored id answer result := by
  have hfetched := fetch_heard env h hwaiting
  cases hreach with
  | project hfetch =>
      rw [hfetch] at hfetched
      rcases hfetched with ⟨-, hnone, -⟩ | ⟨answer, result, hanswer, hsome, hend, hresolves⟩
      · cases hnone
      · cases hsome
        exact .inr ⟨answer, _, hanswer, hend, rfl, hresolves⟩
  | event hfetch | message hfetch | nothing hfetch =>
      rw [hfetch] at hfetched
      rcases hfetched with ⟨hnone, -, hkept, hway⟩ | ⟨answer, result, -, hsome, -⟩
      · exact .inl ⟨hnone, hkept, hway, by simp⟩
      · cases hsome

theorem IsOnTheWay.act (h : f.IsOnTheWay stored id chain wallet) (act : Act σ) :
    (f.act env act).IsOnTheWay stored id chain wallet := by
  by_cases hdirector : ∃ now, act = .director now
  · obtain ⟨now, rfl⟩ := hdirector
    have hover : ∀ {g : Floor σ}, g.metadata = none → g.IsOnTheWay stored id chain wallet :=
      fun hnone job hjob => by simp [hnone] at hjob
    refine directorTurn_keeps now h (hover rfl) ?_ ?_
    · intro a g hreach
      cases hmetadata : f.metadata with
      | none => exact hover (by simpa [hmetadata] using hreach.spared.metadata_of)
      | some job =>
          rcases hreach.heard h (by simp [hmetadata]) with
            ⟨-, -, hkept, -⟩ | ⟨answer, result, -, hnone, -⟩
          · exact hkept
          · exact hover hnone
    · rintro g d s - hg job hjob
      exact hg job (by simpa [seat] using hjob)
  · have hother : ∀ now, act ≠ .director now := by simpa using hdirector
    intro job hjob
    rw [(act_unmoved hother f).metadata_eq] at hjob
    exact h job hjob

/-- In the turn in which the source's answer comes the director heeds it. -/
theorem Orderly.directorTurn_heeds (h : f.Orderly) (hid : f.Unidentified (some id))
    (hway : f.IsOnTheWay stored id chain wallet) (hopen : f.isOpen = true)
    (hshut : f.isShutDown = false) (hwaiting : f.metadata.isSome) (now : Timestamp) :
    (f.heard env = [] ∧ (f.directorTurn env now).2.2.metadata.isSome) ∨
      ∃ answer, f.heard env = [⟨.project id, answer⟩] ∧
        (f.directorTurn env now).2.2.metadata = none ∧
        f.director.context.Heeds stored id (f.directorTurn env now).2.2.director.context answer ∧
        (f.directorTurn env now).2.2.director.context.setting = f.director.context.setting := by
  have hturned := directorTurn_turned env now f
  generalize (f.directorTurn env now).2.2 = g at hturned ⊢
  cases hturned with
  | closed hclosed => simp [hopen] at hclosed
  | shut _ hshut' => simp [hshut] at hshut'
  | waits _ _ hnext =>
      rcases (next_reach hnext).heard hway hwaiting with
        ⟨hnone, hkept, -, -⟩ | ⟨answer, result, -, -, hproject, -⟩
      · exact .inl ⟨hnone, hkept⟩
      · cases hproject
  | @took a g _ _ hnext =>
      rcases (next_reach hnext).heard hway hwaiting with
        ⟨hnone, hkept, -, -⟩ | ⟨answer, result, hanswer, hend, ⟨⟩, hresolves⟩
      · exact .inl ⟨hnone, by simpa [reached, Floor.seat] using hkept⟩
      · obtain ⟨hg, hadmits⟩ := h.reach (next_reach hnext)
        have hsound := hg.sound.receive hadmits
        rw [(next_reach hnext).spared.director_eq] at hsound
        obtain ⟨hprojectId, hproject⟩ := Prod.mk.inj (hid hwaiting)
        refine .inr ⟨answer, hanswer, by simpa [reached, Floor.seat] using hend, ?_, ?_⟩
        · rw [reached, Floor.seat, enact_director, (next_reach hnext).spared.director_eq]
          exact (Director.takeProject_heeds hresolves hproject).settle hsound _ now
        · rw [reached, Floor.seat, enact_director, (next_reach hnext).spared.director_eq]
          exact (hsound.settle_setting _ now).trans
            (Director.takeProject_setting (by simp [hprojectId]) result)

/-- A sale that starts again begins with the id and the clients of the process and nothing else. It
only asks for the project with that id, and has none until the source answers. Then it has the
source's project, or the stored one where that may stand in, or none and the failure on record; and
it never gets another one. -/
theorem run_restored (env : Environment σ) (stored : Option String) (id : String)
    (chain : Option ChainClient) (wallet : Option WalletClient) (interval : Nat)
    (isTracked : Bool) (world : σ) (acts : List (Act σ)) (now : Timestamp) :
    let start := restore stored (some id) chain wallet
    let f := (initial start interval isTracked world).run env acts
    let g := (f.directorTurn env now).2.2
    (Director.initial start).context = ⟨some id, chain, wallet, none, none, none, none⟩ ∧
    (Director.initial start).purchase = none ∧ (Director.initial start).board = none ∧
    (∀ call ∈ f.inquiries env, call = .project id) ∧
    (f.metadata.isSome → f.director.context.identity = (some id, none)) ∧
    (f.isOpen = true → f.isShutDown = false → f.metadata.isSome →
      (f.heard env = [] ∧ g.metadata.isSome) ∨
        ∃ answer, f.heard env = [⟨.project id, answer⟩] ∧ g.metadata = none ∧
          f.director.context.Heeds stored id g.director.context answer ∧
          g.director.context.setting = f.director.context.setting) ∧
    (f.metadata = none → ∀ later,
      (f.run env later).director.context.identity = f.director.context.identity) := by
  intro start f g
  obtain ⟨kept, hrestore, -⟩ := restore_eq stored id chain wallet
  have hinvariant : f.Orderly ∧ f.Unidentified (some id) ∧ f.IsOnTheWay stored id chain wallet := by
    refine run_invariant (P := fun f => f.Orderly ∧ f.Unidentified (some id) ∧
      f.IsOnTheWay stored id chain wallet) ?_ ?_ acts
    · rintro f act ⟨h, hid, hway⟩
      exact ⟨h.act env act, h.act_unidentified hid env act, hway.act act⟩
    · refine ⟨orderly_initial _ _ _ _, fun _ => ?_, ?_⟩
      · simp [start, hrestore, initial, Director.initial, Context.identity]
      · rintro job ⟨⟩
        exact .fresh (.refl _)
  obtain ⟨horderly, hid, hway⟩ := hinvariant
  have hinitial : (Director.initial start).context =
      ⟨some id, chain, wallet, none, none, none, none⟩ := by
    simp [start, hrestore, Director.initial]
  refine ⟨hinitial, rfl, rfl, ?_, hid, ?_, fun hnone => horderly.run_identity hnone⟩
  · intro call hcall
    unfold inquiries at hcall
    split at hcall
    · simp at hcall
    · next job hjob =>
      have hasks := (hway job hjob).within (metadataProgram_asks stored id chain wallet)
      exact (hasks.resume env f.world).2 call hcall
  · exact fun hopen hshut hwaiting =>
      horderly.directorTurn_heeds hid hway hopen hshut hwaiting now

end Floor

/-- A sale that was stored before it was ready. -/
def Sample.shelved : Snapshot where
  phase := .idle
  context := ⟨some "proj-1", true, false, some project, none, none, none⟩
  purchase := none

/-- The stored project stands in for a source that cannot be reached. -/
theorem Floor.run_restored_unreachable :
    let stored := some (dehydrate Sample.shelved)
    let f : Floor Unit := .initial (restore stored (some "proj-1") none none) 10 true ()
    let g := (f.directorTurn Sample.environment Sample.noon).2.2
    f.isOpen = true ∧ f.isShutDown = false ∧ f.metadata.isSome ∧
      f.heard Sample.environment = [⟨.project "proj-1", .error .transport⟩] ∧
      g.metadata = none ∧ g.director.context.project = some Sample.project ∧
      g.director.context.error = none := by
  have hdates : Sample.shelved.HasProperDates := by
    rintro p ⟨⟩ t (ht | ht) <;> cases ht
  have hkeeps : Snapshot.codec.Keeps 5 Sample.shelved := Snapshot.codec_keeps hdates
  have hdecode : Snapshot.codec.decode (dehydrate Sample.shelved) = .ok Sample.shelved :=
    hkeeps.decode_encode (by decide)
  -- From here on it only matters what the text is read as.
  generalize dehydrate Sample.shelved = text at hdecode ⊢
  have husable : Usable (some text) "proj-1" Sample.project := ⟨_, _, rfl, hdecode, rfl, rfl, rfl⟩
  obtain ⟨-, -, -, -, -, hturn, -⟩ := run_restored Sample.environment (some text) "proj-1" none
    none 10 true () [] Sample.noon
  dsimp only
  simp only [run, List.foldl_nil] at hturn
  generalize hf : (initial (restore (some text) (some "proj-1") none none) 10 true () : Floor Unit) =
    f at hturn ⊢
  have hinitial : f.isOpen = true ∧ f.isShutDown = false ∧ f.metadata.isSome := by
    rw [← hf]
    exact ⟨rfl, rfl, rfl⟩
  have herrorless : f.director.context.error = none := by
    rw [← hf]
    rfl
  have hheard : f.heard Sample.environment = [⟨.project "proj-1", .error .transport⟩] := by
    obtain ⟨kept, hrestore, hkept⟩ := restore_eq (some text) "proj-1" none none
    obtain rfl : kept = some Sample.project := ((hkept _).mp husable).1
    rw [← hf, hrestore]
    rfl
  obtain ⟨hopen, hshut, hwaiting⟩ := hinitial
  refine ⟨hopen, hshut, hwaiting, hheard, ?_⟩
  rcases hturn hopen hshut hwaiting with ⟨hnone, -⟩ | ⟨answer, hanswer, hend, hheeds, -⟩
  · cases hheard.symm.trans hnone
  · cases hheard.symm.trans hanswer
    refine ⟨hend, ?_⟩
    cases hheeds with
    | @fallsBack _ other _ hother hproject herror =>
        obtain ⟨other, s, hsame, hread, -, hother, -⟩ := hother
        obtain rfl : text = other := Option.some.inj hsame
        rw [hdecode] at hread
        cases hread
        exact ⟨hproject.trans hother.symm, herror.trans herrorless⟩
    | fails _ _ hnone => exact absurd husable (hnone _)

/-- Collaborators of whom the source says that it was given no id. -/
def Sample.forgetfulEnvironment : Environment Unit :=
  { Sample.environment with ask := fun _ _ => (.now (.error .noProjectId), ()) }

/-- A source that says that it was given no id rules the project out. There is no error on record
then. -/
theorem Floor.run_restored_ruledOut :
    let f : Floor Unit := .initial (restore none (some "proj-1") none none) 10 true ()
    let g := (f.directorTurn Sample.forgetfulEnvironment Sample.noon).2.2
    f.heard Sample.forgetfulEnvironment = [⟨.project "proj-1", .error .noProjectId⟩] ∧
      (∀ project, ¬ Usable none "proj-1" project) ∧ g.metadata.isNone ∧
      g.director.context.project = none ∧
      g.director.context.error ≠ some Fault.noProjectId.message ∧
      g.director.context.error = none ∧
      g.director.context.ineligibleReason = some Fault.noProjectId.message ∧
      g.director.phase = .ineligible := by
  refine ⟨rfl, ?_, ?_⟩
  · rintro project ⟨text, s, ⟨⟩, -⟩
  · decide +kernel

end Sale

end MintSale
