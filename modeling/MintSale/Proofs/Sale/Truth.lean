import MintSale.Proofs.Checkout.Buying
import MintSale.Proofs.Sale.Files
import MintSale.Proofs.Sale.Identity
import MintSale.Proofs.Sale.Tracking

/-!
# What those who follow the purchases are told is true

The stories of all checkouts make up the play of a run. Those who follow the purchases are only told
of purchases that are made in it, each once and in order, under the id of the sale's project.
-/

namespace MintSale.Sale

open History

/-! ## Plays -/

section Plays

variable {σ : Type}

/-- The scenes of the checkout with a number. -/
def scenesIn (n : Nat) (play : List (Nat × Scene σ)) : List (Scene σ) :=
  play.filterMap fun entry => if entry.1 = n then some entry.2 else none

/-- All purchases that checkouts report as sent. -/
def salesIn (play : List (Nat × Scene σ)) : List (Hash × Address) :=
  play.flatMap (·.2.sales)

theorem scenesIn_append (n : Nat) (first second : List (Nat × Scene σ)) :
    scenesIn n (first ++ second) = scenesIn n first ++ scenesIn n second :=
  List.filterMap_append

theorem scenesIn_map (n m : Nat) (story : List (Scene σ)) :
    scenesIn n (story.map (m, ·)) = if m = n then story else [] := by
  by_cases h : m = n <;> simp [scenesIn, List.filterMap_map, h]

end Plays

namespace Floor

variable {σ : Type} {env : Environment σ} {f : Floor σ}

/-- The scenes of an act, each with the number of its checkout. -/
def scenes (env : Environment σ) (f : Floor σ) : Act σ → List (Nat × Scene σ)
  | .checkout generation =>
    match f.checkout? generation with
    | none => []
    | some c => (c.scenes env f.price f.world).map (generation, ·)
  | _ => []

/-- The play of a run. -/
def play (env : Environment σ) (f : Floor σ) (acts : List (Act σ)) : List (Nat × Scene σ) :=
  f.telling env (scenes env) acts

theorem scenes_checkout {generation : Nat} {c : Checkout} (h : f.checkout? generation = some c) :
    f.scenes env (.checkout generation) =
      (c.scenes env f.price f.world).map (generation, ·) := by
  simp [scenes, h]

/-! ## Checkouts are fair -/

theorem lived_keeping (env : Environment σ) :
    Keeping env (Checkout.Lived env) fun price c world => c.scenes env price world where
  fresh setup generation := (Checkout.honest_fresh env setup generation).lived
  tell _ h := h.congr rfl rfl rfl rfl
  stop h := h.congr rfl rfl rfl rfl
  turn price world h := h.turn price world

theorem scenesIn_scenes (f : Floor σ) (act : Act σ) (n : Nat) :
    scenesIn n (f.scenes env act) =
      f.additions (fun price c world => c.scenes env price world) act n := by
  cases act with
  | checkout generation =>
      cases hfound : f.checkout? generation with
      | none =>
          by_cases hn : generation = n
          · simp [scenes, scenesIn, additions, hfound, ← hn]
          · simp [scenes, scenesIn, additions, hfound, hn]
      | some c =>
          rw [scenes_checkout hfound, scenesIn_map]
          by_cases hn : generation = n
          · simp [additions, hfound, ← hn]
          · simp [additions, hn]
  | director | feed | post | shutDown | wait | change => rfl

/-- What every turn keeps of a checkout and its scenes holds of all checkouts and the play. -/
theorem run_filed {P : List (Scene σ) → Checkout → Prop}
    (hkeeping : Keeping env P fun price c world => c.scenes env price world) (start : Start)
    (interval : Nat) (isTracked : Bool) (world : σ) (acts : List (Act σ)) :
    let f := initial start interval isTracked world
    Filed P (scenesIn · (f.play env acts)) (f.run env acts) := by
  have hrun := telling_invariant env (scenes env)
    (P := fun play f => f.Kept ∧ Filed P (scenesIn · play) f) ?_
    ⟨kept_initial start interval isTracked world, by simp [initial], fun _ _ => rfl⟩ acts
  · exact hrun.2
  · rintro play f act ⟨hkept, hfiled⟩
    have hact := hkept.act env act
    refine ⟨hact, hfiled.act hkeeping act hact.staffed.nodup fun n => ?_⟩
    rw [scenesIn_append, scenesIn_scenes]

/-- A scene of a play has its place in the file of one of the checkouts. -/
theorem Filed.of_scene {P : List (Scene σ) → Checkout → Prop} {play : List (Nat × Scene σ)}
    (h : Filed P (scenesIn · play) f) {earlier later : List (Nat × Scene σ)} {n : Nat}
    {s : Scene σ} (hplay : play = earlier ++ (n, s) :: later) :
    ∃ c ∈ f.checkouts, c.line.generation = n ∧
      P (scenesIn n earlier ++ s :: scenesIn n later) c := by
  have hscenes : scenesIn n play = scenesIn n earlier ++ s :: scenesIn n later := by
    rw [hplay, scenesIn_append, scenesIn, scenesIn, scenesIn]
    simp
  have hnumber : n ∈ f.numbers := by
    by_contra hnew
    have hempty := h.empty n hnew
    simp [hscenes] at hempty
  obtain ⟨c, hc, rfl⟩ := List.mem_map.mp hnumber
  exact ⟨c, hc, rfl, hscenes ▸ h.holds c hc⟩

/-- A scene of a play is a fair one of one of the checkouts. -/
theorem Filed.fair {play : List (Nat × Scene σ)}
    (h : Filed (Checkout.Lived env) (scenesIn · play) f) :
    Throughout (fun earlier entry => ∃ c ∈ f.checkouts, c.line.generation = entry.1 ∧
      Checkout.Fair env c.setup (scenesIn entry.1 earlier) entry.2) play := by
  rintro earlier ⟨n, s⟩ later hplay
  obtain ⟨c, hc, hnumber, hlived⟩ := h.of_scene hplay
  exact ⟨c, hc, hnumber, hlived.fair _ s _ rfl⟩

/-! ## Sales -/

theorem sale?_eq (deed : Deed) : deed.sale? = deed.message?.bind purchase? := by
  cases deed with
  | posted message =>
      obtain ⟨role, generation, report⟩ := message
      cases report <;> rfl
  | took | beganCheck | endedCheck | beganSubmission | endedSubmission | asked => rfl

theorem salesIn_append (first second : List (Nat × Scene σ)) :
    salesIn (first ++ second) = salesIn first ++ salesIn second :=
  List.flatMap_append

/-- Only checkouts report purchases. -/
theorem purchase?_of_posted {act : Act σ} (h : ∀ generation, act ≠ .checkout generation)
    {m : Message} (hm : m ∈ postedIn (f.moments env act)) : purchase? m = none := by
  rcases report_of_posted h hm with ⟨data, hreport⟩ | ⟨text, hreport⟩ <;>
    simp [purchase?, hreport]

/-- The reports of purchases that arrive in an act are those of its scenes. -/
theorem sales_moments (f : Floor σ) (act : Act σ) :
    (postedIn (f.moments env act)).filterMap purchase? = salesIn (f.scenes env act) := by
  by_cases hcheckout : ∃ generation, act = .checkout generation
  · obtain ⟨generation, rfl⟩ := hcheckout
    cases hfound : f.checkout? generation with
    | none => simp [postedIn, salesIn, moments, happenings, scenes, hfound]
    | some c =>
        have hdeeds := Checkout.deedsOf_scenes env f.price c f.world
        rw [postedIn, filterMap_moments, happenings_checkout hfound, scenes_checkout hfound,
          ← hdeeds]
        simp [salesIn, deedsOf, Scene.sales, List.filterMap_flatMap, List.flatMap_map,
          List.filterMap_filterMap, Happening.posted?, sale?_eq]
  · have hother : ∀ generation, act ≠ .checkout generation := by simpa using hcheckout
    have hscenes : f.scenes env act = [] := by
      cases act with
      | checkout generation => exact absurd rfl (hother generation)
      | director | feed | post | shutDown | wait | change => rfl
    rw [hscenes, List.filterMap_eq_nil_iff.mpr fun m hm => purchase?_of_posted hother hm]
    rfl

theorem sales_chronicle (f : Floor σ) (acts : List (Act σ)) :
    (postedIn (f.chronicle env acts)).filterMap purchase? = salesIn (f.play env acts) := by
  induction acts generalizing f with
  | nil => rfl
  | cons act acts ih =>
      have hrest := ih (f.act env act)
      rw [play] at hrest
      rw [chronicle, play, telling, salesIn_append, ← sales_moments, ← hrest, postedIn,
        List.filterMap_append, List.filterMap_append]
      rfl

/-- Those who follow the purchases are told of some of those that are reported, each once and in
order. -/
theorem run_sales (env : Environment σ) (start : Start) (interval : Nat) (isTracked : Bool)
    (world : σ) (acts : List (Act σ)) :
    (purchasesOf ((initial start interval isTracked world).run env acts).tracked).Sublist
      (salesIn ((initial start interval isTracked world).play env acts)) := by
  generalize hf : initial start interval isTracked world = f
  have horderly : f.Orderly := hf ▸ orderly_initial start interval isTracked world
  have htracked : f.tracked = [] := by simp [← hf, initial]
  have hmessages : f.messages = [] := by simp [← hf, initial]
  have htold : (purchasesOf (noticesIn (f.chronicle env acts))).Sublist
      ((takenIn (f.chronicle env acts)).filterMap purchase?) := by
    rw [purchasesOf, noticesIn, takenIn, List.map_filterMap, List.filterMap_filterMap]
    exact filterMap_sublist (fun moment => (notice?_purchase moment).1) _
  have hposted : postedIn (f.chronicle env acts) =
      takenIn (f.chronicle env acts) ++ (f.run env acts).messages := by
    simpa [hmessages] using run_messages f acts
  rw [run_tracked horderly, htracked, ← sales_chronicle, hposted, List.filterMap_append]
  cases f.isTracked with
  | true => exact htold.trans (List.sublist_append_left _ _)
  | false => exact List.nil_sublist _

/-! ## The project's id -/

/-- What is passed on for a checkout that has its place is under the id of the project. -/
theorem Orderly.notice_id (h : f.Orderly) {m : Message} (hm : m.IsProper) {notice : Notice}
    (hnotice : f.director.notice? (.message m) = some notice) :
    f.metadata = none ∧ f.director.context.project.map (·.id) = some notice.projectId := by
  obtain ⟨role, generation, report⟩ := m
  simp only [Director.notice?] at hnotice
  split at hnotice
  · next hcurrent =>
    cases report with
    | submitted txHash purchaseTo =>
        obtain rfl := Option.some.inj hnotice
        cases role with
        | feed => exact hm.elim
        | checkout =>
            obtain ⟨slot, hslot, -⟩ := Option.map_eq_some_iff.mp hcurrent
            have hproject := (h.sound.checkout_setup slot hslot).1
            have hphase := h.sound.phase_of_checkout (by simp [hslot])
            refine ⟨?_, by simp [Director.trackedId, hproject]⟩
            cases hmetadata : f.metadata with
            | none => rfl
            | some job =>
                have hfetching := h.phase_of_metadata (by simp [hmetadata])
                simp [hphase] at hfetching
    | liveData | failed | purchaseState => simp at hnotice
  · simp at hnotice

/-- All that has been told is under the id of the project, of which there will be no other. -/
def Branded (f : Floor σ) : Prop :=
  ∀ notice ∈ f.tracked,
    f.metadata = none ∧ f.director.context.project.map (·.id) = some notice.projectId

theorem Orderly.act_branded (h : f.Orderly) (hbranded : f.Branded) (env : Environment σ)
    (act : Act σ) : (f.act env act).Branded := by
  intro notice hnotice
  have hnow : f.metadata = none ∧
      f.director.context.project.map (·.id) = some notice.projectId := by
    rw [act_tracked h] at hnotice
    rcases List.mem_append.mp hnotice with hold | hnew
    · exact hbranded notice hold
    · have hnew : notice ∈ noticesIn (f.moments env act) := by
        cases htracked : f.isTracked <;> simp_all
      obtain ⟨moment, hmoment, hpassed⟩ := List.mem_filterMap.mp hnew
      rw [(happens_of_moment hmoment).1] at hpassed
      cases hhappening : moment.happening with
      | inquired | did => simp [hhappening, Happening.notice?] at hpassed
      | received arrival now =>
          obtain ⟨g, hreach⟩ := reach_of_moment hmoment hhappening
          rw [hhappening] at hpassed
          cases arrival with
          | project | event => simp [Happening.notice?, Director.notice?] at hpassed
          | message m =>
              refine h.notice_id (h.isProper m ?_) hpassed
              simp [hreach.messages, Arrival.message?]
  obtain ⟨hnone, hid⟩ := hnow
  refine ⟨metadata_act hnone act, ?_⟩
  rcases h.act_identity env act with hkept | ⟨hwaiting, -⟩
  · have hproject : (f.act env act).director.context.project = f.director.context.project :=
      congrArg Prod.snd hkept
    rw [hproject, hid]
  · simp [hnone] at hwaiting

theorem run_branded (env : Environment σ) (start : Start) (interval : Nat) (isTracked : Bool)
    (world : σ) (acts : List (Act σ)) :
    ((initial start interval isTracked world).run env acts).Branded := by
  have hrun := run_invariant (P := fun f => f.Orderly ∧ f.Branded)
    (fun f act hf => ⟨hf.1.act env act, hf.1.act_branded hf.2 env act⟩)
    ⟨orderly_initial start interval isTracked world, by simp [Branded, initial]⟩ acts
  exact hrun.2

/-! ## Every run -/

/-- Whatever those who follow the purchases are told is true. They are told of purchases in the order
in which checkouts have reported them, and of each at most once. A checkout reports a purchase when
its last submission ends and every transaction of it has got a hash: the last of these hashes, and
the destination that was ordered and that the transactions were built with. No other purchase has
been reported since that submission began. The id is that of the sale's project. -/
theorem run_tellsTruth (env : Environment σ) (start : Start) (interval : Nat) (isTracked : Bool)
    (world : σ) (acts : List (Act σ)) :
    let f := (initial start interval isTracked world).run env acts
    let play := (initial start interval isTracked world).play env acts
    (purchasesOf f.tracked).Sublist (salesIn play) ∧
      Throughout (fun earlier entry => entry.2.sales = [] ∨
        ∃ c ∈ f.checkouts, c.line.generation = entry.1 ∧
          ∃ (x : Checkout.Submission env c.setup (scenesIn entry.1 earlier)) (p : Purchase)
            (txHash : Hash), x.Concludes entry.2 p txHash ∧ p.purchaseTo = x.order.destination)
        play ∧
      ∀ notice ∈ f.tracked, ∃ project,
        f.director.context.project = some project ∧ notice.projectId = project.id := by
  have hfair := (run_filed (lived_keeping env) start interval isTracked world acts).fair
  have hbranded := run_branded env start interval isTracked world acts
  refine ⟨run_sales env start interval isTracked world acts, ?_, ?_⟩
  · intro earlier entry later hs
    obtain ⟨c, hc, hnumber, hscene⟩ := hfair earlier entry later hs
    rcases hscene.sold with hnone | ⟨x, p, txHash, hconcludes⟩
    · exact .inl hnone
    · have hto := (Checkout.purchaseFor_ok hconcludes.purchase_eq).2.1
      exact .inr ⟨c, hc, hnumber, x, p, txHash, hconcludes, hto⟩
  · intro notice hnotice
    obtain ⟨project, hproject, hid⟩ := Option.map_eq_some_iff.mp (hbranded notice hnotice).2
    exact ⟨project, hproject, hid.symm⟩

end Floor

/-- Collaborators of whom the wallet turns down the first transaction. -/
def Sample.moodyEnvironment : Environment Bool where
  account _ _ := some buyer
  ask call isAgreed := match call with
    | .send .. => (.now (if isAgreed then .ok (.replicate 32 7) else .error .userRejected), true)
    | call => ((environment.ask call ()).1, isAgreed)
  collect _ _ isAgreed := (none, isAgreed)
  abandon _ isAgreed := isAgreed

/-- A purchase for someone else is turned down in the wallet. All that is told is the one after it,
which is for the buyer. -/
example :
    let f : Floor Bool :=
      .initial ⟨none, some ⟨"chain"⟩, some ⟨"wallet"⟩, some Sample.project, none⟩ 10 true false
    let directed := List.replicate 2 (Floor.Act.director Sample.noon)
    (f.run Sample.moodyEnvironment ([.director Sample.noon, .feed 1, .director Sample.noon,
      .checkout 2] ++ directed ++
      [.post (.command (.purchase ⟨some (.replicate 20 2), none⟩)), .director Sample.noon,
        .checkout 2] ++ directed ++
      [.post (.command (.purchase ⟨none, none⟩)), .director Sample.noon, .checkout 2] ++
      directed ++ directed)).tracked =
      [⟨"proj-1", .replicate 32 7, Sample.buyer⟩] := by
  decide +kernel

end MintSale.Sale
