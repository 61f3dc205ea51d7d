import MintSale.Proofs.History
import MintSale.Proofs.WatchDesk

/-!
# What becomes of notices

Notices that wait when a watch leaves are lost. A watch that is not told to stop leaves none behind,
and what is in the ledger is taken up by the next watch, provided all that is open there can be
read.
-/

namespace MintSale

open History

/-! ## What can be read -/

/-- What comes of a pass that fails with its first failure. -/
theorem exists_mapM_ok_iff {α β ε : Type} (f : α → Except ε β) (xs : List α) :
    (∃ ys, xs.mapM f = .ok ys) ↔ ∀ x ∈ xs, ∃ y, f x = .ok y := by
  induction xs with
  | nil => exact ⟨fun _ _ hmem => by simp at hmem, fun _ => ⟨[], rfl⟩⟩
  | cons x xs ih =>
      rw [List.forall_mem_cons, ← ih, List.mapM_cons]
      cases hx : f x with
      | error e => simp [bind, Except.bind]
      | ok y => cases hxs : xs.mapM f <;> simp [bind, Except.bind, pure, Except.pure]

theorem mem_of_mapM_ok {α β ε : Type} {f : α → Except ε β} {xs : List α} {ys : List β}
    (h : xs.mapM f = .ok ys) {x : α} (hmem : x ∈ xs) {y : β} (hx : f x = .ok y) : y ∈ ys := by
  induction xs generalizing ys with
  | nil => simp at hmem
  | cons other xs ih =>
      rw [List.mapM_cons] at h
      cases hother : f other with
      | error e => simp [hother, bind, Except.bind] at h
      | ok z =>
          cases hxs : xs.mapM f with
          | error e => simp [hother, hxs, bind, Except.bind] at h
          | ok zs =>
              obtain rfl : z :: zs = ys := by
                simpa [hother, hxs, bind, Except.bind, pure, Except.pure] using h
              rcases List.mem_cons.mp hmem with rfl | hmem
              · obtain rfl : z = y := by simpa [hother] using hx
                exact List.mem_cons_self
              · exact List.mem_cons_of_mem _ (ih hxs hmem)

namespace Ledger

variable {l : Ledger} {txHash : Hash}

/-- All that is open can be read. -/
def IsLegible (l : Ledger) : Prop :=
  ∀ row ∈ l.rows, row.status = .submitted → ∃ txHash : Hash, Octets.parse row.txHash = .ok txHash

theorem isLegible_iff : l.IsLegible ↔ ∃ hashes, l.pending = .ok hashes := by
  rw [pending, exists_mapM_ok_iff]
  simp [IsLegible]

theorem parse_toText (txHash : Hash) : Octets.parse txHash.toText = .ok txHash := by
  rw [Octets.parse, txHash.ofText?_toText]

/-- A watch that comes follows an open purchase if it can read the ledger. -/
theorem mem_resume_iff (hopen : txHash.toText ∈ l.openTexts) :
    txHash ∈ (ReceiptWatch.resume l).pending ↔ l.IsLegible := by
  rw [isLegible_iff, ReceiptWatch.resume]
  cases hpending : l.pending with
  | error fault => simp
  | ok hashes =>
      obtain ⟨row, hrow, hstatus, htext⟩ := mem_openTexts.mp hopen
      have hmem : row ∈ l.rows.filter fun row => row.status = .submitted := by
        simpa using ⟨hrow, hstatus⟩
      simpa using mem_of_mapM_ok hpending hmem (htext ▸ parse_toText txHash)

/-! ## What stays -/

variable (now : Timestamp) (projectId : String) (other : Hash) (purchaseTo : Address)

theorem Knows.insert (h : l.Knows txHash) :
    (l.insert now projectId other purchaseTo).2.Knows txHash :=
  knows_insert_iff.mpr (.inl h)

theorem knows_insert : (l.insert now projectId txHash purchaseTo).2.Knows txHash :=
  knows_insert_iff.mpr (.inr rfl)

theorem isLegible_insert : (l.insert now projectId other purchaseTo).2.IsLegible ↔ l.IsLegible := by
  by_cases hknown : l.Knows other
  · rw [insert_of_knows hknown]
    rfl
  · rw [insert_of_not_knows hknown]
    simp [IsLegible, or_imp, forall_and, newRow, parse_toText]

variable (status : PurchaseStatus) (blockNumber : UInt64)

theorem Knows.mark (h : l.Knows txHash) : (l.mark now other status blockNumber).Knows txHash := by
  obtain ⟨row, hrow, htext⟩ := h
  refine ⟨_, List.mem_map_of_mem hrow, ?_⟩
  split <;> exact htext

theorem isLegible_mark : (l.mark now other status blockNumber).IsLegible ↔ l.IsLegible := by
  simp only [IsLegible, Ledger.mark, List.forall_mem_map]
  refine forall₂_congr fun row _ => ?_
  split
  · next htext => simp [htext, parse_toText]
  · rfl

end Ledger

/-! ## What an act does to the ledger -/

theorem ReceiptWatch.record_ledger (w : ReceiptWatch) (now : Timestamp) (notice : Notice)
    (l : Ledger) : (w.record now notice l).2 =
      (l.insert now notice.projectId notice.txHash notice.purchaseTo).2 := by
  unfold record
  split <;> next h => rw [h]

section

variable {P : Ledger → Prop}
  (hmark : ∀ l now txHash status blockNumber, P l → P (l.mark now txHash status blockNumber))

include hmark

theorem ReceiptWatch.roundOver_ledger (lookup : Hash → Answer) (hashes : List Hash) {l : Ledger}
    (h : P l) : P (roundOver lookup hashes l).2 := by
  induction hashes generalizing l with
  | nil => exact h
  | cons txHash rest ih =>
      refine ih ?_
      rcases hanswer : (lookup txHash).receipt with fault | receipt | receipt
      · exact h
      · exact h
      · exact hmark _ _ _ _ _ h

/-- Entries and marks are all that changes the ledger. -/
theorem WatchDesk.act_ledger {d : WatchDesk}
    (hinsert : ∀ l now projectId txHash purchaseTo, P l →
      P (l.insert now projectId txHash purchaseTo).2)
    (h : P d.ledger) (act : Act) : P (d.act act).ledger := by
  cases act with
  | start => simp only [WatchDesk.act, WatchDesk.start]; split <;> exact h
  | post notice => simp only [WatchDesk.act, WatchDesk.post]; split <;> exact h
  | take now =>
      simp only [WatchDesk.act, WatchDesk.take]
      split
      · rw [ReceiptWatch.record_ledger]
        exact hinsert _ _ _ _ _ h
      · exact h
  | round lookup =>
      simp only [WatchDesk.act, WatchDesk.round]
      split
      · exact ReceiptWatch.roundOver_ledger hmark lookup _ h
      · exact h
  | cancel => exact h
  | close => exact h
  | leave => simp only [WatchDesk.act, WatchDesk.leave]; split <;> exact h

end

namespace WatchDesk

variable {d : WatchDesk} {txHash : Hash} {notice : Notice}

theorem run_concat (d : WatchDesk) (acts : List Act) (act : Act) :
    d.run (acts ++ [act]) = (d.run acts).act act := by
  simp [run]

theorem knows_act (h : d.ledger.Knows txHash) (act : Act) : (d.act act).ledger.Knows txHash :=
  act_ledger (P := fun l => l.Knows txHash) (fun _ _ _ _ _ h => h.mark _ _ _ _)
    (fun _ _ _ _ _ h => h.insert _ _ _ _) h act

theorem isLegible_run (d : WatchDesk) (acts : List Act) :
    (d.run acts).ledger.IsLegible ↔ d.ledger.IsLegible := by
  induction acts generalizing d with
  | nil => rfl
  | cons act acts ih =>
      refine (ih (d.act act)).trans ?_
      refine act_ledger (P := fun l => l.IsLegible ↔ d.ledger.IsLegible) ?_ ?_ Iff.rfl act
      · exact fun _ _ _ _ _ h => (Ledger.isLegible_mark _ _ _ _).trans h
      · exact fun _ _ _ _ _ h => (Ledger.isLegible_insert _ _ _ _).trans h

/-! ## What is entrusted to a desk -/

/-- Whether a watch is there that has not been told to stop, and can be sent notices. -/
def isOpen (d : WatchDesk) : Bool :=
  d.watch.isSome && !d.isClosed && !d.isCancelled

/-- A notice is sent in a run while the desk is open. -/
def Entrusts (d : WatchDesk) (acts : List Act) (notice : Notice) : Prop :=
  ∃ earlier later, acts = earlier ++ .post notice :: later ∧ (d.run earlier).isOpen

theorem entrusts_concat {acts : List Act} {act : Act} (h : d.Entrusts (acts ++ [act]) notice) :
    d.Entrusts acts notice ∨ act = .post notice ∧ (d.run acts).isOpen := by
  obtain ⟨earlier, later, hacts, hopen⟩ := h
  rcases List.eq_nil_or_concat later with rfl | ⟨later, last, rfl⟩
  · obtain ⟨rfl, rfl⟩ := List.append_inj' hacts rfl |>.imp_right List.cons.inj |>.imp_right And.left
    exact .inr ⟨rfl, hopen⟩
  · refine .inl ⟨earlier, later, ?_, hopen⟩
    have hacts' : acts ++ [act] = (earlier ++ .post notice :: later) ++ [last] := by
      simpa using hacts
    exact (List.append_inj' hacts' rfl).1

/-- Nobody waits at a desk without a watch. -/
def IsTidy (d : WatchDesk) : Prop :=
  d.watch = none → d.inbox = []

theorem IsTidy.act (h : d.IsTidy) (act : Act) : (d.act act).IsTidy := by
  cases act with
  | start =>
      simp only [WatchDesk.act, WatchDesk.start]
      split
      · intro hnone
        cases hnone
      · exact h
  | post notice =>
      simp only [WatchDesk.act, WatchDesk.post]
      split
      · next hpost =>
        intro hnone
        simp [show d.watch = none from hnone] at hpost
      · exact h
  | take now =>
      simp only [WatchDesk.act, WatchDesk.take]
      split
      · intro hnone
        cases hnone
      · exact h
  | round lookup =>
      simp only [WatchDesk.act, WatchDesk.round]
      split
      · intro hnone
        cases hnone
      · exact h
  | cancel => exact h
  | close => exact h
  | leave =>
      simp only [WatchDesk.act, WatchDesk.leave]
      split
      · exact fun _ => rfl
      · exact h

theorem IsTidy.run (h : d.IsTidy) (acts : List Act) : (d.run acts).IsTidy := by
  induction acts generalizing d with
  | nil => exact h
  | cons act acts ih => exact ih (h.act act)

/-- A purchase is in the ledger, or the notice of it waits. -/
def Minds (d : WatchDesk) (notice : Notice) : Prop :=
  d.ledger.Knows notice.txHash ∨ notice ∈ d.inbox

/-- A purchase slips from the desk only when a watch leaves that has been told to stop. -/
theorem Minds.act (h : d.Minds notice) (htidy : d.IsTidy) (act : Act)
    (hkept : act = .leave → d.isCancelled → notice ∈ d.inbox → d.ledger.Knows notice.txHash) :
    (d.act act).Minds notice := by
  rcases h with hknown | hwaits
  · exact .inl (knows_act hknown act)
  · cases act with
    | start =>
        simp only [WatchDesk.act, WatchDesk.start]
        split
        · next hnone => simp [htidy hnone] at hwaits
        · exact .inr hwaits
    | post notice =>
        simp only [WatchDesk.act, WatchDesk.post]
        split
        · exact .inr (List.mem_append_left _ hwaits)
        · exact .inr hwaits
    | take now =>
        simp only [WatchDesk.act, WatchDesk.take]
        split
        · next watch first inbox _ hinbox =>
          rcases List.mem_cons.mp (hinbox ▸ hwaits) with rfl | hwaits
          · refine .inl ?_
            rw [ReceiptWatch.record_ledger]
            exact Ledger.knows_insert _ _ _
          · exact .inr hwaits
        · exact .inr hwaits
    | round lookup =>
        simp only [WatchDesk.act, WatchDesk.round]
        split <;> exact .inr hwaits
    | cancel => exact .inr hwaits
    | close => exact .inr hwaits
    | leave =>
        simp only [WatchDesk.act, WatchDesk.leave]
        split
        · next hleave =>
          refine .inl (hkept rfl ?_ hwaits)
          cases hcancelled : d.isCancelled with
          | true => rfl
          | false =>
              have hempty : d.isClosed ∧ d.inbox = [] := by
                simpa [mayLeave, hcancelled] using hleave
              simp [hempty.2] at hwaits
        · exact .inr hwaits

/-- Whatever is entrusted to the desk is in the ledger by the time that a watch leaves which has
been told to stop. -/
def IsThorough (d : WatchDesk) (acts : List Act) : Prop :=
  Throughout (fun before act => act = .leave → (d.run before).isCancelled →
    ∀ notice ∈ (d.run before).inbox, d.Entrusts before notice →
      (d.run before).ledger.Knows notice.txHash) acts

theorem IsThorough.minds {acts : List Act} (h : d.IsThorough acts) (htidy : d.IsTidy)
    (hnotice : d.Entrusts acts notice) : (d.run acts).Minds notice := by
  induction acts using List.reverseRecOn with
  | nil =>
      obtain ⟨earlier, later, hacts, _⟩ := hnotice
      simp at hacts
  | append_singleton acts act ih =>
      have hacts : d.IsThorough acts := ((throughout_append_iff _ _ _).mp h).1
      rw [run_concat]
      rcases entrusts_concat hnotice with hnotice | ⟨rfl, hopen⟩
      · refine (ih hacts hnotice).act (htidy.run acts) act fun hleave hcancelled hwaits => ?_
        exact h acts act [] rfl hleave hcancelled notice hwaits hnotice
      · refine .inr ?_
        have hpost : ((d.run acts).watch.isSome && !(d.run acts).isClosed) = true :=
          (Bool.and_eq_true_iff.mp hopen).1
        simp [WatchDesk.act, post, hpost]

/-! ## What is on record -/

/-- A purchase is in the ledger, and a watch that comes follows it if it is open. -/
structure HasOnRecord (d : WatchDesk) (notice : Notice) : Prop where
  knows : d.ledger.Knows notice.txHash
  resumes : notice.txHash.toText ∈ d.ledger.openTexts →
    ∃ watch, d.start.watch = some watch ∧ notice.txHash ∈ watch.pending

/-- Whenever there is no watch, all that has been entrusted to the desk is on record. -/
def KeepsRecord (d : WatchDesk) (acts : List Act) : Prop :=
  ∀ before, before <+: acts → (d.run before).watch = none →
    ∀ notice, d.Entrusts before notice → (d.run before).HasOnRecord notice

/-- Whenever there is no watch, nothing that has been entrusted to the desk is open. -/
def LeavesNothingOpen (d : WatchDesk) (acts : List Act) : Prop :=
  ∀ before, before <+: acts → (d.run before).watch = none →
    ∀ notice, d.Entrusts before notice →
      notice.txHash.toText ∉ (d.run before).ledger.openTexts

theorem resumes_iff (hnone : d.watch = none) (hopen : txHash.toText ∈ d.ledger.openTexts) :
    (∃ watch, d.start.watch = some watch ∧ txHash ∈ watch.pending) ↔ d.ledger.IsLegible := by
  simp [start, hnone, ← Ledger.mem_resume_iff hopen]

theorem isThorough_of_keepsRecord {acts : List Act} (h : d.KeepsRecord acts) :
    d.IsThorough acts := by
  rintro before act later rfl rfl hcancelled notice _ hnotice
  have hleft : (d.run (before ++ [.leave])).watch = none ∧
      (d.run (before ++ [.leave])).ledger = (d.run before).ledger := by
    simp [run_concat, WatchDesk.act, leave, mayLeave, hcancelled]
  obtain ⟨earlier, middle, rfl, hopen⟩ := hnotice
  have hlater : d.Entrusts ((earlier ++ .post notice :: middle) ++ [.leave]) notice :=
    ⟨earlier, middle ++ [.leave], by simp, hopen⟩
  have hknown := (h _ ⟨later, by simp⟩ hleft.1 notice hlater).knows
  rwa [hleft.2] at hknown

/-- In every run over any ledger, all that is entrusted to the desk is on record whenever there is
no watch exactly if no watch that has been told to stop leaves before it has taken what is new, and
the ledger could be read from the start unless nothing is left open. -/
theorem run_keepsRecord_iff (ledger : Ledger) (acts : List Act) :
    (vacant ledger).KeepsRecord acts ↔
      (vacant ledger).IsThorough acts ∧
        (ledger.IsLegible ∨ (vacant ledger).LeavesNothingOpen acts) := by
  have htidy : (vacant ledger).IsTidy := fun _ => rfl
  have hlegible := isLegible_run (vacant ledger)
  constructor
  · intro h
    refine ⟨isThorough_of_keepsRecord h, or_iff_not_imp_left.mpr fun hillegible => ?_⟩
    intro before hbefore hnone notice hnotice hopen
    have hresumes := (h before hbefore hnone notice hnotice).resumes hopen
    exact hillegible ((hlegible before).mp ((resumes_iff hnone hopen).mp hresumes))
  · rintro ⟨hthorough, hread⟩ before ⟨later, rfl⟩ hnone notice hnotice
    have hminds := IsThorough.minds ((throughout_append_iff _ _ _).mp hthorough).1 htidy hnotice
    refine ⟨?_, fun hopen => (resumes_iff hnone hopen).mpr ((hlegible before).mpr ?_)⟩
    · simpa [Minds, htidy.run before hnone] using hminds
    · exact hread.resolve_right fun hover => hover before ⟨later, rfl⟩ hnone notice hnotice hopen

/-- A watch is told to stop and leaves while a notice waits: its purchase is not on record. Another
one takes its notice in time, but the next watch follows nothing, as it cannot read a row that was
there before. -/
theorem run_loses_notice :
    let notice : Notice := ⟨"proj-1", .replicate 32 7, .replicate 20 1⟩
    let now : Timestamp := ⟨⟨2024, 6, 11⟩, 0, 0, by decide⟩
    ¬ (vacant .empty).KeepsRecord [.start, .post notice, .cancel, .leave] ∧
      ¬ (vacant (Ledger.empty.insertText now "a" "junk" "?").2).KeepsRecord
        [.start, .post notice, .take now, .cancel, .leave] := by
  intro notice now
  constructor
  · intro h
    obtain ⟨row, hrow, _⟩ :=
      (h _ (List.prefix_refl _) rfl notice ⟨[.start], [.cancel, .leave], rfl, rfl⟩).knows
    exact absurd hrow List.not_mem_nil
  · intro h
    have hresumes := (h _ (List.prefix_refl _) rfl notice
      ⟨[.start], [.take now, .cancel, .leave], rfl, rfl⟩).resumes (by decide +kernel)
    obtain ⟨watch, hwatch, hmem⟩ := hresumes
    obtain rfl : (⟨[]⟩ : ReceiptWatch) = watch := Option.some.inj (hwatch ▸ by decide +kernel)
    exact absurd hmem List.not_mem_nil

end WatchDesk

end MintSale
