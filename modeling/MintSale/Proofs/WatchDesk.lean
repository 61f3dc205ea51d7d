import MintSale.Proofs.Ledger
import MintSale.WatchDesk

/-!
# What a watch makes of purchases

As long as it is on duty, a watch follows the purchases that are open in the ledger, no more and no
less. The chain decides once about each of them, and nothing changes that afterwards.
-/

namespace MintSale

/-! ## Receipts -/

/-- A transaction that is asked for, and the answer. -/
abbrev Inquiry := Hash × ReceiptWatch.Answer

/-- A receipt, and the time at which it is there. -/
structure DatedReceipt where
  receipt : Receipt
  time : Timestamp

/-- The answer that brings a receipt. -/
def DatedReceipt.answer (dated : DatedReceipt) : ReceiptWatch.Answer :=
  ⟨.ok (some dated.receipt), dated.time⟩

/-- The receipt in an answer, if there is one. -/
def receiptIn : ReceiptWatch.Answer → Option DatedReceipt
  | ⟨.ok (some receipt), time⟩ => some ⟨receipt, time⟩
  | _ => none

theorem receiptIn_eq_some_iff {answer : ReceiptWatch.Answer} {dated : DatedReceipt} :
    receiptIn answer = some dated ↔ answer = dated.answer := by
  obtain ⟨fault | receipt | receipt, time⟩ := answer
  · simp [receiptIn, DatedReceipt.answer]
  · simp [receiptIn, DatedReceipt.answer]
  · cases dated
    simp [receiptIn, DatedReceipt.answer]

section

variable (lookup : Hash → ReceiptWatch.Answer) {hashes : List Hash} {txHash : Hash}

/-- The receipt that a round over transactions brings for one, by its spelling. -/
def receipt? (hashes : List Hash) (text : String) : Option DatedReceipt :=
  (hashes.find? fun txHash => txHash.toText = text).bind fun txHash => receiptIn (lookup txHash)

theorem receipt?_of_forall_ne {text : String} (h : ∀ txHash ∈ hashes, txHash.toText ≠ text) :
    receipt? lookup hashes text = none := by
  have hnone : (hashes.find? fun txHash => txHash.toText = text) = none := by simpa using h
  rw [receipt?, hnone]
  rfl

theorem receipt?_of_mem (h : txHash ∈ hashes) :
    receipt? lookup hashes txHash.toText = receiptIn (lookup txHash) := by
  have hsome : (hashes.find? fun other => other.toText = txHash.toText) = some txHash := by
    cases hfind : hashes.find? fun other => other.toText = txHash.toText with
    | none => simpa using List.find?_eq_none.mp hfind txHash h
    | some other =>
        have hother : other.toText = txHash.toText := by simpa using List.find?_some hfind
        rw [Octets.toText_injective hother]
  rw [receipt?, hsome]
  rfl

theorem mem_of_receipt? {lookup} {text : String} {dated : DatedReceipt}
    (h : receipt? lookup hashes text = some dated) :
    ∃ txHash ∈ hashes, text = txHash.toText ∧ lookup txHash = dated.answer := by
  obtain ⟨txHash, hfind, hanswer⟩ := Option.bind_eq_some_iff.mp h
  have htext : txHash.toText = text := by simpa using List.find?_some hfind
  exact ⟨txHash, List.mem_of_find?_eq_some hfind, htext.symm, receiptIn_eq_some_iff.mp hanswer⟩

end

namespace PurchaseRow

/-- A row once there is a receipt for its purchase. -/
def settledBy (row : PurchaseRow) (dated : DatedReceipt) : PurchaseRow :=
  { row with
    status := if dated.receipt.success then .confirmed else .reverted
    blockNumber := some dated.receipt.blockNumber.toInt64
    updatedAt := Ledger.timeText dated.time }

/-- What becomes of a row by answers: a receipt for its own transaction settles it if it is open,
and nothing else does. -/
inductive Fate (inquiries : List Inquiry) (row : PurchaseRow) : PurchaseRow → Prop where
  | kept : (∀ txHash (dated : DatedReceipt), row.txHash = txHash.toText →
      (txHash, dated.answer) ∉ inquiries) → Fate inquiries row row
  | settled (txHash : Hash) (dated : DatedReceipt) : row.txHash = txHash.toText →
      (txHash, dated.answer) ∈ inquiries → row.status = .submitted →
      Fate inquiries row (row.settledBy dated)

/-- What a receipt makes of a row, if there is one. -/
def given (row : PurchaseRow) (dated : Option DatedReceipt) : PurchaseRow :=
  dated.elim row row.settledBy

variable (row : PurchaseRow)

@[simp] theorem given_none : row.given none = row := rfl

@[simp] theorem given_some (dated : DatedReceipt) : row.given (some dated) = row.settledBy dated :=
  rfl

@[simp] theorem given_id (dated : Option DatedReceipt) : (row.given dated).id = row.id := by
  cases dated <;> rfl

@[simp] theorem given_txHash (dated : Option DatedReceipt) :
    (row.given dated).txHash = row.txHash := by
  cases dated <;> rfl

theorem mem_of_fate {inquiries : List Inquiry} {rows kept : List PurchaseRow}
    (h : List.Forall₂ (Fate inquiries) rows kept) {row : PurchaseRow} (hrow : row ∈ rows)
    (hover : row.status ≠ .submitted) : row ∈ kept := by
  induction h with
  | nil => exact hrow
  | cons hfate _ ih =>
      rcases List.mem_cons.mp hrow with rfl | hrow
      · cases hfate with
        | kept _ => exact List.mem_cons_self
        | settled _ _ _ _ hopen => exact absurd hopen hover
      · exact List.mem_cons_of_mem _ (ih hrow)

theorem given_isOpen_iff (dated : Option DatedReceipt) :
    (row.given dated).status = .submitted ↔ dated = none ∧ row.status = .submitted := by
  cases dated with
  | none => simp
  | some dated => cases hsuccess : dated.receipt.success <;> simp [settledBy, hsuccess]

end PurchaseRow

/-- The ledger after a round over transactions. -/
def Ledger.after (l : Ledger) (lookup : Hash → ReceiptWatch.Answer) (hashes : List Hash) : Ledger :=
  { l with rows := l.rows.map fun row => row.given (receipt? lookup hashes row.txHash) }

namespace ReceiptWatch

variable (lookup : Hash → Answer)

theorem settle_eq (txHash : Hash) (l : Ledger) :
    settle txHash (lookup txHash) l =
      (decide (receiptIn (lookup txHash) = none), l.after lookup [txHash]) := by
  have hrow : ∀ row : PurchaseRow, row.given (receipt? lookup [txHash] row.txHash) =
      if row.txHash = txHash.toText then row.given (receiptIn (lookup txHash)) else row := by
    intro row
    split
    · next htext => rw [htext, receipt?_of_mem lookup List.mem_cons_self]
    · next htext => rw [receipt?_of_forall_ne lookup (by simpa using Ne.symm htext), row.given_none]
  simp only [Ledger.after, hrow]
  obtain ⟨fault | receipt | receipt, time⟩ := lookup txHash
  · simp [settle, receiptIn]
  · simp [settle, receiptIn]
  · simp [settle, receiptIn, Ledger.mark, PurchaseRow.settledBy]

theorem after_cons {txHash : Hash} {hashes : List Hash} (hnew : txHash ∉ hashes) (l : Ledger) :
    l.after lookup (txHash :: hashes) = (l.after lookup [txHash]).after lookup hashes := by
  have hrow : ∀ row : PurchaseRow, row.given (receipt? lookup (txHash :: hashes) row.txHash) =
      (row.given (receipt? lookup [txHash] row.txHash)).given
        (receipt? lookup hashes row.txHash) := by
    intro row
    by_cases htext : txHash.toText = row.txHash
    · have hothers : ∀ other ∈ hashes, other.toText ≠ txHash.toText := by
        intro other hmem heq
        exact hnew (Octets.toText_injective heq ▸ hmem)
      rw [← htext, receipt?_of_mem lookup List.mem_cons_self,
        receipt?_of_mem lookup List.mem_cons_self, receipt?_of_forall_ne lookup hothers,
        PurchaseRow.given_none]
    · have hsingle : ∀ other ∈ [txHash], other.toText ≠ row.txHash := by simpa using htext
      rw [receipt?_of_forall_ne lookup hsingle, row.given_none]
      simp [receipt?, htext]
  simp [Ledger.after, hrow]

/-- A round asks for each transaction once and goes on with those without a receipt. -/
theorem roundOver_eq {hashes : List Hash} (hnodup : hashes.Nodup) (l : Ledger) :
    roundOver lookup hashes l =
      (hashes.filter fun txHash => receiptIn (lookup txHash) = none, l.after lookup hashes) := by
  induction hashes generalizing l with
  | nil => simp [roundOver, Ledger.after, receipt?]
  | cons txHash rest ih =>
      obtain ⟨hnew, hrest⟩ := List.nodup_cons.mp hnodup
      rw [roundOver, settle_eq, after_cons lookup hnew]
      dsimp only
      rw [ih hrest]
      by_cases hreceipt : receiptIn (lookup txHash) = none <;> simp [hreceipt]

theorem roundOver_congr {lookup lookup' : Hash → Answer} {hashes : List Hash}
    (h : ∀ txHash ∈ hashes, lookup txHash = lookup' txHash) (l : Ledger) :
    roundOver lookup hashes l = roundOver lookup' hashes l := by
  induction hashes generalizing l with
  | nil => rfl
  | cons txHash rest ih =>
      have hrest := ih fun other hmem => h other (List.mem_cons_of_mem _ hmem)
      simp only [roundOver, h txHash List.mem_cons_self, hrest]

/-- What is still followed after a round is what is still open then. -/
theorem openTexts_after {l : Ledger} {hashes : List Hash}
    (h : hashes.map Octets.toText = l.openTexts) :
    (l.after lookup hashes).openTexts =
      (hashes.filter fun txHash => receiptIn (lookup txHash) = none).map Octets.toText := by
  have hown : ∀ txHash ∈ hashes, decide (receipt? lookup hashes txHash.toText = none) =
      decide (receiptIn (lookup txHash) = none) :=
    fun txHash hmem => by rw [receipt?_of_mem lookup hmem]
  calc (l.after lookup hashes).openTexts
      = ((l.rows.filter fun row => row.status = .submitted).filter fun row =>
          receipt? lookup hashes row.txHash = none).map (·.txHash) := by
        simp [Ledger.openTexts, Ledger.after, List.filter_map, Function.comp_def,
          PurchaseRow.given_isOpen_iff, List.filter_filter]
    _ = l.openTexts.filter fun text => receipt? lookup hashes text = none := by
        rw [Ledger.openTexts, List.filter_map]
        rfl
    _ = (hashes.filter fun txHash => receiptIn (lookup txHash) = none).map Octets.toText := by
        rw [← h, List.filter_map, ← List.filter_congr hown]
        rfl

end ReceiptWatch

namespace WatchDesk

/-! ## The desk -/

/-- What the watch asks for in an act, with the answers. -/
def inquiries (d : WatchDesk) : Act → List Inquiry
  | .round lookup =>
    match d.watch with
    | some watch => watch.pending.map fun txHash => (txHash, lookup txHash)
    | none => []
  | _ => []

/-- The rows that an act adds to the ledger: a row for a notice of a transaction that is new. -/
def added (d : WatchDesk) : Act → List PurchaseRow
  | .take now =>
    match d.watch, d.inbox with
    | some _, notice :: _ =>
      if d.ledger.Knows notice.txHash then []
      else [d.ledger.newRow now notice.projectId notice.txHash notice.purchaseTo]
    | _, _ => []
  | _ => []

/-- The ledger is in order, and the watch follows what is open in it. -/
structure Faithful (d : WatchDesk) : Prop where
  sound : d.ledger.Sound
  follows : ∀ watch, d.watch = some watch →
    watch.pending.map Octets.toText = d.ledger.openTexts

theorem faithful_vacant : (vacant .empty).Faithful :=
  ⟨Ledger.sound_empty, nofun⟩

variable {d : WatchDesk}

theorem Faithful.nodup (h : d.Faithful) {watch : ReceiptWatch} (hwatch : d.watch = some watch) :
    watch.pending.Nodup := by
  have hnodup := h.sound.nodup_openTexts
  rw [← h.follows watch hwatch] at hnodup
  exact hnodup.of_map _

theorem Faithful.start (h : d.Faithful) : d.start.Faithful := by
  unfold WatchDesk.start
  split
  · obtain ⟨hashes, hread, htexts⟩ := h.sound.exists_pending
    refine ⟨h.sound, ?_⟩
    rintro watch ⟨⟩
    simpa [ReceiptWatch.resume, hread, vacant] using htexts
  · exact h

theorem Faithful.take (h : d.Faithful) (now : Timestamp) : (d.take now).Faithful := by
  unfold WatchDesk.take
  split
  · next watch notice inbox hwatch _ =>
    have hsound := h.sound.insert now notice.projectId notice.txHash notice.purchaseTo
    unfold ReceiptWatch.record
    by_cases hknown : d.ledger.Knows notice.txHash
    · rw [Ledger.insert_of_knows hknown] at hsound ⊢
      refine ⟨hsound, ?_⟩
      rintro watch ⟨⟩
      exact h.follows _ hwatch
    · rw [Ledger.insert_of_not_knows hknown] at hsound ⊢
      refine ⟨hsound, ?_⟩
      rintro watch ⟨⟩
      simp [Ledger.openTexts, Ledger.newRow, h.follows _ hwatch]
  · exact h

theorem Faithful.round (h : d.Faithful) (lookup : Hash → ReceiptWatch.Answer) :
    (d.round lookup).Faithful := by
  unfold WatchDesk.round
  split
  · next watch hwatch =>
    simp only [ReceiptWatch.round, ReceiptWatch.roundOver_eq lookup (h.nodup hwatch)]
    refine ⟨h.sound.map (by simp) (by simp), ?_⟩
    rintro watch ⟨⟩
    exact (ReceiptWatch.openTexts_after lookup (h.follows _ hwatch)).symm
  · exact h

theorem Faithful.act (h : d.Faithful) (act : Act) : (d.act act).Faithful := by
  cases act with
  | start => exact h.start
  | post notice =>
      simp only [WatchDesk.act, WatchDesk.post]
      split
      · exact ⟨h.sound, h.follows⟩
      · exact h
  | take now => exact h.take now
  | round lookup => exact h.round lookup
  | cancel => exact ⟨h.sound, h.follows⟩
  | close => exact ⟨h.sound, h.follows⟩
  | leave =>
      simp only [WatchDesk.act, WatchDesk.leave]
      split
      · exact ⟨h.sound, nofun⟩
      · exact h

theorem Faithful.run (h : d.Faithful) (acts : List Act) : (d.run acts).Faithful := by
  induction acts generalizing d with
  | nil => exact h
  | cons act acts ih => exact ih (h.act act)

/-! ## What becomes of the rows -/

theorem Faithful.isOpen_of_inquiry (h : d.Faithful) {act : Act} {inquiry : Inquiry}
    (hmem : inquiry ∈ d.inquiries act) : inquiry.1.toText ∈ d.ledger.openTexts := by
  unfold inquiries at hmem
  split at hmem
  · split at hmem
    · next lookup watch hwatch =>
      obtain ⟨txHash, hpending, rfl⟩ := List.mem_map.mp hmem
      rw [← h.follows watch hwatch]
      exact List.mem_map_of_mem hpending
    · simp at hmem
  · simp at hmem

/-- A round depends on nothing but the answers to what it asks. -/
theorem round_congr (d : WatchDesk) {lookup lookup' : Hash → ReceiptWatch.Answer}
    (h : d.inquiries (.round lookup) = d.inquiries (.round lookup')) :
    d.round lookup = d.round lookup' := by
  unfold WatchDesk.round
  cases hwatch : d.watch with
  | none => rfl
  | some watch =>
      simp only [inquiries, hwatch] at h
      have hsame : ∀ txHash ∈ watch.pending, lookup txHash = lookup' txHash :=
        fun txHash hmem => (Prod.mk.inj (List.map_inj_left.mp h txHash hmem)).2
      simp only [ReceiptWatch.round, ReceiptWatch.roundOver_congr hsame]

theorem Faithful.fate_after (h : d.Faithful) {watch : ReceiptWatch} (hwatch : d.watch = some watch)
    (lookup : Hash → ReceiptWatch.Answer) {row : PurchaseRow} (hrow : row ∈ d.ledger.rows) :
    row.Fate (watch.pending.map fun txHash => (txHash, lookup txHash))
      (row.given (receipt? lookup watch.pending row.txHash)) := by
  cases hreceipt : receipt? lookup watch.pending row.txHash with
  | none =>
      refine .kept fun txHash dated htext hmem => ?_
      obtain ⟨other, hpending, heq⟩ := List.mem_map.mp hmem
      obtain ⟨rfl, hanswer⟩ := Prod.mk.inj heq
      rw [htext, receipt?_of_mem lookup hpending, receiptIn_eq_some_iff.mpr hanswer] at hreceipt
      cases hreceipt
  | some dated =>
      obtain ⟨txHash, hpending, htext, hanswer⟩ := mem_of_receipt? hreceipt
      have hopen : row.txHash ∈ d.ledger.openTexts := by
        rw [← h.follows watch hwatch, htext]
        exact List.mem_map_of_mem hpending
      obtain ⟨other, hother, hstatus, heq⟩ := Ledger.mem_openTexts.mp hopen
      obtain rfl := h.sound.eq_of_txHash_eq hrow hother heq
      exact .settled txHash dated htext (List.mem_map.mpr ⟨txHash, hpending, by rw [hanswer]⟩) hstatus

theorem forall₂_fate_nil (rows : List PurchaseRow) :
    List.Forall₂ (PurchaseRow.Fate []) rows rows :=
  List.forall₂_same.mpr fun _ _ => .kept (by simp)

theorem Faithful.round_rows (h : d.Faithful) {watch : ReceiptWatch} (hwatch : d.watch = some watch)
    {lookup : Hash → ReceiptWatch.Answer} :
    (d.round lookup).ledger.rows =
      d.ledger.rows.map fun row => row.given (receipt? lookup watch.pending row.txHash) := by
  simp only [WatchDesk.round, hwatch, ReceiptWatch.round,
    ReceiptWatch.roundOver_eq lookup (h.nodup hwatch), Ledger.after]

theorem Faithful.act_rows (h : d.Faithful) (act : Act) :
    ∃ kept, List.Forall₂ (PurchaseRow.Fate (d.inquiries act)) d.ledger.rows kept ∧
      (d.act act).ledger.rows = kept ++ d.added act := by
  cases act with
  | round lookup =>
      simp only [WatchDesk.act, inquiries, added, List.append_nil]
      cases hwatch : d.watch with
      | none => exact ⟨_, forall₂_fate_nil _, by simp only [WatchDesk.round, hwatch]⟩
      | some watch =>
          refine ⟨_, ?_, h.round_rows hwatch⟩
          refine List.forall₂_map_right_iff.mpr (List.forall₂_same.mpr fun row hrow => ?_)
          exact h.fate_after hwatch lookup hrow
  | take now =>
      refine ⟨d.ledger.rows, forall₂_fate_nil _, ?_⟩
      simp only [WatchDesk.act, WatchDesk.take, added]
      cases d.watch with
      | none => simp
      | some watch =>
          cases d.inbox with
          | nil => simp
          | cons notice inbox =>
              unfold ReceiptWatch.record
              by_cases hknown : d.ledger.Knows notice.txHash
              · simp [Ledger.insert_of_knows hknown, hknown]
              · simp [Ledger.insert_of_not_knows hknown, hknown]
  | start =>
      refine ⟨d.ledger.rows, forall₂_fate_nil _, ?_⟩
      simp only [WatchDesk.act, WatchDesk.start, added, List.append_nil]
      split <;> rfl
  | post notice =>
      refine ⟨d.ledger.rows, forall₂_fate_nil _, ?_⟩
      simp only [WatchDesk.act, WatchDesk.post, added, List.append_nil]
      split <;> rfl
  | leave =>
      refine ⟨d.ledger.rows, forall₂_fate_nil _, ?_⟩
      simp only [WatchDesk.act, WatchDesk.leave, added, List.append_nil]
      split <;> rfl
  | cancel => exact ⟨d.ledger.rows, forall₂_fate_nil _, by simp [WatchDesk.act, added]⟩
  | close => exact ⟨d.ledger.rows, forall₂_fate_nil _, by simp [WatchDesk.act, added]⟩

/-- What an act at a desk does about purchases. -/
structure Handles (d : WatchDesk) (act : Act) : Prop where
  /-- Only open purchases are asked for. -/
  inquiries_open : ∀ inquiry ∈ d.inquiries act, inquiry.1.toText ∈ d.ledger.openTexts
  /-- Rows stay where they are, and new ones come last. -/
  rows : ∃ kept, List.Forall₂ (PurchaseRow.Fate (d.inquiries act)) d.ledger.rows kept ∧
    (d.act act).ledger.rows = kept ++ d.added act

theorem Faithful.handles (h : d.Faithful) (act : Act) : d.Handles act :=
  ⟨fun _ => h.isOpen_of_inquiry, h.act_rows act⟩

/-- A purchase is over: whatever is done at the desk, its row stays, it is the only one for its
transaction, and nobody asks for that any more. -/
def IsOver (d : WatchDesk) (row : PurchaseRow) : Prop :=
  ∀ later,
    row ∈ (d.run later).ledger.rows ∧
    (∀ other ∈ (d.run later).ledger.rows, other.txHash = row.txHash → other = row) ∧
    ∀ act, ∀ inquiry ∈ (d.run later).inquiries act, inquiry.1.toText ≠ row.txHash

theorem Faithful.mem_act (h : d.Faithful) {row : PurchaseRow} (hrow : row ∈ d.ledger.rows)
    (hover : row.status ≠ .submitted) (act : Act) : row ∈ (d.act act).ledger.rows := by
  obtain ⟨kept, hfate, hrows⟩ := h.act_rows act
  rw [hrows]
  exact List.mem_append_left _ (PurchaseRow.mem_of_fate hfate hrow hover)

theorem Faithful.mem_run (h : d.Faithful) {row : PurchaseRow} (hrow : row ∈ d.ledger.rows)
    (hover : row.status ≠ .submitted) (acts : List Act) : row ∈ (d.run acts).ledger.rows := by
  induction acts generalizing d with
  | nil => exact hrow
  | cons act acts ih => exact ih (h.act act) (h.mem_act hrow hover act)

theorem Faithful.isOver (h : d.Faithful) {row : PurchaseRow} (hrow : row ∈ d.ledger.rows)
    (hover : row.status ≠ .submitted) : d.IsOver row := by
  intro later
  have hlater := h.run later
  have hstays := h.mem_run hrow hover later
  refine ⟨hstays, fun other => hlater.sound.eq_of_txHash_eq hstays, ?_⟩
  intro act inquiry hmem heq
  obtain ⟨other, hother, hopen, htext⟩ :=
    Ledger.mem_openTexts.mp (hlater.isOpen_of_inquiry hmem)
  obtain rfl := hlater.sound.eq_of_txHash_eq hstays hother (htext.trans heq)
  exact hover hopen

/-- In every run over a new ledger the watch on duty follows exactly the open purchases, oldest
first and each once; no transaction has two rows; a row changes only by a receipt for its own
transaction, and never again. -/
theorem run_keepsTrack (acts : List Act) :
    let d := (vacant .empty).run acts
    (∀ watch, d.watch = some watch →
      watch.pending.map Octets.toText = d.ledger.openTexts ∧ watch.pending.Nodup ∧
      d.ledger.pending = .ok watch.pending) ∧
    (d.ledger.rows.Pairwise fun older newer => older.id < newer.id) ∧
    (d.ledger.rows.map (·.txHash)).Nodup ∧
    (∀ act, d.Handles act) ∧
    (∀ lookup lookup', d.inquiries (.round lookup) = d.inquiries (.round lookup') →
      d.round lookup = d.round lookup') ∧
    ∀ row ∈ d.ledger.rows, row.status ≠ .submitted → d.IsOver row := by
  intro d
  have h : d.Faithful := faithful_vacant.run acts
  refine ⟨fun watch hwatch => ?_, h.sound.ids_increase, h.sound.nodup, h.handles,
    fun _ _ => d.round_congr, fun row => h.isOver⟩
  exact ⟨h.follows watch hwatch, h.nodup hwatch, h.sound.pending_eq (h.follows watch hwatch)⟩

end WatchDesk

end MintSale
