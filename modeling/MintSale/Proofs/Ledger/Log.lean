import Mathlib.Data.List.Forall2
import Mathlib.Data.List.Induction
import MintSale.Proofs.Ledger

/-!
# The ledger as a log

What is recorded depends on nothing but the changes that were made. Of the entries for a transaction
only the first one counts, and of the marks that came after it only the last one. Each of the two
leaves its time behind.
-/

namespace MintSale

/-- What a transaction is marked with, and when. -/
structure Mark where
  time : Timestamp
  status : PurchaseStatus
  blockNumber : UInt64

/-- A row once it has been marked, if it has. -/
def PurchaseRow.marked (row : PurchaseRow) : Option Mark → PurchaseRow
  | none => row
  | some mark =>
    { row with
      status := mark.status
      blockNumber := some mark.blockNumber.toInt64
      updatedAt := Ledger.timeText mark.time }

@[simp] theorem PurchaseRow.marked_none (row : PurchaseRow) : row.marked none = row := rfl

@[simp] theorem PurchaseRow.marked_txHash (row : PurchaseRow) (mark : Option Mark) :
    (row.marked mark).txHash = row.txHash := by
  cases mark <;> rfl

/-- The last mark is what a row shows. -/
theorem PurchaseRow.marked_or (row : PurchaseRow) (last earlier : Option Mark) :
    row.marked (last.or earlier) = (row.marked earlier).marked last := by
  cases last <;> cases earlier <;> rfl

namespace Ledger

/-! ## Changes -/

/-- A change to what is recorded. -/
inductive Change where
  | insert (now : Timestamp) (projectId : String) (txHash : Hash) (purchaseTo : Address)
  | mark (now : Timestamp) (txHash : Hash) (status : PurchaseStatus) (blockNumber : UInt64)

namespace Change

/-- The transaction that a change enters. -/
def entry? : Change → Option Hash
  | .insert _ _ txHash _ => some txHash
  | .mark .. => none

/-- What a change marks a transaction with. -/
def mark? (txHash : Hash) : Change → Option Mark
  | .insert .. => none
  | .mark now other status blockNumber =>
    if other = txHash then some ⟨now, status, blockNumber⟩ else none

end Change

/-- The ledger after a change. -/
def change (l : Ledger) : Change → Ledger
  | .insert now projectId txHash purchaseTo => (l.insert now projectId txHash purchaseTo).2
  | .mark now txHash status blockNumber => l.mark now txHash status blockNumber

/-- The ledger after a list of changes. -/
def run (l : Ledger) (changes : List Change) : Ledger :=
  changes.foldl change l

/-- The transactions that have been entered, in the order of their first entries. -/
def entered (changes : List Change) : List Hash :=
  (changes.filterMap Change.entry?).eraseDups

/-- What a transaction was last marked with. -/
def lastMark (txHash : Hash) (changes : List Change) : Option Mark :=
  (changes.filterMap (Change.mark? txHash)).getLast?

variable {changes : List Change} {txHash : Hash}

theorem eraseDups_concat {α : Type} [DecidableEq α] (xs : List α) (x : α) :
    (xs ++ [x]).eraseDups = if x ∈ xs then xs.eraseDups else xs.eraseDups ++ [x] := by
  rw [List.eraseDups_append]
  split <;> next h => simp [List.removeAll, h, List.eraseDups_cons]

theorem entered_concat_known {change : Change}
    (h : ∀ txHash ∈ change.entry?, txHash ∈ entered changes) :
    entered (changes ++ [change]) = entered changes := by
  rw [entered, List.filterMap_append]
  cases hentry : change.entry? with
  | none => simp [entered, hentry]
  | some txHash =>
      have hmem := List.mem_eraseDups.mp (h txHash hentry)
      rw [List.filterMap_cons_some hentry, List.filterMap_nil, eraseDups_concat, if_pos hmem]
      rfl

theorem entered_concat_new {change : Change} (hentry : change.entry? = some txHash)
    (h : txHash ∉ entered changes) :
    entered (changes ++ [change]) = entered changes ++ [txHash] := by
  rw [entered, List.mem_eraseDups] at h
  rw [entered, List.filterMap_append, List.filterMap_cons_some hentry, List.filterMap_nil,
    eraseDups_concat, if_neg h]
  rfl

theorem lastMark_concat (change : Change) :
    lastMark txHash (changes ++ [change]) = (change.mark? txHash).or (lastMark txHash changes) := by
  cases hmark : change.mark? txHash <;> simp [lastMark, hmark]

/-! ## Rows -/

/-- A row tells what has become of a transaction: who first entered it, and what it was last marked
with since. -/
def Tells (changes : List Change) (txHash : Hash) (row : PurchaseRow) : Prop :=
  ∃ earlier now projectId purchaseTo later id,
    changes = earlier ++ .insert now projectId txHash purchaseTo :: later ∧
    txHash ∉ entered earlier ∧
    row = PurchaseRow.marked ⟨id, projectId, txHash.toText, purchaseTo.toText, .submitted, none,
      timeText now, timeText now⟩ (lastMark txHash later)

variable {row : PurchaseRow}

theorem Tells.txHash_eq (h : Tells changes txHash row) : row.txHash = txHash.toText := by
  obtain ⟨_, _, _, _, _, _, -, -, rfl⟩ := h
  exact PurchaseRow.marked_txHash _ _

theorem tells_new (l : Ledger) (now : Timestamp) (projectId : String) (purchaseTo : Address)
    (h : txHash ∉ entered changes) :
    Tells (changes ++ [.insert now projectId txHash purchaseTo]) txHash
      (l.newRow now projectId txHash purchaseTo) :=
  ⟨changes, now, projectId, purchaseTo, [], _, rfl, h, rfl⟩

theorem Tells.concat (h : Tells changes txHash row) (change : Change) :
    Tells (changes ++ [change]) txHash (row.marked (change.mark? txHash)) := by
  obtain ⟨earlier, now, projectId, purchaseTo, later, id, rfl, hnew, rfl⟩ := h
  refine ⟨earlier, now, projectId, purchaseTo, later ++ [change], id, by simp, hnew, ?_⟩
  rw [lastMark_concat, PurchaseRow.marked_or]

/-- There is a row for each transaction that has been entered, in that order. -/
def IsRecord (changes : List Change) (rows : List PurchaseRow) : Prop :=
  List.Forall₂ (Tells changes) (entered changes) rows

variable {l : Ledger}

theorem texts_eq_of_tells {hashes : List Hash} {rows : List PurchaseRow}
    (h : List.Forall₂ (Tells changes) hashes rows) :
    rows.map (·.txHash) = hashes.map Octets.toText := by
  induction h with
  | nil => rfl
  | cons htells _ ih => rw [List.map_cons, List.map_cons, htells.txHash_eq, ih]

theorem IsRecord.knows_iff (h : IsRecord changes l.rows) :
    l.Knows txHash ↔ txHash ∈ entered changes := by
  have hinj : Function.Injective (Octets.toText (n := 32)) := fun _ _ => Octets.toText_injective
  have hrow : l.Knows txHash ↔ txHash.toText ∈ l.rows.map (·.txHash) := by simp [Knows]
  rw [hrow, texts_eq_of_tells h, List.mem_map_of_injective hinj]

theorem Sound.mark (h : l.Sound) (now : Timestamp) (txHash : Hash) (status : PurchaseStatus)
    (blockNumber : UInt64) : (l.mark now txHash status blockNumber).Sound := by
  refine h.map (fun row => ?_) fun row => ?_ <;> split <;> rfl

theorem Sound.change (h : l.Sound) (change : Change) : (l.change change).Sound := by
  cases change with
  | insert now projectId txHash purchaseTo => exact h.insert now projectId txHash purchaseTo
  | mark now txHash status blockNumber => exact h.mark now txHash status blockNumber

theorem IsRecord.insert (h : IsRecord changes l.rows) (now : Timestamp) (projectId : String)
    (txHash : Hash) (purchaseTo : Address) :
    IsRecord (changes ++ [.insert now projectId txHash purchaseTo])
      (l.insert now projectId txHash purchaseTo).2.rows := by
  have hkept : List.Forall₂ (Tells (changes ++ [.insert now projectId txHash purchaseTo]))
      (entered changes) l.rows := h.imp fun _ _ htells => htells.concat _
  unfold IsRecord
  by_cases hmem : txHash ∈ entered changes
  · rw [insert_of_knows (h.knows_iff.mpr hmem), entered_concat_known (by simpa [Change.entry?])]
    exact hkept
  · rw [insert_of_not_knows fun hknows => hmem (h.knows_iff.mp hknows),
      entered_concat_new rfl hmem]
    exact List.rel_append hkept (.cons (tells_new l now projectId purchaseTo hmem) .nil)

theorem IsRecord.mark (h : IsRecord changes l.rows) (now : Timestamp) (txHash : Hash)
    (status : PurchaseStatus) (blockNumber : UInt64) :
    IsRecord (changes ++ [.mark now txHash status blockNumber])
      (l.mark now txHash status blockNumber).rows := by
  unfold IsRecord
  rw [entered_concat_known (by simp [Change.entry?])]
  refine List.forall₂_map_right_iff.mpr (h.imp fun other row htells => ?_)
  have hrow : row.marked (Change.mark? other (.mark now txHash status blockNumber)) =
      if row.txHash = txHash.toText then
        { row with
          status := status
          blockNumber := some blockNumber.toInt64
          updatedAt := timeText now }
      else row := by
    by_cases hsame : txHash = other
    · simp [Change.mark?, hsame, htells.txHash_eq, PurchaseRow.marked]
    · have hne : row.txHash ≠ txHash.toText := fun heq =>
        hsame (Octets.toText_injective (heq.symm.trans htells.txHash_eq))
      simp [Change.mark?, hsame, hne]
  rw [← hrow]
  exact htells.concat _

theorem IsRecord.change (h : IsRecord changes l.rows) (change : Change) :
    IsRecord (changes ++ [change]) (l.change change).rows := by
  cases change with
  | insert now projectId txHash purchaseTo => exact h.insert now projectId txHash purchaseTo
  | mark now txHash status blockNumber => exact h.mark now txHash status blockNumber

theorem run_concat (l : Ledger) (changes : List Change) (change : Change) :
    l.run (changes ++ [change]) = (l.run changes).change change := by
  simp [run]

theorem run_isRecord (changes : List Change) :
    (empty.run changes).Sound ∧ IsRecord changes (empty.run changes).rows := by
  -- The latest change is taken off, as what it does depends on the earlier ones.
  induction changes using List.reverseRecOn with
  | nil => exact ⟨sound_empty, .nil⟩
  | append_singleton changes change ih =>
      rw [run_concat]
      exact ⟨ih.1.change change, ih.2.change change⟩

/-! ## What a mark changes -/

theorem map_ite_of_forall_not {α : Type} {p : α → Prop} [DecidablePred p] (f : α → α)
    {xs : List α} (h : ∀ x ∈ xs, ¬ p x) : (xs.map fun x => if p x then f x else x) = xs :=
  (List.map_congr_left fun x hx => if_neg (h x hx)).trans (List.map_id' xs)

theorem mark_of_not_knows (h : ¬ l.Knows txHash) (now : Timestamp) (status : PurchaseStatus)
    (blockNumber : UInt64) : l.mark now txHash status blockNumber = l := by
  have hrows : (l.mark now txHash status blockNumber).rows = l.rows :=
    map_ite_of_forall_not _ fun row hmem heq => h ⟨row, hmem, heq⟩
  exact congrArg (fun rows => { l with rows := rows }) hrows

/-- A mark changes one row, and of that nothing but the status, the block and the time of the last
change. -/
theorem Sound.mark_rows (hsound : l.Sound) (h : l.Knows txHash) (now : Timestamp)
    (status : PurchaseStatus) (blockNumber : UInt64) :
    ∃ older row newer, l.rows = older ++ row :: newer ∧ row.txHash = txHash.toText ∧
      (l.mark now txHash status blockNumber).rows = older ++
        { row with
          status := status
          blockNumber := some blockNumber.toInt64
          updatedAt := timeText now } :: newer := by
  obtain ⟨row, hmem, htext⟩ := h
  obtain ⟨older, newer, hrows⟩ := List.append_of_mem hmem
  have hnodup := hsound.nodup
  rw [hrows, List.map_append, List.map_cons, List.nodup_middle, ← List.map_append,
    htext] at hnodup
  have hothers : ∀ other ∈ older ++ newer, other.txHash ≠ txHash.toText :=
    fun other hother heq =>
      (List.nodup_cons.mp hnodup).1 (List.mem_map.mpr ⟨other, hother, heq⟩)
  refine ⟨older, row, newer, hrows, htext, ?_⟩
  rw [Ledger.mark]
  simp only [hrows, List.map_append, List.map_cons, if_pos htext]
  rw [map_ite_of_forall_not _ fun other hother => hothers other (List.mem_append_left _ hother),
    map_ite_of_forall_not _ fun other hother => hothers other (List.mem_append_right _ hother)]

/-! ## The log -/

/-- What a ledger does after the changes that were made to it. -/
structure IsLogOf (l : Ledger) (changes : List Change) : Prop where
  /-- There is a row for each transaction, in the order in which they were first entered. -/
  record : IsRecord changes l.rows
  ids_increase : l.rows.Pairwise fun older newer => older.id < newer.id
  insert_isNew_iff (now : Timestamp) (projectId : String) (txHash : Hash) (purchaseTo : Address) :
    (l.insert now projectId txHash purchaseTo).1 = true ↔ txHash ∉ entered changes
  insert_known (now : Timestamp) (projectId : String) {txHash : Hash} (purchaseTo : Address) :
    txHash ∈ entered changes → (l.insert now projectId txHash purchaseTo).2.rows = l.rows
  insert_new (now : Timestamp) (projectId : String) {txHash : Hash} (purchaseTo : Address) :
    txHash ∉ entered changes → ∃ id, (∀ row ∈ l.rows, row.id < id) ∧
      (l.insert now projectId txHash purchaseTo).2.rows =
        l.rows ++ [⟨id, projectId, txHash.toText, purchaseTo.toText, .submitted, none,
          timeText now, timeText now⟩]
  mark_known (now : Timestamp) {txHash : Hash} (status : PurchaseStatus) (blockNumber : UInt64) :
    txHash ∈ entered changes → ∃ older row newer,
      l.rows = older ++ row :: newer ∧ row.txHash = txHash.toText ∧
      (l.mark now txHash status blockNumber).rows = older ++
        { row with
          status := status
          blockNumber := some blockNumber.toInt64
          updatedAt := timeText now } :: newer
  mark_unknown (now : Timestamp) {txHash : Hash} (status : PurchaseStatus) (blockNumber : UInt64) :
    txHash ∉ entered changes → l.mark now txHash status blockNumber = l
  mem_purchases_iff (projectId : Option String) (row : PurchaseRow) :
    row ∈ l.purchases projectId ↔ row ∈ l.rows ∧ ∀ project ∈ projectId, row.projectId = project
  newest_first (projectId : Option String) :
    (l.purchases projectId).Pairwise fun newer older => older.id < newer.id
  /-- Those of the transactions that have been entered are open whose rows are. -/
  pending_eq : l.pending =
    .ok ((entered changes).filter fun txHash => txHash.toText ∈ l.openTexts)

theorem mem_purchases (l : Ledger) (projectId : Option String) (row : PurchaseRow) :
    row ∈ l.purchases projectId ↔
      row ∈ l.rows ∧ ∀ project ∈ projectId, row.projectId = project := by
  cases projectId <;> simp [purchases]

theorem Sound.newest_first (h : l.Sound) (projectId : Option String) :
    (l.purchases projectId).Pairwise fun newer older => older.id < newer.id :=
  List.pairwise_reverse.mpr (h.ids_increase.filter _)

theorem Sound.openTexts_eq (h : l.Sound) :
    l.openTexts = (l.rows.map (·.txHash)).filter fun text => text ∈ l.openTexts := by
  have hopen : ∀ row ∈ l.rows, row.txHash ∈ l.openTexts ↔ row.status = .submitted := by
    intro row hrow
    rw [mem_openTexts]
    constructor
    · rintro ⟨other, hother, hstatus, htext⟩
      rwa [← h.eq_of_txHash_eq hrow hother htext]
    · exact fun hstatus => ⟨row, hrow, hstatus, rfl⟩
  have hrows : l.rows.filter ((fun text => decide (text ∈ l.openTexts)) ∘ (·.txHash)) =
      l.rows.filter fun row => row.status = .submitted :=
    List.filter_congr fun row hrow => decide_eq_decide.mpr (hopen row hrow)
  rw [List.filter_map, hrows, openTexts]

theorem IsRecord.pending_eq (h : IsRecord changes l.rows) (hsound : l.Sound) :
    l.pending = .ok ((entered changes).filter fun txHash => txHash.toText ∈ l.openTexts) := by
  refine hsound.pending_eq ?_
  conv_rhs => rw [hsound.openTexts_eq, texts_eq_of_tells h, List.filter_map]
  rfl

/-- However entries and marks follow each other, a new ledger is the log of them. -/
theorem run_isLogOf (changes : List Change) : (empty.run changes).IsLogOf changes := by
  obtain ⟨hsound, hrecord⟩ := run_isRecord changes
  generalize empty.run changes = l at hsound hrecord
  have hknows : ∀ {txHash}, l.Knows txHash ↔ txHash ∈ entered changes := hrecord.knows_iff
  refine ⟨hrecord, hsound.ids_increase, ?_, ?_, ?_, ?_, ?_, l.mem_purchases, hsound.newest_first,
    hrecord.pending_eq hsound⟩
  · intro now projectId txHash purchaseTo
    by_cases hmem : txHash ∈ entered changes
    · simp [insert_of_knows (hknows.mpr hmem), hmem]
    · simp [insert_of_not_knows (mt hknows.mp hmem), hmem]
  · intro now projectId txHash purchaseTo hmem
    rw [insert_of_knows (hknows.mpr hmem)]
  · intro now projectId txHash purchaseTo hmem
    rw [insert_of_not_knows (mt hknows.mp hmem)]
    exact ⟨l.lastId + 1, fun row hrow => Nat.lt_succ_of_le (hsound.id_le row hrow), rfl⟩
  · intro now txHash status blockNumber hmem
    exact hsound.mark_rows (hknows.mpr hmem) now status blockNumber
  · intro now txHash status blockNumber hmem
    exact mark_of_not_knows (mt hknows.mp hmem) now status blockNumber

namespace Sample

def hash : Hash := .replicate 32 1

def account : Address := .replicate 20 1

def noon : Timestamp := ⟨⟨2024, 6, 11⟩, 43200, 0, by decide⟩

def afterNoon : Timestamp := ⟨⟨2024, 6, 11⟩, 43201, 0, by decide⟩

/-- A ledger with one entry, made at noon. -/
def ledger : Ledger :=
  empty.run [.insert noon "proj-1" hash account]

/-- Its row. -/
def entry : PurchaseRow where
  id := 1
  projectId := "proj-1"
  txHash := hash.toText
  purchaseTo := account.toText
  status := .submitted
  blockNumber := none
  createdAt := "2024-06-11 12:00:00"
  updatedAt := "2024-06-11 12:00:00"

end Sample

/-- A mark a second later changes not only the status and the block of the row: from then on the row
shows when it was marked. -/
theorem run_mark_changesTime :
    Sample.ledger.rows = [Sample.entry] ∧
      (Sample.ledger.mark Sample.afterNoon Sample.hash .confirmed 1234).rows ≠
        [{ Sample.entry with status := .confirmed, blockNumber := some 1234 }] ∧
      (Sample.ledger.mark Sample.afterNoon Sample.hash .confirmed 1234).rows =
        [{ Sample.entry with
          status := .confirmed
          blockNumber := some 1234
          updatedAt := "2024-06-11 12:00:01" }] := by
  decide +kernel

end Ledger

end MintSale
