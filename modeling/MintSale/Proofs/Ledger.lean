import Mathlib.Data.List.Nodup
import MintSale.Ledger
import MintSale.Proofs.Format.Checkout

/-!
# What is in the ledger

Purchases stand in the order in which they were recorded, no transaction twice, and every
transaction can be read.
-/

namespace MintSale

theorem Octets.toText_injective {n : Nat} {x y : Octets n} (h : x.toText = y.toText) : x = y := by
  have hx := x.ofText?_toText
  rw [h, y.ofText?_toText] at hx
  exact (Option.some.inj hx).symm

namespace Ledger

/-- The transactions of which nothing has become yet, as they are spelled. -/
def openTexts (l : Ledger) : List String :=
  (l.rows.filter fun row => row.status = .submitted).map (·.txHash)

/-- Purchases are recorded in order, each transaction once and so that it can be read. -/
structure Sound (l : Ledger) : Prop where
  ids_increase : l.rows.Pairwise fun older newer => older.id < newer.id
  id_le : ∀ row ∈ l.rows, row.id ≤ l.lastId
  nodup : (l.rows.map (·.txHash)).Nodup
  legible : ∀ row ∈ l.rows, ∃ txHash : Hash, row.txHash = txHash.toText

theorem sound_empty : empty.Sound :=
  ⟨by simp [empty], by simp [empty], by simp [empty], by simp [empty]⟩

/-- Purchases are told apart by their transactions. -/
theorem Sound.eq_of_txHash_eq {l : Ledger} (h : l.Sound) {row other : PurchaseRow}
    (hrow : row ∈ l.rows) (hother : other ∈ l.rows) (heq : other.txHash = row.txHash) :
    other = row :=
  List.inj_on_of_nodup_map h.nodup hother hrow heq

theorem mem_openTexts {l : Ledger} {text : String} :
    text ∈ l.openTexts ↔ ∃ row ∈ l.rows, row.status = .submitted ∧ row.txHash = text := by
  simp [openTexts, and_assoc]

theorem Sound.nodup_openTexts {l : Ledger} (h : l.Sound) : l.openTexts.Nodup :=
  h.nodup.sublist ((List.filter_sublist).map _)

/-! ## Recording -/

/-- Whether a transaction is recorded. -/
def Knows (l : Ledger) (txHash : Hash) : Prop :=
  ∃ row ∈ l.rows, row.txHash = txHash.toText

instance (l : Ledger) (txHash : Hash) : Decidable (l.Knows txHash) :=
  inferInstanceAs (Decidable (∃ row ∈ l.rows, row.txHash = txHash.toText))

/-- The row that a new purchase gets. -/
def newRow (l : Ledger) (now : Timestamp) (projectId : String) (txHash : Hash)
    (purchaseTo : Address) : PurchaseRow where
  id := l.lastId + 1
  projectId := projectId
  txHash := txHash.toText
  purchaseTo := purchaseTo.toText
  status := .submitted
  blockNumber := none
  createdAt := timeText now
  updatedAt := timeText now

variable {l : Ledger} {now : Timestamp} {projectId : String} {txHash : Hash} {purchaseTo : Address}

theorem insert_of_knows (h : l.Knows txHash) :
    l.insert now projectId txHash purchaseTo = (false, { l with lastId := l.lastId + 1 }) := by
  obtain ⟨row, hrow, htext⟩ := h
  have hany : l.rows.any (fun row => row.txHash == txHash.toText) = true :=
    List.any_eq_true.mpr ⟨row, hrow, by simpa using htext⟩
  simp [insert, insertText, hany]

theorem insert_of_not_knows (h : ¬ l.Knows txHash) :
    l.insert now projectId txHash purchaseTo = (true, { l with
      lastId := l.lastId + 1, rows := l.rows ++ [l.newRow now projectId txHash purchaseTo] }) := by
  have hany : ¬ l.rows.any (fun row => row.txHash == txHash.toText) = true := by
    intro hany
    obtain ⟨row, hrow, htext⟩ := List.any_eq_true.mp hany
    exact h ⟨row, hrow, by simpa using htext⟩
  simp [insert, insertText, hany, newRow]

/-- After an entry its transaction is known, and all that were known before. -/
theorem knows_insert_iff {other : Hash} :
    (l.insert now projectId txHash purchaseTo).2.Knows other ↔ l.Knows other ∨ txHash = other := by
  by_cases hknown : l.Knows txHash
  · rw [insert_of_knows hknown]
    refine (or_iff_left_of_imp ?_).symm
    rintro rfl
    exact hknown
  · have hnew : txHash.toText = other.toText ↔ txHash = other :=
      ⟨Octets.toText_injective, congrArg Octets.toText⟩
    rw [insert_of_not_knows hknown]
    simp [Knows, newRow, or_and_right, exists_or, hnew]

theorem Sound.insert (h : l.Sound) (now : Timestamp) (projectId : String) (txHash : Hash)
    (purchaseTo : Address) : (l.insert now projectId txHash purchaseTo).2.Sound := by
  have hid : ∀ row ∈ l.rows, row.id < l.lastId + 1 :=
    fun row hrow => Nat.lt_succ_of_le (h.id_le row hrow)
  by_cases hknown : l.Knows txHash
  · rw [insert_of_knows hknown]
    exact ⟨h.ids_increase, fun row hrow => Nat.le_of_lt (hid row hrow), h.nodup, h.legible⟩
  · rw [insert_of_not_knows hknown]
    refine ⟨?_, ?_, ?_, ?_⟩
    · simpa [List.pairwise_append, newRow, h.ids_increase] using hid
    · intro row hrow
      rcases List.mem_append.mp hrow with hrow | hrow
      · exact Nat.le_of_lt (hid row hrow)
      · rw [List.mem_singleton.mp hrow]
        exact Nat.le_refl _
    · have hnew : ∀ row ∈ l.rows, row.txHash ≠ txHash.toText :=
        fun row hrow heq => hknown ⟨row, hrow, heq⟩
      simpa [List.nodup_append, newRow, h.nodup] using hnew
    · intro row hrow
      rcases List.mem_append.mp hrow with hrow | hrow
      · exact h.legible row hrow
      · rw [List.mem_singleton.mp hrow]
        exact ⟨txHash, rfl⟩

theorem Sound.map (h : l.Sound) {change : PurchaseRow → PurchaseRow}
    (hid : ∀ row, (change row).id = row.id) (htext : ∀ row, (change row).txHash = row.txHash) :
    Sound { l with rows := l.rows.map change } := by
  have htexts : (l.rows.map change).map (·.txHash) = l.rows.map (·.txHash) := by
    simp [List.map_map, Function.comp_def, htext]
  refine ⟨?_, ?_, ?_, ?_⟩
  · simpa [List.pairwise_map, hid] using h.ids_increase
  · simpa [hid] using h.id_le
  · rw [htexts]
    exact h.nodup
  · simpa [htext] using h.legible

/-! ## What is open -/

/-- Rows that can be read are read as they are spelled. -/
theorem exists_mapM_parse {rows : List PurchaseRow}
    (h : ∀ row ∈ rows, ∃ txHash : Hash, row.txHash = txHash.toText) :
    ∃ hashes : List Hash, rows.mapM (fun row => Octets.parse row.txHash) = .ok hashes ∧
      hashes.map Octets.toText = rows.map (·.txHash) := by
  induction rows with
  | nil => exact ⟨[], rfl, rfl⟩
  | cons row rows ih =>
      obtain ⟨txHash, htext⟩ := h row List.mem_cons_self
      obtain ⟨hashes, hread, htexts⟩ := ih fun row hrow => h row (List.mem_cons_of_mem _ hrow)
      have hparse : Octets.parse row.txHash = .ok txHash := by
        rw [Octets.parse, htext, txHash.ofText?_toText]
      refine ⟨txHash :: hashes, ?_, by simp [htext, htexts]⟩
      rw [List.mapM_cons, hparse, hread]
      rfl

theorem Sound.exists_pending (h : l.Sound) :
    ∃ hashes, l.pending = .ok hashes ∧ hashes.map Octets.toText = l.openTexts :=
  exists_mapM_parse fun row hrow => h.legible row (List.mem_filter.mp hrow).1

theorem Sound.pending_eq (h : l.Sound) {hashes : List Hash}
    (htexts : hashes.map Octets.toText = l.openTexts) : l.pending = .ok hashes := by
  obtain ⟨read, hread, hreadTexts⟩ := h.exists_pending
  have hinj : Function.Injective (Octets.toText (n := 32)) := fun _ _ => Octets.toText_injective
  rw [hread, List.map_injective_iff.mpr hinj (hreadTexts.trans htexts.symm)]

end Ledger

end MintSale
