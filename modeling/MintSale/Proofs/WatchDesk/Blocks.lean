import MintSale.Proofs.Ledger.Log
import MintSale.Proofs.WatchDesk
import MintSale.Proofs.Wire.Receipts

/-!
# The blocks of purchases

A node may number blocks up to 2^64, but the ledger keeps their numbers with a sign. What it lists
for a purchase is the number in the receipt as long as that is below 2^63.
-/

namespace MintSale

theorem toInt_toInt64 (n : UInt64) :
    n.toInt64.toInt = if n.toNat < 2 ^ 63 then (n.toNat : Int) else n.toNat - 2 ^ 64 := by
  have hsigned : n.toInt64.toInt = n.toBitVec.toInt := rfl
  rw [hsigned, BitVec.toInt_eq_toNat_cond, UInt64.toNat_toBitVec]
  split <;> split <;> omega

/-- However purchases are listed, the one with a transaction is listed with a block. -/
structure Ledger.ListsBlock (l : Ledger) (txHash : Hash) (block : Int) : Prop where
  listed : ∃ row ∈ l.purchases none, row.txHash = txHash.toText
  block_eq (projectId : Option String) : ∀ row ∈ l.purchases projectId,
    row.txHash = txHash.toText → row.blockNumber.map Int64.toInt = some block

theorem Ledger.ListsBlock.unique {l : Ledger} {txHash : Hash} {block other : Int}
    (h : l.ListsBlock txHash block) (hother : l.ListsBlock txHash other) : block = other := by
  obtain ⟨row, hrow, htext⟩ := h.listed
  have heq := (h.block_eq none row hrow htext).symm.trans (hother.block_eq none row hrow htext)
  exact Option.some.inj heq

namespace WatchDesk

variable {d : WatchDesk} {watch : ReceiptWatch} {txHash : Hash} {receipt : Receipt}
  {lookup : Hash → ReceiptWatch.Answer}

/-- A purchase that is followed is settled by a receipt, and stays as it is then. -/
theorem Faithful.settles (h : d.Faithful) (hwatch : d.watch = some watch)
    (hfollows : txHash ∈ watch.pending) (hreceipt : (lookup txHash).receipt = .ok (some receipt)) :
    ∃ row : PurchaseRow, row.txHash = txHash.toText ∧
      (d.act (.round lookup)).IsOver (row.settledBy ⟨receipt, (lookup txHash).time⟩) := by
  have hopen : txHash.toText ∈ d.ledger.openTexts := by
    rw [← h.follows watch hwatch]
    exact List.mem_map_of_mem hfollows
  obtain ⟨row, hrow, -, htext⟩ := Ledger.mem_openTexts.mp hopen
  let dated : DatedReceipt := ⟨receipt, (lookup txHash).time⟩
  have hanswer : lookup txHash = dated.answer := by rw [DatedReceipt.answer, ← hreceipt]
  have hgiven : row.given (receipt? lookup watch.pending row.txHash) = row.settledBy dated := by
    rw [htext, receipt?_of_mem lookup hfollows, receiptIn_eq_some_iff.mpr hanswer]
    rfl
  have hsettled : row.settledBy dated ∈ (d.act (.round lookup)).ledger.rows := by
    rw [WatchDesk.act, h.round_rows hwatch, ← hgiven]
    exact List.mem_map_of_mem hrow
  have hover : (row.settledBy dated).status ≠ .submitted := by
    cases hsuccess : receipt.success <;> simp [PurchaseRow.settledBy, dated, hsuccess]
  exact ⟨row, htext, (h.act (.round lookup)).isOver hsettled hover⟩

theorem Faithful.listsBlock (h : d.Faithful) (hwatch : d.watch = some watch)
    (hfollows : txHash ∈ watch.pending) (hreceipt : (lookup txHash).receipt = .ok (some receipt))
    (later : List Act) :
    ((d.act (.round lookup)).run later).ledger.ListsBlock txHash
      receipt.blockNumber.toInt64.toInt := by
  obtain ⟨row, htext, hover⟩ := h.settles hwatch hfollows hreceipt
  obtain ⟨hstays, honly, -⟩ := hover later
  refine ⟨⟨_, (Ledger.mem_purchases _ _ _).mpr ⟨hstays, nofun⟩, htext⟩, ?_⟩
  intro projectId other hother hsame
  obtain rfl := honly other ((Ledger.mem_purchases _ _ _).mp hother).1 (hsame.trans htext.symm)
  rfl

/-- In every run over a new ledger, a purchase that is followed when its receipt comes is listed
from then on with the number of its block exactly if that is below 2^63. Of larger numbers 2^64 is
taken off. -/
theorem run_listsBlock_iff {acts : List Act} {record : Wire.Node.ReceiptRecord}
    (hwatch : ((vacant .empty).run acts).watch = some watch) (hfollows : txHash ∈ watch.pending)
    (hshows : record.Shows receipt) (hlookup : (lookup txHash).receipt = record.receipt?)
    (later : List Act) :
    let l := ((vacant .empty).run (acts ++ .round lookup :: later)).ledger
    let n := receipt.blockNumber.toNat
    (l.ListsBlock txHash n ↔ n < 2 ^ 63) ∧ (2 ^ 63 ≤ n → l.ListsBlock txHash (n - 2 ^ 64)) := by
  intro l n
  have hlists : l.ListsBlock txHash (if n < 2 ^ 63 then (n : Int) else n - 2 ^ 64) := by
    have hrun : l = ((((vacant .empty).run acts).act (.round lookup)).run later).ledger := by
      simp [l, run]
    rw [hrun, ← toInt_toInt64]
    exact (faithful_vacant.run acts).listsBlock hwatch hfollows
      (hlookup.trans hshows.receipt?_eq) later
  by_cases hsmall : n < 2 ^ 63
  · rw [if_pos hsmall] at hlists
    exact ⟨iff_of_true hlists hsmall, fun hlarge => absurd hsmall (Nat.not_lt.mpr hlarge)⟩
  · rw [if_neg hsmall] at hlists
    refine ⟨iff_of_false (fun hsame => ?_) hsmall, fun _ => hlists⟩
    have heq := hsame.unique hlists
    omega

namespace Sample

/-- The notice of a purchase. -/
def bought : Notice := ⟨"proj-1", .replicate 32 5, .replicate 20 1⟩

/-- A run up to the point at which the purchase is followed. -/
def following : List Act := [.start, .post bought, .take Ledger.Sample.noon]

/-- What the node has for the purchase once that is in a block. -/
def minedIn (block : String) : Wire.Node.ReceiptRecord :=
  ⟨bought.txHash, some block, some "0x1"⟩

/-- The ledger after a round that brings the receipt. -/
def ledger (block : String) : Ledger :=
  let answer : ReceiptWatch.Answer := ⟨(minedIn block).receipt?, Ledger.Sample.noon⟩
  ((vacant .empty).run (following ++ [.round fun _ => answer])).ledger

theorem following_watch : ((vacant .empty).run following).watch = some ⟨[bought.txHash]⟩ := rfl

theorem minedIn_shows {block : String} {n : UInt64}
    (h : Wire.Node.readQuantity block = .ok n) :
    (minedIn block).Shows ⟨bought.txHash, n, true⟩ := by
  have hstatus : Wire.Node.readQuantity "0x1" = .ok 1 := by decide +kernel
  refine Wire.Node.ReceiptRecord.receipt?_eq_some_iff.mp ?_
  simp [Wire.Node.ReceiptRecord.receipt?, minedIn, h, hstatus, bind, Except.bind]

theorem ledger_lists {block : String} {n : UInt64} (h : Wire.Node.readQuantity block = .ok n) :
    (ledger block).ListsBlock bought.txHash n.toInt64.toInt := by
  let lookup : Hash → ReceiptWatch.Answer := fun _ => ⟨(minedIn block).receipt?, Ledger.Sample.noon⟩
  have hlookup : (lookup bought.txHash).receipt = .ok (some ⟨bought.txHash, n, true⟩) :=
    (minedIn_shows h).receipt?_eq
  exact (faithful_vacant.run following).listsBlock following_watch List.mem_cons_self hlookup []

end Sample

/-- The last block whose number is listed. -/
theorem run_listsBlock_iff_last :
    (Sample.minedIn "0x7fffffffffffffff").Shows ⟨Sample.bought.txHash, 0x7fffffffffffffff, true⟩ ∧
      (Sample.ledger "0x7fffffffffffffff").ListsBlock Sample.bought.txHash 0x7fffffffffffffff := by
  have hread : Wire.Node.readQuantity "0x7fffffffffffffff" = .ok 0x7fffffffffffffff := by
    decide +kernel
  have hshows := Sample.minedIn_shows hread
  exact ⟨hshows, (run_listsBlock_iff Sample.following_watch List.mem_cons_self hshows rfl []).1.mpr
    (by decide)⟩

/-- The block after that is in the receipt with its number, and is listed with a negative one. -/
theorem run_misstates_block :
    (Sample.minedIn "0x8000000000000000").Shows ⟨Sample.bought.txHash, 0x8000000000000000, true⟩ ∧
      ¬ (Sample.ledger "0x8000000000000000").ListsBlock Sample.bought.txHash (2 ^ 63) ∧
      (Sample.ledger "0x8000000000000000").ListsBlock Sample.bought.txHash (-2 ^ 63) := by
  have hread : Wire.Node.readQuantity "0x8000000000000000" = .ok 0x8000000000000000 := by
    decide +kernel
  have hlists := Sample.ledger_lists hread
  have hblock : (0x8000000000000000 : UInt64).toInt64.toInt = -2 ^ 63 := by decide +kernel
  rw [hblock] at hlists
  exact ⟨Sample.minedIn_shows hread, fun hsame => absurd (hsame.unique hlists) (by decide), hlists⟩

end WatchDesk

end MintSale
