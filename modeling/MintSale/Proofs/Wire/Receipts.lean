import MintSale.Proofs.Text.Digits
import MintSale.Proofs.Wire.Replies

/-!
# Receipts

A lookup of a receipt should tell a transaction that is not in a block yet from a lookup that went
wrong. Inside, a reply without a result is an error with the code zero, so an error that a node
reports with just this code is taken for it. For all other answers the lookup tells the two apart.
-/

namespace MintSale.Wire

namespace Node

/-- A text is a quantity below 2^64. -/
def IsQuantity (text : String) (n : UInt64) : Prop :=
  Hex.Spells text.toList n.toNat

theorem readQuantity_eq_ok_iff {text : String} {n : UInt64} :
    readQuantity text = .ok n ↔ IsQuantity text n := by
  have hspells : Hex.quantity? UInt64.size text.toList = some n.toNat ↔ IsQuantity text n := by
    rw [Hex.quantity?_eq_some_iff]
    exact and_iff_left n.toNat_lt_size
  rw [← hspells, readQuantity]
  cases hread : Hex.quantity? UInt64.size text.toList with
  | none => simp
  | some m =>
      have hm : m < UInt64.size := (Hex.quantity?_eq_some_iff.mp hread).2
      constructor
      · intro h
        rw [← Except.ok.inj h, UInt64.toNat_ofNat_of_lt' hm]
      · intro h
        obtain rfl := Option.some.inj h
        simp

theorem readQuantity_eq_error_iff {text : String} :
    (∃ fault, readQuantity text = .error fault) ↔ ¬ ∃ n, IsQuantity text n := by
  simp only [← readQuantity_eq_ok_iff]
  cases readQuantity text <;> simp

/-! ## Records -/

namespace ReceiptRecord

variable {r : ReceiptRecord} {block : String}

/-- A record shows a receipt: the number of its block and its status, if there is one, are
quantities, and the transaction was successful exactly if the status is one. -/
structure Shows (r : ReceiptRecord) (receipt : Receipt) : Prop where
  txHash_eq : receipt.txHash = r.txHash
  block : ∃ block, r.blockNumber = some block ∧ IsQuantity block receipt.blockNumber
  status : ∀ status, r.status = some status → ∃ n, IsQuantity status n
  success_iff : receipt.success = true ↔ ∃ status, r.status = some status ∧ IsQuantity status 1

/-- A record has a block, but its number or the status is no quantity. -/
def IsUnreadable (r : ReceiptRecord) : Prop :=
  ∃ block, r.blockNumber = some block ∧ ((¬ ∃ n, IsQuantity block n) ∨
    ∃ status, r.status = some status ∧ ¬ ∃ n, IsQuantity status n)

theorem cases_block (r : ReceiptRecord) :
    r.blockNumber = none ∨ (∃ receipt, r.Shows receipt) ∨ r.IsUnreadable := by
  classical
  rcases hblock : r.blockNumber with - | block
  · exact .inl rfl
  by_cases hnumber : ∃ n, IsQuantity block n
  · by_cases hstatus : ∃ status, r.status = some status ∧ ¬ ∃ n, IsQuantity status n
    · exact .inr (.inr ⟨block, hblock, .inr hstatus⟩)
    · obtain ⟨n, hn⟩ := hnumber
      have hread : ∀ status, r.status = some status → ∃ n, IsQuantity status n := by
        simpa using hstatus
      let success := decide (∃ status, r.status = some status ∧ IsQuantity status 1)
      exact .inr (.inl
        ⟨⟨r.txHash, n, success⟩, rfl, ⟨block, hblock, hn⟩, hread, decide_eq_true_iff⟩)
  · exact .inr (.inr ⟨block, hblock, .inl hnumber⟩)

theorem Shows.receipt?_eq {receipt : Receipt} (h : r.Shows receipt) :
    r.receipt? = .ok (some receipt) := by
  obtain ⟨txHash, n, success⟩ := receipt
  obtain ⟨rfl, ⟨block, hblock, hn⟩, hstatus, hsuccess⟩ := h
  rw [← readQuantity_eq_ok_iff] at hn
  simp only [← readQuantity_eq_ok_iff] at hstatus hsuccess
  cases hs : r.status with
  | none =>
      have hno : success = false := by simpa [hs] using hsuccess
      simp [receipt?, hblock, hn, hs, hno, bind, Except.bind]
  | some status =>
      obtain ⟨m, hm⟩ := hstatus status hs
      have hone : success = (m == 1) := by
        rw [Bool.eq_iff_iff]
        simpa [hs, hm] using hsuccess
      simp [receipt?, hblock, hn, hs, hm, hone, bind, Except.bind]

theorem IsUnreadable.receipt?_eq (h : r.IsUnreadable) : ∃ fault, r.receipt? = .error fault := by
  obtain ⟨block, hblock, hno⟩ := h
  cases hn : readQuantity block with
  | error fault => exact ⟨fault, by simp [receipt?, hblock, hn, bind, Except.bind]⟩
  | ok n =>
      obtain ⟨status, hstatus, hno⟩ := hno.resolve_left fun hno =>
        hno ⟨n, readQuantity_eq_ok_iff.mp hn⟩
      obtain ⟨fault, hfault⟩ := readQuantity_eq_error_iff.mpr hno
      exact ⟨fault, by simp [receipt?, hblock, hn, hstatus, hfault, bind, Except.bind]⟩

theorem receipt?_of_block_none (h : r.blockNumber = none) : r.receipt? = .ok none := by
  rw [receipt?, h]

theorem receipt?_eq_none_iff : r.receipt? = .ok none ↔ r.blockNumber = none := by
  refine ⟨fun heq => ?_, receipt?_of_block_none⟩
  rcases r.cases_block with hnone | ⟨receipt, hshows⟩ | hunreadable
  · exact hnone
  · simp [hshows.receipt?_eq] at heq
  · obtain ⟨fault, hfault⟩ := hunreadable.receipt?_eq
    simp [hfault] at heq

theorem receipt?_eq_some_iff {receipt : Receipt} :
    r.receipt? = .ok (some receipt) ↔ r.Shows receipt := by
  refine ⟨fun heq => ?_, Shows.receipt?_eq⟩
  rcases r.cases_block with hnone | ⟨other, hshows⟩ | hunreadable
  · simp [receipt?_of_block_none hnone] at heq
  · rw [hshows.receipt?_eq] at heq
    cases heq
    exact hshows
  · obtain ⟨fault, hfault⟩ := hunreadable.receipt?_eq
    simp [hfault] at heq

end ReceiptRecord

/-! ## Lookups -/

/-- What comes of a lookup tells what the node said: that there is no receipt only if it said so,
a receipt only as it was given, and everything else as an error. -/
structure IsFaithful (answer : Option (Nat × String)) (result : Except Fault (Option Receipt)) :
    Prop where
  none_iff : result = .ok none ↔ ∃ reply, Delivers ReceiptRecord.codec.option answer reply ∧
    reply.error = none ∧ ∀ r, reply.result = some (some r) → r.blockNumber = none
  some_iff (receipt : Receipt) : result = .ok (some receipt) ↔
    ∃ r, Delivers ReceiptRecord.codec.option answer ⟨some (some r), none⟩ ∧ r.Shows receipt
  reported {reply : Reply (Option ReceiptRecord)} {e : NodeError} :
    Delivers ReceiptRecord.codec.option answer reply → reply.error = some e →
      ∃ fault, result = .error fault
  undelivered : (¬ ∃ reply, Delivers ReceiptRecord.codec.option answer reply) →
    ∃ fault, result = .error fault
  unreadable {r : ReceiptRecord} :
    Delivers ReceiptRecord.codec.option answer ⟨some (some r), none⟩ → r.IsUnreadable →
      ∃ fault, result = .error fault

/-- What the outcome of the request means for the lookup. -/
def lookup : Except Failure (Option ReceiptRecord) → Except Fault (Option Receipt)
  | .ok none => .ok none
  | .ok (some r) => r.receipt?
  | .error ⟨.node 0 _, _⟩ => .ok none
  | .error failure => .error failure.fault

/-- The request that asks for a receipt. -/
def receiptRequest (txHash : Hash) : Request :=
  ⟨none, callBody "eth_getTransactionReceipt" (.array [Octets.codec.write txHash])⟩

theorem receipt_eq (txHash : Hash) (s : Session) :
    receipt txHash s =
      (lookup (interpret ReceiptRecord.codec.option "eth_getTransactionReceipt"
        (s.peer.answerAt 0)), ⟨s.peer.after (receiptRequest txHash) 1, s.waited⟩) := by
  rw [receipt, callOnce_eq]
  rfl

variable {answer : Option (Nat × String)} {fault : Fault}

theorem isFaithful_of_not_delivers
    (h : ¬ ∃ reply, Delivers ReceiptRecord.codec.option answer reply) :
    IsFaithful answer (.error fault) where
  none_iff := by
    refine ⟨nofun, ?_⟩
    rintro ⟨reply, hdelivers, -⟩
    exact absurd ⟨reply, hdelivers⟩ h
  some_iff receipt := by
    refine ⟨nofun, ?_⟩
    rintro ⟨r, hdelivers, -⟩
    exact absurd ⟨_, hdelivers⟩ h
  reported hdelivers := absurd ⟨_, hdelivers⟩ h
  undelivered _ := ⟨fault, rfl⟩
  unreadable hdelivers := absurd ⟨_, hdelivers⟩ h

theorem isFaithful_of_reported {result : Option (Option ReceiptRecord)} {e : NodeError}
    (h : Delivers ReceiptRecord.codec.option answer ⟨result, some e⟩) :
    IsFaithful answer (.error fault) where
  none_iff := by simp [h.iff]
  some_iff receipt := by simp [h.iff]
  reported _ _ := ⟨fault, rfl⟩
  undelivered _ := ⟨fault, rfl⟩
  unreadable _ _ := ⟨fault, rfl⟩

theorem isFaithful_of_pending {result : Option (Option ReceiptRecord)}
    (h : Delivers ReceiptRecord.codec.option answer ⟨result, none⟩)
    (hresult : ∀ r, result ≠ some (some r)) : IsFaithful answer (.ok none) where
  none_iff := iff_of_true rfl ⟨_, h, rfl, fun r hr => absurd hr (hresult r)⟩
  some_iff receipt := by
    refine ⟨nofun, ?_⟩
    rintro ⟨r, hdelivers, -⟩
    cases h.unique hdelivers
    exact absurd rfl (hresult r)
  reported hdelivers herror := by
    obtain rfl := h.unique hdelivers
    cases herror
  undelivered hno := absurd ⟨_, h⟩ hno
  unreadable {r} hdelivers := by
    cases h.unique hdelivers
    exact absurd rfl (hresult r)

theorem isFaithful_of_record {r : ReceiptRecord}
    (h : Delivers ReceiptRecord.codec.option answer ⟨some (some r), none⟩) :
    IsFaithful answer r.receipt? where
  none_iff := by simp [h.iff, ReceiptRecord.receipt?_eq_none_iff]
  some_iff receipt := by simp [h.iff, ReceiptRecord.receipt?_eq_some_iff]
  reported hdelivers herror := by
    obtain rfl := h.unique hdelivers
    cases herror
  undelivered hno := absurd ⟨_, h⟩ hno
  unreadable hdelivers hunreadable := by
    cases h.unique hdelivers
    exact hunreadable.receipt?_eq

/-- An error with any code but zero is an error of the lookup too. -/
theorem lookup_of_reported {e : NodeError} (h : e.code ≠ 0) (isRetryable : Bool) :
    lookup (.error ⟨e.fault, isRetryable⟩) = .error e.fault := by
  obtain ⟨code, message⟩ := e
  by_cases hrejected : code = NodeError.rejected
  · simp [NodeError.fault, hrejected, lookup]
  · simp only [NodeError.fault, hrejected]
    simp_all [lookup]

theorem lookup_isFaithful_iff :
    IsFaithful answer
        (lookup (interpret ReceiptRecord.codec.option "eth_getTransactionReceipt" answer)) ↔
      ¬ ∃ result message,
        Delivers ReceiptRecord.codec.option answer ⟨result, some ⟨0, message⟩⟩ := by
  by_cases hreply : ∃ reply, Delivers ReceiptRecord.codec.option answer reply
  · obtain ⟨⟨result, error⟩, hdelivers⟩ := hreply
    cases error with
    | some e =>
        rw [(Interprets.reported hdelivers).interpret_eq]
        by_cases hzero : e.code = 0
        · obtain ⟨_, message⟩ := e
          subst hzero
          refine iff_of_false (fun hfaithful => ?_) fun hno => hno ⟨result, message, hdelivers⟩
          obtain ⟨fault, hfault⟩ := hfaithful.reported hdelivers rfl
          cases hfault
        · rw [lookup_of_reported hzero]
          refine iff_of_true (isFaithful_of_reported hdelivers) ?_
          rintro ⟨_, message, hother⟩
          cases hdelivers.unique hother
          exact hzero rfl
    | none =>
        refine iff_of_true ?_ (by simp [hdelivers.iff])
        rcases result with - | - | r
        · rw [(Interprets.empty hdelivers).interpret_eq]
          exact isFaithful_of_pending hdelivers nofun
        · rw [(Interprets.value hdelivers).interpret_eq]
          exact isFaithful_of_pending hdelivers nofun
        · rw [(Interprets.value hdelivers).interpret_eq]
          exact isFaithful_of_record hdelivers
  · refine iff_of_true ?_ fun ⟨_, _, hdelivers⟩ => hreply ⟨_, hdelivers⟩
    rcases interpret_of_not_delivers hreply with h | h <;> rw [h] <;>
      exact isFaithful_of_not_delivers hreply

end Node

namespace Clients

open Node

theorem answer_receipt (c : Clients) (chain : ChainClient) (txHash : Hash) :
    c.answer (.receipt chain txHash) =
      (lookup (interpret ReceiptRecord.codec.option "eth_getTransactionReceipt"
        (c.node.peer.answerAt 0)),
      { c with node := ⟨c.node.peer.after (receiptRequest txHash) 1, c.node.waited⟩ }) := by
  have hanswer : c.answer (.receipt chain txHash) = ofNode (receipt txHash) c := rfl
  rw [hanswer, ofNode, receipt_eq]

/-- A lookup of a receipt posts one request. What comes of it tells what the node said, unless the
node reports an error with the code zero: that is taken for a transaction without a receipt. -/
theorem answer_receipt_isFaithful_iff (c : Clients) (chain : ChainClient) (txHash : Hash) :
    (c.answer (.receipt chain txHash)).2.node.peer = c.node.peer.after (receiptRequest txHash) 1 ∧
    (IsFaithful (c.node.peer.answerAt 0) (c.answer (.receipt chain txHash)).1 ↔
      ¬ ∃ result message, Delivers ReceiptRecord.codec.option (c.node.peer.answerAt 0)
        ⟨result, some ⟨0, message⟩⟩) := by
  rw [answer_receipt]
  exact ⟨rfl, lookup_isFaithful_iff⟩

namespace Sample

/-- What a node says that reports an error with the code zero. -/
def downBody : String :=
  "\x7b\"error\":\x7b\"code\":0,\"message\":\"down\"\x7d\x7d"

def down : Clients where
  node := ⟨⟨true, [.answered 200 downBody], []⟩, 0⟩
  catalog := ⟨false, [], []⟩
  apiKey := none
  account := none

theorem delivers_down :
    Delivers ReceiptRecord.codec.option (down.node.peer.answerAt 0) ⟨none, some ⟨0, "down"⟩⟩ := by
  refine ⟨200, downBody, rfl, by decide, ?_⟩
  have hread : ((Reply.codec ReceiptRecord.codec.option).decode downBody).toOption.map
      (fun r => (r.result.isNone, r.error.map fun e => (e.code, e.message))) =
      some (true, some (0, "down")) := by
    decide +kernel
  cases hreply : (Reply.codec ReceiptRecord.codec.option).decode downBody with
  | error fault =>
      rw [hreply] at hread
      cases hread
  | ok r =>
      obtain ⟨result, error⟩ := r
      rw [hreply] at hread
      obtain ⟨hnone, herror⟩ := Prod.mk.inj (Option.some.inj hread)
      obtain rfl := Option.isNone_iff_eq_none.mp hnone
      obtain ⟨⟨code, message⟩, rfl, he⟩ := Option.map_eq_some_iff.mp herror
      obtain ⟨rfl, rfl⟩ := Prod.mk.inj he
      rfl

end Sample

/-- The node is down and says so, and the lookup says that there is no receipt yet. -/
theorem answer_receipt_mistakes_error :
    (Sample.down.answer (.receipt ⟨"chain"⟩ (.replicate 32 5))).1 = .ok none ∧
    ¬ IsFaithful (Sample.down.node.peer.answerAt 0)
      (Sample.down.answer (.receipt ⟨"chain"⟩ (.replicate 32 5))).1 := by
  have hanswer : (Sample.down.answer (.receipt ⟨"chain"⟩ (.replicate 32 5))).1 = .ok none := by
    have hinterpret : interpret ReceiptRecord.codec.option "eth_getTransactionReceipt"
        (Sample.down.node.peer.answerAt 0) = _ :=
      (Interprets.reported Sample.delivers_down).interpret_eq
    rw [answer_receipt, hinterpret]
    rfl
  rw [hanswer]
  refine ⟨rfl, fun hfaithful => ?_⟩
  obtain ⟨fault, hfault⟩ := hfaithful.reported Sample.delivers_down rfl
  cases hfault

end Clients

end MintSale.Wire
