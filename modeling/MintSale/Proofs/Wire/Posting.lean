import MintSale.Checkout.Machine
import MintSale.Proofs.Calldata.Reading
import MintSale.Proofs.Collaborator.Replies
import MintSale.Proofs.Checkout.Sending
import MintSale.Proofs.Format.Checkout
import MintSale.Proofs.Text.Digits
import MintSale.Proofs.Wire.Receipts

/-!
# Transactions that are posted

A submission posts the transactions of its purchase one after the other, each once, and stops at the
first that is not answered with a hash. Whatever goes wrong, nothing is posted a second time: not
even a request whose answer got lost, for the node may have taken it.
-/

namespace MintSale.Wire

/-! ## Requests read back -/

/-- Members of a record are found by their keys. -/
theorem member?_record_cons (key other : String) (value : Json) (members : List (String × Json)) :
    (Json.record ((other, value) :: members)).member? key =
      if key = other then some value else (Json.record members).member? key := by
  simp only [Json.record, List.map_cons, Json.member?, List.lookup_cons]
  by_cases h : key = other
  · simp [h]
  · have hkey : (some key == some other) = false := by simpa using h
    rw [hkey, if_neg h]

namespace Request

/-- The text under a key of a record. -/
def textAt (key : String) (j : Json) : Option String :=
  match j.member? key with
  | some (.string text) => text
  | _ => none

/-- The amount that a quantity stands for. -/
def readAmount (text : String) : Option Amount :=
  (Hex.quantity? (1 <<< 128) text.toList).bind Amount.ofNat?

/-- Whether a request asks the node to send something. -/
def isSend (r : Request) : Bool :=
  textAt "method" r.body = some "eth_sendTransaction"

/-- The transaction that a request has for the node. -/
def transaction? (r : Request) : Option Transaction :=
  match r.body.member? "params" with
  | some (.array [call]) => do
    let sender ← Octets.ofText? (← textAt "from" call)
    let recipient ← Octets.ofText? (← textAt "to" call)
    let data ← (Node.readData (← textAt "data" call)).toOption
    let value ← readAmount (← textAt "value" call)
    return ⟨sender, recipient, data, value⟩
  | _ => none

end Request

namespace Node

/-- The request that posts a transaction. -/
def sendRequest (tx : Transaction) : Request where
  apiKey := none
  body := callBody "eth_sendTransaction" (.array [.record
    [("from", Octets.codec.write tx.sender),
     ("to", Octets.codec.write tx.recipient),
     ("data", .text (dataText tx.data)),
     ("value", .text (quantityText tx.value))]])

theorem send_eq (tx : Transaction) (s : Session) :
    send tx s =
      ((interpret Octets.codec "eth_sendTransaction" (s.peer.answerAt 0)).mapError Failure.fault,
        ⟨s.peer.after (sendRequest tx) 1, s.waited⟩) := by
  rw [send, callOnce_eq]
  rfl

@[simp] theorem textAt_callBody (method : String) (params : Json) :
    Request.textAt "method" (callBody method params) = some method := by
  simp [Request.textAt, callBody, member?_record_cons, Json.text]

@[simp] theorem member?_callBody (method : String) (params : Json) :
    (callBody method params).member? "params" = some params := by
  simp [callBody, member?_record_cons]

theorem readData_dataText (bytes : List UInt8) : readData (dataText bytes) = .ok bytes := by
  simp [readData, dataText, Hex.marked, Hex.dropMark, Hex.decode?_encode]

theorem readAmount_quantityText (a : Amount) : Request.readAmount (quantityText a) = some a := by
  rw [Request.readAmount, quantityText, String.toList_ofList, Hex.quantity?_quantity a.toNat_lt]
  exact a.ofNat?_toNat

/-- The request for a transaction says who sends what to whom, and what is paid. -/
theorem transaction?_sendRequest (tx : Transaction) :
    (sendRequest tx).transaction? = some tx := by
  obtain ⟨sender, recipient, data, value⟩ := tx
  rw [Request.transaction?, sendRequest, member?_callBody]
  simp [Request.textAt, member?_record_cons, Json.text, Octets.codec, Codec.through, Codec.string,
    Octets.ofText?_toText, readData_dataText, readAmount_quantityText, Except.toOption]

end Node

/-! ## What a peer has been asked to send -/

namespace Peer

/-- The transactions that the peer has been asked to send. -/
def sends (p : Peer) : List (Option Transaction) :=
  (p.received.filter Request.isSend).map Request.transaction?

/-- The peer after these requests. -/
def afterAll (p : Peer) (rs : List Request) : Peer :=
  rs.foldl (fun p r => p.after r 1) p

theorem sends_after (p : Peer) {r : Request} (h : r.isSend = false) (n : Nat) :
    (p.after r n).sends = p.sends := by
  unfold after
  split
  · simp [sends, h]
  · rfl

theorem isListening_after (p : Peer) (r : Request) (n : Nat) :
    (p.after r n).isListening = p.isListening := by
  unfold after
  split <;> rfl

theorem sends_afterAll {p : Peer} (hp : p.isListening) (txs : List Transaction) :
    (p.afterAll (txs.map Node.sendRequest)).sends = p.sends ++ txs.map some := by
  induction txs generalizing p with
  | nil => simp [afterAll]
  | cons tx txs ih =>
      have hsend : (Node.sendRequest tx).isSend = true := by
        simp [Request.isSend, Node.sendRequest]
      have hfirst : (p.after (Node.sendRequest tx) 1).sends = p.sends ++ [some tx] := by
        simp [after, hp, sends, hsend, Node.transaction?_sendRequest]
      have hrest := ih ((p.isListening_after (Node.sendRequest tx) 1).trans hp)
      rw [hfirst, List.append_assoc] at hrest
      exact hrest

end Peer

/-! ## Transactions one after the other -/

namespace Node

/-- An answer gives the hash of what has been sent. -/
def GivesHash (answer : Option (Nat × String)) (txHash : Hash) : Prop :=
  Delivers Octets.codec answer ⟨some txHash, none⟩

/-- An answer reports that the wallet's owner has declined. -/
def Declines (answer : Option (Nat × String)) : Prop :=
  ∃ (result : Option Hash) (message : String),
    Delivers Octets.codec answer ⟨result, some ⟨4001, message⟩⟩

/-- What an answer to a transaction comes to. -/
def sendOutcome (answer : Option (Nat × String)) : Except Fault Hash :=
  (interpret Octets.codec "eth_sendTransaction" answer).mapError Failure.fault

variable {answer : Option (Nat × String)}

theorem sendOutcome_eq_ok_iff {txHash : Hash} :
    sendOutcome answer = .ok txHash ↔ GivesHash answer txHash := by
  have hok : interpret Octets.codec "eth_sendTransaction" answer = .ok txHash ↔
      GivesHash answer txHash := interpret_eq_ok_iff
  rw [← hok, sendOutcome]
  cases interpret Octets.codec "eth_sendTransaction" answer <;> simp [Except.mapError]

theorem sendOutcome_eq_userRejected_iff :
    sendOutcome answer = .error .userRejected ↔ Declines answer := by
  rw [sendOutcome, Declines]
  by_cases hreply : ∃ reply, Delivers (Octets.codec : Codec Hash) answer reply
  · obtain ⟨⟨result, error⟩, hdelivers⟩ := hreply
    rcases error with - | ⟨code, message⟩
    · refine iff_of_false ?_ (by simp [hdelivers.iff])
      cases result with
      | none =>
          rw [(Interprets.empty hdelivers).interpret_eq]
          nofun
      | some txHash =>
          rw [(Interprets.value hdelivers).interpret_eq]
          nofun
    · rw [(Interprets.reported hdelivers).interpret_eq]
      by_cases hrejected : code = 4001
      · subst hrejected
        exact iff_of_true rfl ⟨result, message, hdelivers⟩
      · have hfault : (⟨code, message⟩ : NodeError).fault = .node code message := if_neg hrejected
        simp [Except.mapError, hfault, hdelivers.iff, Ne.symm hrejected]
  · refine iff_of_false ?_ fun ⟨_, _, hdelivers⟩ => hreply ⟨_, hdelivers⟩
    rcases interpret_of_not_delivers hreply with h | h <;> rw [h] <;> nofun

/-- With these answers, `n` of the transactions are posted: all before the last one of these are
answered with a hash, and the last one is not, or there are no more. -/
structure Posts (answers : Nat → Option (Nat × String)) (txs : List Transaction) (n : Nat)
    (result : Except Fault Hash) : Prop where
  pos : 0 < n
  le : n ≤ txs.length
  earlier : ∀ i, i + 1 < n → ∃ txHash, GivesHash (answers i) txHash
  stops : n < txs.length → ¬ ∃ txHash, GivesHash (answers (n - 1)) txHash
  ok_iff : ∀ txHash, result = .ok txHash ↔ n = txs.length ∧ GivesHash (answers (n - 1)) txHash
  rejected_iff : result = .error .userRejected ↔ Declines (answers (n - 1))

variable {answers : Nat → Option (Nat × String)} {tx : Transaction} {txs : List Transaction}

/-- The first transaction is the last one that is posted: there is no other, or it fails. -/
theorem Posts.at_once (h : txs = [] ∨ ¬ ∃ txHash, GivesHash (answers 0) txHash) :
    Posts answers (tx :: txs) 1 (sendOutcome (answers 0)) where
  pos := Nat.one_pos
  le := Nat.succ_le_succ (Nat.zero_le _)
  earlier i hi := absurd hi (by omega)
  stops hlt := h.resolve_left fun hnil => by simp [hnil] at hlt
  ok_iff txHash := by
    rw [sendOutcome_eq_ok_iff]
    refine ⟨fun hhash => ⟨?_, hhash⟩, And.right⟩
    rw [h.resolve_right fun hno => hno ⟨txHash, hhash⟩]
    rfl
  rejected_iff := sendOutcome_eq_userRejected_iff

theorem Posts.next {n : Nat} {result : Except Fault Hash} {txHash : Hash}
    (hfirst : GivesHash (answers 0) txHash) (h : Posts (fun i => answers (1 + i)) txs n result) :
    Posts answers (tx :: txs) (n + 1) result := by
  have hlast : 1 + (n - 1) = n := Nat.add_sub_cancel' h.pos
  have hstops := h.stops
  have hok := h.ok_iff
  have hrejected := h.rejected_iff
  rw [hlast] at hstops hrejected
  simp only [hlast] at hok
  refine ⟨Nat.succ_pos n, Nat.succ_le_succ h.le, fun i hi => ?_, ?_, ?_, hrejected⟩
  · cases i with
    | zero => exact ⟨txHash, hfirst⟩
    | succ i =>
        rw [Nat.add_comm i]
        exact h.earlier i (Nat.lt_of_succ_lt_succ hi)
  · exact fun hlt => hstops (Nat.lt_of_succ_lt_succ hlt)
  · simpa using hok

/-- The last transaction gets its hash exactly if all of them do. -/
theorem Posts.isOk_iff {n : Nat} {result : Except Fault Hash} (h : Posts answers txs n result) :
    (∃ txHash, result = .ok txHash) ↔
      ∀ i < txs.length, ∃ txHash, GivesHash (answers i) txHash := by
  constructor
  · rintro ⟨txHash, hresult⟩ i hi
    obtain ⟨hlength, hlast⟩ := (h.ok_iff txHash).mp hresult
    rcases Nat.lt_or_eq_of_le (show i + 1 ≤ n by omega) with hlt | heq
    · exact h.earlier i hlt
    · obtain rfl : i = n - 1 := by omega
      exact ⟨txHash, hlast⟩
  · intro hall
    have hpos := h.pos
    have hle := h.le
    obtain ⟨txHash, hlast⟩ := hall (n - 1) (by omega)
    have hlength : n = txs.length :=
      Nat.le_antisymm hle (Nat.le_of_not_lt fun hlt => h.stops hlt ⟨txHash, hlast⟩)
    exact ⟨txHash, (h.ok_iff txHash).mpr ⟨hlength, hlast⟩⟩

end Node

/-! ## Submissions -/

namespace Clients

open Node

/-- The clients after the node has been sent these transactions. -/
def posted (c : Clients) (txs : List Transaction) : Clients :=
  { c with node := ⟨c.node.peer.afterAll (txs.map sendRequest), c.node.waited⟩ }

theorem ask_send (c : Clients) (wallet : WalletClient) (tx : Transaction) :
    environment.ask (.send wallet tx) c =
      (.now (sendOutcome (c.node.peer.answerAt 0)), c.posted [tx]) := by
  have hanswer : c.answer (.send wallet tx) = ofNode (send tx) c := rfl
  have hask : environment.ask (.send wallet tx) c =
      (.now (c.answer (.send wallet tx)).1, (c.answer (.send wallet tx)).2) := rfl
  rw [hask, hanswer, ofNode, send_eq]
  rfl

theorem answerAt_posted (c : Clients) (tx : Transaction) :
    (c.posted [tx]).node.peer.answerAt = fun i => c.node.peer.answerAt (1 + i) :=
  c.node.peer.answerAt_after (sendRequest tx) 1

theorem run_sendAll_cons (wallet : WalletClient) (tx : Transaction) (txs : List Transaction)
    (last : Option Hash) (c : Clients) :
    (∀ fault, sendOutcome (c.node.peer.answerAt 0) = .error fault →
      (Checkout.sendAll wallet last (tx :: txs)).run environment c =
        (.finished (.error fault), [.send wallet tx], c.posted [tx])) ∧
    ∀ txHash, sendOutcome (c.node.peer.answerAt 0) = .ok txHash →
      (Checkout.sendAll wallet last (tx :: txs)).run environment c =
        (((Checkout.sendAll wallet (some txHash) txs).run environment (c.posted [tx])).1,
          .send wallet tx ::
            ((Checkout.sendAll wallet (some txHash) txs).run environment (c.posted [tx])).2.1,
          ((Checkout.sendAll wallet (some txHash) txs).run environment (c.posted [tx])).2.2) := by
  have hask := ask_send c wallet tx
  constructor
  · intro fault houtcome
    rw [houtcome] at hask
    exact Program.run_now hask
  · intro txHash houtcome
    rw [houtcome] at hask
    exact Program.run_now hask

/-- Sending transactions posts the first of them, one by one, up to the first that fails. -/
theorem run_sendAll (wallet : WalletClient) {txs : List Transaction} (h : txs ≠ [])
    (last : Option Hash) (c : Clients) :
    ∃ n result, Posts c.node.peer.answerAt txs n result ∧
      (Checkout.sendAll wallet last txs).run environment c =
        (.finished result, (txs.take n).map (.send wallet), c.posted (txs.take n)) := by
  induction txs generalizing last c with
  | nil => exact absurd rfl h
  | cons tx txs ih =>
      obtain ⟨hfails, hgoes⟩ := run_sendAll_cons wallet tx txs last c
      cases houtcome : sendOutcome (c.node.peer.answerAt 0) with
      -- No later transaction is posted behind one that fails, and this one not again.
      | error fault =>
          refine ⟨1, .error fault, ?_, hfails fault houtcome⟩
          rw [← houtcome]
          refine .at_once (.inr ?_)
          rintro ⟨txHash, hhash⟩
          rw [sendOutcome_eq_ok_iff.mpr hhash] at houtcome
          cases houtcome
      | ok txHash =>
          rw [hgoes txHash houtcome]
          cases txs with
          | nil =>
              refine ⟨1, .ok txHash, ?_, rfl⟩
              rw [← houtcome]
              exact .at_once (.inl rfl)
          | cons next rest =>
              obtain ⟨n, result, hposts, hrun⟩ :=
                ih (List.cons_ne_nil next rest) (some txHash) (c.posted [tx])
              rw [answerAt_posted] at hposts
              rw [hrun]
              exact ⟨n + 1, result, .next (sendOutcome_eq_ok_iff.mp houtcome) hposts, rfl⟩

/-! ## Other calls -/

/-- The node has not been asked to send anything in between. -/
structure Quiet (c c' : Clients) : Prop where
  sends_eq : c'.node.peer.sends = c.node.peer.sends
  isListening_eq : c'.node.peer.isListening = c.node.peer.isListening

theorem Quiet.refl (c : Clients) : Quiet c c :=
  ⟨rfl, rfl⟩

theorem Quiet.trans {a b c : Clients} (h : Quiet a b) (h' : Quiet b c) : Quiet a c :=
  ⟨h'.sends_eq.trans h.sends_eq, h'.isListening_eq.trans h.isListening_eq⟩

theorem quiet_after (c : Clients) {r : Request} (h : r.isSend = false) (n waited : Nat) :
    Quiet c { c with node := ⟨c.node.peer.after r n, waited⟩ } :=
  ⟨c.node.peer.sends_after h n, c.node.peer.isListening_after r n⟩

theorem isSend_receiptRequest (txHash : Hash) : (receiptRequest txHash).isSend = false := by
  simp [Request.isSend, receiptRequest]

theorem isSend_contractRead {α : Type} (r : ContractRead α) : r.request.isSend = false := by
  simp [Request.isSend, ContractRead.request]

theorem quiet_answer {call : Call} (h : ¬ call.IsSend) (c : Clients) :
    Quiet c (c.answer call).2 := by
  rcases hread : contractRead? call with - | r
  · cases call with
    | priceInfo chain p =>
        have hminter : p.minter = none := Option.map_eq_none_iff.mp hread
        have hanswer : (c.answer (.priceInfo chain p)).2 = c := by
          simp [answer, ofNode, Node.priceInfo, ofMinter, hminter]
        rw [hanswer]
        exact .refl c
    | mintsRemaining chain p account =>
        have hminter : p.minter = none := Option.map_eq_none_iff.mp hread
        have hanswer : (c.answer (.mintsRemaining chain p account)).2 = c := by
          simp [answer, ofNode, Node.mintsRemaining, ofMinter, hminter]
        rw [hanswer]
        exact .refl c
    | projectState | balance | allowance | decimals => cases hread
    | receipt chain txHash =>
        rw [answer_receipt]
        exact quiet_after c (isSend_receiptRequest txHash) 1 _
    | send => exact absurd trivial h
    | project | allowlist | ownedTokens | vaults => exact ⟨rfl, rfl⟩
  · obtain ⟨n, result, -, hanswer⟩ := answer_contract hread c
    rw [hanswer]
    exact quiet_after c (isSend_contractRead r) n _

/-- Calls that send nothing leave it at that, as a group and in a program. -/
theorem start_quiet {calls : List Call} (h : ∀ call ∈ calls, ¬ call.IsSend) (c : Clients) :
    ∃ (answers : Except Fault (Answers calls)) (asked : List Call) (c' : Clients),
      Slots.start environment calls c = (answers.map Slots.ofAnswers, asked, c') ∧ Quiet c c' := by
  induction calls generalizing c with
  | nil => exact ⟨.ok (), [], c, rfl, .refl c⟩
  | cons call calls ih =>
      have hask : environment.ask call c = (.now (c.answer call).1, (c.answer call).2) := rfl
      have hquiet := quiet_answer (h call List.mem_cons_self) c
      rw [Slots.start, hask]
      cases (c.answer call).1 with
      | error fault => exact ⟨.error fault, [call], _, rfl, hquiet⟩
      | ok answer =>
          obtain ⟨answers, asked, c', hstart, hrest⟩ :=
            ih (fun other hother => h other (List.mem_cons_of_mem call hother)) (c.answer call).2
          refine ⟨answers.map (answer, ·), call :: asked, c', ?_, hquiet.trans hrest⟩
          dsimp only
          rw [hstart]
          cases answers <;> rfl

theorem run_quiet {α : Type} {p : Program α} {ends : Except Fault α → Prop}
    (h : p.Within (¬ ·.IsSend) ends) (c : Clients) :
    ∃ result asked c', p.run environment c = (.finished result, asked, c') ∧ Quiet c c' := by
  induction p generalizing c with
  | done result => exact ⟨result, [], c, rfl, .refl c⟩
  | ask calls next ih =>
      obtain ⟨hcalls, hnext⟩ := h
      obtain ⟨answers, first, between, hstart, hquiet⟩ := start_quiet hcalls c
      obtain ⟨result, more, c', hrun, hrest⟩ := ih answers (hnext answers) between
      refine ⟨result, first ++ more, c', ?_, hquiet.trans hrest⟩
      rw [Program.run, hstart]
      cases answers with
      | error fault => simp only [Except.map, hrun]
      | ok answers => simp only [Except.map, Slots.answers?_ofAnswers, hrun]

theorem sends_posted {c : Clients} (h : c.node.peer.isListening) (txs : List Transaction) :
    (c.posted txs).node.peer.sends = c.node.peer.sends ++ txs.map some :=
  Peer.sends_afterAll h txs

/-- A submission first finds out what there is to send, and asks nobody to send anything until it
knows. Then it posts the first `n` transactions, in order and each once: the one that is not
answered with a hash is the last. It succeeds exactly if all are answered with hashes, and then with
the last of these, and the wallet's owner has declined exactly if the last answer says so. -/
theorem run_submission_posts (s : Checkout.Setup) (state : PurchaseState) (account : Option Address)
    (price : Option Amount) (c : Clients) :
    ∃ result asked c',
      (Checkout.submissionProgram s state account price).run environment c =
        (.finished result, asked, c') ∧
      ((∃ fault, (Checkout.preparation s state account price).run environment c =
          (.finished (.error fault), asked, c') ∧ result = .error fault ∧
          (∀ call ∈ asked, ¬ call.IsSend) ∧ c'.node.peer.sends = c.node.peer.sends) ∨
        ∃ txs prelude before n,
          (Checkout.preparation s state account price).run environment c =
            (.finished (.ok txs), prelude, before) ∧
          (∀ call ∈ prelude, ¬ call.IsSend) ∧
          asked = prelude ++ (txs.take n).map (.send s.wallet) ∧
          (c.node.peer.isListening →
            c'.node.peer.sends = c.node.peer.sends ++ (txs.take n).map some) ∧
          Posts before.node.peer.answerAt txs n result ∧
          ((∃ txHash, result = .ok txHash) ↔
            ∀ i < txs.length, ∃ txHash, GivesHash (before.node.peer.answerAt i) txHash)) := by
  have hwithin := Checkout.preparation_within s state account price
  obtain ⟨prepared, prelude, before, hrun, hquiet⟩ := run_quiet hwithin c
  obtain ⟨hends, hprelude⟩ := hwithin.run environment c
  rw [hrun] at hends hprelude
  have hbind := Program.run_bind hrun (Checkout.sendAll s.wallet none)
  rw [← Checkout.submissionProgram_eq_bind] at hbind
  cases prepared with
  | error fault =>
      refine ⟨.error fault, prelude, before, ?_, .inl ⟨fault, hrun, rfl, hprelude, hquiet.sends_eq⟩⟩
      rw [hbind]
      change (_, prelude ++ [], _) = _
      rw [List.append_nil]
      rfl
  | ok txs =>
      obtain ⟨n, result, hposts, hsends⟩ := run_sendAll s.wallet (hends txs rfl) none before
      change _ = (((Checkout.sendAll s.wallet none txs).run environment before).1, _ ++
        ((Checkout.sendAll s.wallet none txs).run environment before).2.1,
        ((Checkout.sendAll s.wallet none txs).run environment before).2.2) at hbind
      rw [hsends] at hbind
      refine ⟨result, _, _, hbind, .inr ⟨txs, prelude, before, n, hrun, hprelude, rfl, ?_, hposts,
        hposts.isOk_iff⟩⟩
      intro hlistening
      rw [sends_posted (hquiet.isListening_eq.trans hlistening), hquiet.sends_eq]

end Clients

end MintSale.Wire
