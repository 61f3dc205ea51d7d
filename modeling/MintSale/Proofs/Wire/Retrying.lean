import Mathlib.Tactic.Ring
import MintSale.Wire.Clients

/-!
# Reads that are tried again

A read posts its request again for as long as an answer leaves hope for the next one, five times in
all at most. It waits two seconds before the second attempt and twice as long before each further
one. What comes of it is what comes of the last attempt.
-/

namespace MintSale.Wire

/-! ## Peers that are asked again and again -/

namespace Peer

/-- The answer to the request that comes after `i` others. -/
def answerAt (p : Peer) (i : Nat) : Option (Nat × String) :=
  if p.isListening then
    match p.script[i]? with
    | some (.answered status body) => some (status, body)
    | _ => none
  else none

/-- The peer after so many times the same request. -/
def after (p : Peer) (r : Request) (n : Nat) : Peer :=
  if p.isListening then
    { p with script := p.script.drop n, received := p.received ++ List.replicate n r }
  else p

theorem post_eq (p : Peer) (r : Request) : p.post r = (p.answerAt 0, p.after r 1) := by
  obtain ⟨isListening, script, received⟩ := p
  cases isListening with
  | false => rfl
  | true => rcases script with - | ⟨(- | ⟨status, body⟩), rest⟩ <;> rfl

theorem answerAt_after (p : Peer) (r : Request) (n : Nat) :
    (p.after r n).answerAt = fun i => p.answerAt (n + i) := by
  funext i
  unfold after
  split
  · next h => simp [answerAt, h]
  · next h => simp [answerAt, h]

theorem after_after (p : Peer) (r : Request) (m n : Nat) :
    (p.after r m).after r n = p.after r (m + n) := by
  cases h : p.isListening with
  | false => simp [after, h]
  | true => simp [after, h, List.replicate_append_replicate]

end Peer

namespace Node

/-! ## Attempts -/

section

variable {α : Type} (c : Codec α) (method : String)

/-- With these answers a read ends after `n` of at most `more` further attempts: all before leave
hope, and the last one does not, or is the last that there may be. -/
structure Ends (answers : Nat → Option (Nat × String)) (more n : Nat) (result : Except Fault α) :
    Prop where
  le : n ≤ more
  earlier : ∀ i < n, ∃ fault, interpret c method (answers i) = .error ⟨fault, true⟩
  stops : n < more → ∀ fault, interpret c method (answers n) ≠ .error ⟨fault, true⟩
  result_eq : (interpret c method (answers n)).mapError Failure.fault = result

variable {c method} (params : Json)

theorem Ends.again {answers : Nat → Option (Nat × String)} {more n : Nat}
    {result : Except Fault α} {fault : Fault}
    (hfirst : interpret c method (answers 0) = .error ⟨fault, true⟩)
    (h : Ends c method (fun i => answers (1 + i)) more n result) :
    Ends c method answers (more + 1) (n + 1) result where
  le := Nat.succ_le_succ h.le
  earlier i hi := by
    cases i with
    | zero => exact ⟨fault, hfirst⟩
    | succ i =>
        rw [Nat.add_comm i]
        exact h.earlier i (Nat.lt_of_succ_lt_succ hi)
  stops hlt := by
    rw [Nat.add_comm n]
    exact h.stops (Nat.lt_of_succ_lt_succ hlt)
  result_eq := by
    rw [Nat.add_comm n]
    exact h.result_eq

theorem Ends.at_once {answers : Nat → Option (Nat × String)} {more : Nat}
    (h : more = 0 ∨ ∀ fault, interpret c method (answers 0) ≠ .error ⟨fault, true⟩) :
    Ends c method answers more 0 ((interpret c method (answers 0)).mapError Failure.fault) where
  le := Nat.zero_le more
  earlier i hi := absurd hi (Nat.not_lt_zero i)
  stops hlt := h.resolve_left (Nat.ne_of_gt hlt)
  result_eq := rfl

theorem readWithin_at_once {more pause : Nat} {s : Session}
    (h : more = 0 ∨ ∀ fault, interpret c method (s.peer.answerAt 0) ≠ .error ⟨fault, true⟩) :
    readWithin c method params more pause s =
      ((interpret c method (s.peer.answerAt 0)).mapError Failure.fault,
        ⟨s.peer.after ⟨none, callBody method params⟩ 1, s.waited⟩) := by
  rw [readWithin.eq_def]
  simp only [callOnce, Peer.post_eq]
  rcases hresult : interpret c method (s.peer.answerAt 0) with ⟨fault, _ | _⟩ | a
  · cases more <;> rfl
  · rcases h with rfl | h
    · rfl
    · exact absurd hresult (h fault)
  · rfl

theorem readWithin_again {more pause : Nat} {s : Session} {fault : Fault}
    (h : interpret c method (s.peer.answerAt 0) = .error ⟨fault, true⟩) :
    readWithin c method params (more + 1) pause s =
      readWithin c method params more (min (2 * pause) longestPause)
        ⟨s.peer.after ⟨none, callBody method params⟩ 1, s.waited + pause⟩ := by
  rw [readWithin.eq_def]
  simp only [callOnce, Peer.post_eq, h]
  rfl

theorem pauses_succ (pause n : Nat) :
    pause + 2 * pause * (2 ^ n - 1) = pause * (2 ^ (n + 1) - 1) := by
  obtain ⟨k, hk⟩ : ∃ k, 2 ^ n = k + 1 := Nat.exists_eq_succ_of_ne_zero (Nat.two_pow_pos n).ne'
  have hdouble : (k + 1) * 2 - 1 = 2 * k + 1 := by omega
  rw [Nat.pow_succ, hk, hdouble, Nat.add_sub_cancel]
  ring

/-- The pauses never get as long as the longest one, so each is twice the one before. -/
theorem readWithin_ends {more pause : Nat} (hpause : pause * 2 ^ more ≤ longestPause)
    (s : Session) :
    ∃ n result, Ends c method s.peer.answerAt more n result ∧
      readWithin c method params more pause s =
        (result, ⟨s.peer.after ⟨none, callBody method params⟩ (n + 1),
          s.waited + pause * (2 ^ n - 1)⟩) := by
  induction more generalizing pause s with
  | zero =>
      refine ⟨0, _, .at_once (.inl rfl), ?_⟩
      rw [readWithin_at_once params (.inl rfl)]
      rfl
  | succ more ih =>
      by_cases hagain : ∃ fault, interpret c method (s.peer.answerAt 0) = .error ⟨fault, true⟩
      · obtain ⟨fault, hagain⟩ := hagain
        -- One attempt less and twice the pause: the bound is the same, so no pause is cut short.
        have htwice : 2 * pause * 2 ^ more ≤ longestPause := by
          rwa [Nat.mul_comm 2, Nat.mul_assoc, ← Nat.pow_succ']
        have hmin : min (2 * pause) longestPause = 2 * pause :=
          Nat.min_eq_left (Nat.le_trans (Nat.le_mul_of_pos_right _ (Nat.two_pow_pos more)) htwice)
        obtain ⟨n, result, hends, hread⟩ := ih htwice
          ⟨s.peer.after ⟨none, callBody method params⟩ 1, s.waited + pause⟩
        rw [Peer.answerAt_after] at hends
        refine ⟨n + 1, result, .again hagain hends, ?_⟩
        have hwaited : s.waited + pause + 2 * pause * (2 ^ n - 1) =
            s.waited + pause * (2 ^ (n + 1) - 1) := by
          rw [Nat.add_assoc, pauses_succ]
        rw [readWithin_again params hagain, hmin, hread, Peer.after_after, Nat.add_comm 1]
        dsimp only
        rw [hwaited]
      · have hstops := not_exists.mp hagain
        refine ⟨0, _, .at_once (.inr hstops), ?_⟩
        rw [readWithin_at_once params (.inr hstops)]
        rfl

end

/-! ## Answers to a read of a contract -/

/-- An answer that settles what comes of a read: a value, an error that will be the same again, or
neither. Where an error comes with a value, the error counts. -/
inductive Settles : Option (Nat × String) → Except Fault String → Prop where
  | value {status : Nat} {body text : String} (hstatus : status ≠ 429)
      (hreply : (Reply.codec .string).decode body = .ok ⟨some text, none⟩) :
      Settles (some (status, body)) (.ok text)
  | hard {status : Nat} {body : String} {result : Option String} {code : Int} {message : String}
      (hstatus : status ≠ 429)
      (hreply : (Reply.codec .string).decode body = .ok ⟨result, some ⟨code, message⟩⟩)
      (hcode : code ∈ [-32600, -32601, -32602, 3]) :
      Settles (some (status, body)) (.error (.node code message))
  | rejected {status : Nat} {body : String} {result : Option String} {message : String}
      (hstatus : status ≠ 429)
      (hreply : (Reply.codec .string).decode body = .ok ⟨result, some ⟨4001, message⟩⟩) :
      Settles (some (status, body)) (.error .userRejected)
  | empty {status : Nat} {body : String} (hstatus : status ≠ 429)
      (hreply : (Reply.codec .string).decode body = .ok ⟨none, none⟩) :
      Settles (some (status, body)) (.error (.node 0 "Empty result from eth_call"))

/-- An answer that leaves hope for the next one, and what is wrong with it: there is none, there
were too many requests, it is no reply at all, or it reports some other error. -/
inductive LeavesHope : Option (Nat × String) → Fault → Prop where
  | dropped : LeavesHope none .transport
  | limited (body : String) : LeavesHope (some (429, body)) (.node 429 "rate limited")
  | garbled {status : Nat} {body : String} {fault : Json.Fault} (hstatus : status ≠ 429)
      (hbody : (Reply.codec .string).decode body = .error fault) :
      LeavesHope (some (status, body)) .transport
  | soft {status : Nat} {body : String} {result : Option String} {code : Int} {message : String}
      (hstatus : status ≠ 429)
      (hreply : (Reply.codec .string).decode body = .ok ⟨result, some ⟨code, message⟩⟩)
      (hcode : code ∉ [-32600, -32601, -32602, 3, 4001]) :
      LeavesHope (some (status, body)) (.node code message)

variable {answer : Option (Nat × String)} {fault : Fault} {result : Except Fault String}

theorem interpret_of_error {status : Nat} {body : String} {e : NodeError} {reply : Option String}
    (hstatus : status ≠ 429) (hreply : (Reply.codec .string).decode body = .ok ⟨reply, some e⟩) :
    interpret .string "eth_call" (some (status, body)) = .error ⟨e.fault, !e.isHard⟩ := by
  simp [interpret, hstatus, hreply]

theorem Settles.interpret_eq (h : Settles answer result) :
    interpret .string "eth_call" answer = result.mapError (⟨·, false⟩) := by
  cases h with
  | value hstatus hreply => simp [interpret, hstatus, hreply, Except.mapError]
  | hard hstatus hreply hcode =>
      rw [interpret_of_error hstatus hreply]
      rcases (by simpa using hcode) with rfl | rfl | rfl | rfl <;> rfl
  | rejected hstatus hreply =>
      rw [interpret_of_error hstatus hreply]
      rfl
  | empty hstatus hreply =>
      simp only [interpret, if_neg hstatus, hreply]
      rfl

theorem LeavesHope.interpret_eq (h : LeavesHope answer fault) :
    interpret .string "eth_call" answer = .error ⟨fault, true⟩ := by
  cases h with
  | dropped => rfl
  | limited body => rfl
  | garbled hstatus hbody => simp [interpret, hstatus, hbody, Failure.transport]
  | soft hstatus hreply hcode =>
      rw [interpret_of_error hstatus hreply]
      simp_all [NodeError.fault, NodeError.isHard, NodeError.rejected]

theorem settles_or_leavesHope (answer : Option (Nat × String)) :
    (∃ result, Settles answer result) ∨ ∃ fault, LeavesHope answer fault := by
  rcases answer with - | ⟨status, body⟩
  · exact .inr ⟨_, .dropped⟩
  by_cases hstatus : status = 429
  · subst hstatus
    exact .inr ⟨_, .limited body⟩
  rcases hreply : (Reply.codec .string).decode body with fault | ⟨reply, e⟩
  · exact .inr ⟨_, .garbled hstatus hreply⟩
  rcases e with - | ⟨code, message⟩
  · cases reply with
    | none => exact .inl ⟨_, .empty hstatus hreply⟩
    | some text => exact .inl ⟨_, .value hstatus hreply⟩
  · by_cases hcode : code ∈ [-32600, -32601, -32602, 3]
    · exact .inl ⟨_, .hard hstatus hreply hcode⟩
    by_cases hrejected : code = 4001
    · subst hrejected
      exact .inl ⟨_, .rejected hstatus hreply⟩
    · exact .inr ⟨_, .soft hstatus hreply (by simp_all)⟩

theorem leavesHope_iff :
    LeavesHope answer fault ↔ interpret .string "eth_call" answer = .error ⟨fault, true⟩ := by
  refine ⟨LeavesHope.interpret_eq, fun h => ?_⟩
  rcases settles_or_leavesHope answer with ⟨result, hsettles⟩ | ⟨other, hhope⟩
  · rw [hsettles.interpret_eq] at h
    cases result <;> cases h
  · rw [hhope.interpret_eq] at h
    cases h
    exact hhope

theorem Settles.not_leavesHope (h : Settles answer result) : ¬ LeavesHope answer fault := by
  intro hhope
  have heq := h.interpret_eq.symm.trans hhope.interpret_eq
  cases result <;> cases heq

theorem Settles.mapError_eq (h : Settles answer result) :
    (interpret .string "eth_call" answer).mapError Failure.fault = result := by
  rw [h.interpret_eq]
  cases result <;> rfl

/-! ## Reads of a contract -/

/-- A read ends at its attempt `n`: the first one with an answer that settles what comes of the
read, or else the fifth. -/
structure EndsAt (answers : Nat → Option (Nat × String)) (n : Nat) (result : Except Fault String) :
    Prop where
  pos : 0 < n
  le_five : n ≤ 5
  earlier : ∀ i, i + 1 < n → ∃ fault, LeavesHope (answers i) fault
  last : Settles (answers (n - 1)) result ∨
    n = 5 ∧ ∃ fault, LeavesHope (answers 4) fault ∧ result = .error fault

variable {answers : Nat → Option (Nat × String)} {m n : Nat} {result' : Except Fault String}

theorem Ends.endsAt (h : Ends .string "eth_call" answers retries n result) :
    EndsAt answers (n + 1) result where
  pos := Nat.succ_pos n
  le_five := Nat.succ_le_succ h.le
  earlier i hi := by
    obtain ⟨fault, hfault⟩ := h.earlier i (Nat.lt_of_succ_lt_succ hi)
    exact ⟨fault, leavesHope_iff.mpr hfault⟩
  last := by
    rw [Nat.add_sub_cancel]
    rcases settles_or_leavesHope (answers n) with ⟨other, hsettles⟩ | ⟨fault, hhope⟩
    · rw [← h.result_eq, hsettles.mapError_eq]
      exact .inl hsettles
    · have hlast : n = retries :=
        Nat.le_antisymm h.le (Nat.le_of_not_lt fun hlt => h.stops hlt fault hhope.interpret_eq)
      subst hlast
      refine .inr ⟨rfl, fault, hhope, ?_⟩
      rw [← h.result_eq, hhope.interpret_eq]
      rfl

theorem EndsAt.le (h : EndsAt answers n result) (h' : EndsAt answers m result') : n ≤ m := by
  by_contra hlt
  have hearlier : m - 1 + 1 < n := by
    have hpos := h'.pos
    omega
  obtain ⟨fault, hhope⟩ := h.earlier (m - 1) hearlier
  rcases h'.last with hsettles | ⟨rfl, -⟩
  · exact hsettles.not_leavesHope hhope
  · exact hlt h.le_five

/-- There is one such attempt. -/
theorem EndsAt.unique (h : EndsAt answers n result) (h' : EndsAt answers m result') :
    n = m ∧ result = result' := by
  obtain rfl : n = m := Nat.le_antisymm (h.le h') (h'.le h)
  refine ⟨rfl, ?_⟩
  rcases h.last with hsettles | ⟨rfl, fault, hhope, rfl⟩ <;>
    rcases h'.last with hsettles' | ⟨hfive, fault', hhope', rfl⟩
  · exact hsettles.mapError_eq.symm.trans hsettles'.mapError_eq
  · subst hfive
    exact absurd hhope' hsettles.not_leavesHope
  · exact absurd hhope hsettles'.not_leavesHope
  · obtain rfl : fault = fault' := by
      have heq := hhope.interpret_eq.symm.trans hhope'.interpret_eq
      cases heq
      rfl
    rfl

/-- What a contract is asked, and how what it returns is read. -/
structure ContractRead (α : Type) where
  address : Address
  data : List UInt8
  decode : List UInt8 → Except AbiFault α

namespace ContractRead

variable {α : Type} (r : ContractRead α)

def params : Json :=
  .array [.record [("to", Octets.codec.write r.address), ("data", .text (dataText r.data))],
    .text "latest"]

/-- The request that is posted. -/
def request : Request where
  apiKey := none
  body := callBody "eth_call" r.params

/-- What the text of a value comes to. -/
def value (text : String) : Except Fault α := do
  let bytes ← readData text
  (r.decode bytes).mapError .abi

end ContractRead

theorem contract_ends {α : Type} (r : ContractRead α) (s : Session) :
    ∃ n result, EndsAt s.peer.answerAt n result ∧
      contract r.address r.data r.decode s =
        (result.bind r.value, ⟨s.peer.after r.request n, s.waited + (2 ^ n - 2)⟩) := by
  obtain ⟨n, result, hends, hread⟩ : ∃ n result, Ends .string "eth_call" _ retries n result ∧ _ :=
    readWithin_ends r.params (by decide : firstPause * 2 ^ retries ≤ longestPause) s
  refine ⟨n + 1, result, hends.endsAt, ?_⟩
  have hwaited : firstPause * (2 ^ n - 1) = 2 ^ (n + 1) - 2 := by
    rw [firstPause, Nat.mul_sub, Nat.pow_succ']
  rw [hwaited] at hread
  change ((readWithin .string "eth_call" r.params retries firstPause s).1.bind r.value,
    (readWithin .string "eth_call" r.params retries firstPause s).2) = _
  rw [hread]
  rfl

theorem ofMinter_eq {α : Type} {p : Project} {minter : MinterConfiguration}
    (h : p.minter = some minter) (data : List UInt8) (decode : List UInt8 → Except AbiFault α) :
    ofMinter p data decode = contract minter.address data decode := by
  funext s
  rw [ofMinter, h]

end Node

/-! ## All reads -/

open Node

/-- What a call reads from which contract. A project without a minter has none that could be asked
about its sale. -/
def contractRead? : (call : Call) → Option (ContractRead call.Answer)
  | .priceInfo _ p => p.minter.map fun minter =>
    ⟨minter.address, Method.priceInfo.call [indexArgument p, .address p.core],
      ReturnData.priceInfo⟩
  | .projectState _ p =>
    some ⟨p.core, Method.projectState.call [indexArgument p], ReturnData.projectState⟩
  | .mintsRemaining _ p account => p.minter.map fun minter =>
    ⟨minter.address,
      Method.mintsRemaining.call [indexArgument p, .address p.core, .address account],
      ReturnData.mintsRemaining⟩
  | .balance _ token owner =>
    some ⟨token, Method.balanceOf.call [.address owner], ReturnData.single ReturnData.amount⟩
  | .allowance _ token owner spender =>
    some ⟨token, Method.allowance.call [.address owner, .address spender],
      ReturnData.single ReturnData.amount⟩
  | .decimals _ token =>
    some ⟨token, Method.decimals.call [], ReturnData.single ReturnData.decimals⟩
  | .receipt .. | .send .. | .project .. | .allowlist .. | .ownedTokens .. | .vaults .. => none

namespace Clients

theorem answer_contractRead {call : Call} {r : ContractRead call.Answer}
    (h : contractRead? call = some r) (c : Clients) :
    c.answer call = ofNode (contract r.address r.data r.decode) c := by
  cases call with
  | priceInfo chain p =>
      obtain ⟨minter, hminter, rfl⟩ := Option.map_eq_some_iff.mp h
      exact congrArg (ofNode · c) (ofMinter_eq hminter _ _)
  | mintsRemaining chain p account =>
      obtain ⟨minter, hminter, rfl⟩ := Option.map_eq_some_iff.mp h
      exact congrArg (ofNode · c) (ofMinter_eq hminter _ _)
  | projectState | balance | allowance | decimals =>
      obtain rfl := Option.some.inj h
      rfl
  | receipt | send | project | allowlist | ownedTokens | vaults => cases h

/-- Every read of a contract ends at the first attempt with an answer that settles what comes of it,
or else at the fifth. Until then it has posted the same request each time, and waited before each
attempt but the first one. What it comes to is what the last attempt does. -/
theorem answer_endsAt {call : Call} {r : ContractRead call.Answer}
    (h : contractRead? call = some r) (c : Clients) :
    ∃ n result, EndsAt c.node.peer.answerAt n result ∧
      (c.answer call).1 = result.bind r.value ∧
      (c.answer call).2 = { c with
        node := ⟨c.node.peer.after r.request n, c.node.waited + (2 ^ n - 2)⟩ } ∧
      (c.node.peer.isListening → (c.answer call).2.node.peer.received =
        c.node.peer.received ++ List.replicate n r.request) ∧
      n ≤ 5 ∧ (c.answer call).2.node.waited ≤ c.node.waited + 30 := by
  obtain ⟨n, result, hends, hcontract⟩ := contract_ends r c.node
  have hanswer : c.answer call = (result.bind r.value, { c with
      node := ⟨c.node.peer.after r.request n, c.node.waited + (2 ^ n - 2)⟩ }) := by
    rw [answer_contractRead h, ofNode, hcontract]
  have hpauses : 2 ^ n ≤ 2 ^ 5 := Nat.pow_le_pow_right (by decide) hends.le_five
  refine ⟨n, result, hends, by rw [hanswer], by rw [hanswer], ?_, hends.le_five, ?_⟩
  · intro hlistening
    rw [hanswer]
    simp [Peer.after, hlistening]
  · rw [hanswer]
    dsimp only
    omega

namespace Sample

/-- A text for the number six. -/
def six : String :=
  "0x0000000000000000000000000000000000000000000000000000000000000006"

def reply : String :=
  "\x7b\"result\":\"" ++ six ++ "\"\x7d"

/-- A node that drops the first request, turns the second one down, and answers the third. -/
def clients : Clients where
  node := ⟨⟨true, [.dropped, .answered 429 "", .answered 200 reply], []⟩, 0⟩
  catalog := ⟨false, [], []⟩
  apiKey := none
  account := none

def token : Address := .replicate 20 0xee

theorem decode_reply : (Reply.codec .string).decode reply = .ok ⟨some six, none⟩ := by
  have hread : ((Reply.codec .string).decode reply).toOption.map
      (fun r => (r.result, r.error.isNone)) = some (some six, true) := by
    decide +kernel
  cases hreply : (Reply.codec .string).decode reply with
  | error fault =>
      rw [hreply] at hread
      cases hread
  | ok r =>
      obtain ⟨result, error⟩ := r
      rw [hreply] at hread
      obtain ⟨rfl, hnone⟩ := Prod.mk.inj (Option.some.inj hread)
      obtain rfl : error = none := Option.isNone_iff_eq_none.mp hnone
      rfl

theorem endsAt_third : EndsAt clients.node.peer.answerAt 3 (.ok six) where
  pos := by decide
  le_five := by decide
  earlier i hi := by
    rcases (by omega : i = 0 ∨ i = 1) with rfl | rfl
    · exact ⟨_, .dropped⟩
    · exact ⟨_, .limited ""⟩
  last := by
    exact .inl (.value (by decide) decode_reply)

end Sample

/-- The number of decimals is read with the third request, after six seconds. -/
theorem answer_endsAt_third :
    ∃ r, contractRead? (.decimals ⟨"chain"⟩ Sample.token) = some r ∧
      (Sample.clients.answer (.decimals ⟨"chain"⟩ Sample.token)).1 = .ok (6 : UInt8) ∧
      (Sample.clients.answer (.decimals ⟨"chain"⟩ Sample.token)).2.node.peer.received =
        List.replicate 3 r.request ∧
      (Sample.clients.answer (.decimals ⟨"chain"⟩ Sample.token)).2.node.waited = 6 := by
  have hcall : contractRead? (.decimals ⟨"chain"⟩ Sample.token) = some _ := rfl
  obtain ⟨n, result, hends, hanswer, hclients, -⟩ := answer_endsAt hcall Sample.clients
  refine ⟨_, hcall, ?_⟩
  obtain ⟨rfl, rfl⟩ := hends.unique Sample.endsAt_third
  rw [hanswer, hclients]
  have hsix : (⟨Sample.token, Method.decimals.call [], ReturnData.single ReturnData.decimals⟩ :
      ContractRead UInt8).value Sample.six = .ok 6 := by
    decide +kernel
  exact ⟨hsix, rfl, rfl⟩

end Clients

end MintSale.Wire
