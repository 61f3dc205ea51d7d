import MintSale.Proofs.Wire.Retrying

/-!
# Replies

What an answer of a node comes to, and which answers are replies at all. A request that is posted
once comes to what its answer does.
-/

namespace MintSale.Wire

namespace Node

variable {α : Type} (c : Codec α) (method : String)

/-- An answer delivers a reply: it says nothing of too many requests, and its body can be read. -/
def Delivers (answer : Option (Nat × String)) (reply : Reply α) : Prop :=
  ∃ status body, answer = some (status, body) ∧ status ≠ 429 ∧
    (Reply.codec c).decode body = .ok reply

/-- What comes of an answer. Whatever is no reply may be better the next time. -/
inductive Interprets : Option (Nat × String) → Except Failure α → Prop where
  | dropped : Interprets none (.error .transport)
  | limited (body : String) :
      Interprets (some (429, body)) (.error ⟨.node 429 "rate limited", true⟩)
  | garbled {status : Nat} {body : String} {fault : Json.Fault} (hstatus : status ≠ 429)
      (hbody : (Reply.codec c).decode body = .error fault) :
      Interprets (some (status, body)) (.error .transport)
  | reported {answer : Option (Nat × String)} {result : Option α} {e : NodeError}
      (hdelivers : Delivers c answer ⟨result, some e⟩) :
      Interprets answer (.error ⟨e.fault, !e.isHard⟩)
  | empty {answer : Option (Nat × String)} (hdelivers : Delivers c answer ⟨none, none⟩) :
      Interprets answer (.error ⟨.node 0 s!"Empty result from {method}", false⟩)
  | value {answer : Option (Nat × String)} {a : α} (hdelivers : Delivers c answer ⟨some a, none⟩) :
      Interprets answer (.ok a)

variable {c method} {answer : Option (Nat × String)}

theorem Delivers.unique {reply reply' : Reply α} (h : Delivers c answer reply)
    (h' : Delivers c answer reply') : reply = reply' := by
  obtain ⟨status, body, rfl, -, hreply⟩ := h
  obtain ⟨_, _, hanswer, -, hreply'⟩ := h'
  obtain ⟨rfl, rfl⟩ := Prod.mk.inj (Option.some.inj hanswer)
  exact Except.ok.inj (hreply.symm.trans hreply')

theorem Delivers.iff {reply reply' : Reply α} (h : Delivers c answer reply) :
    Delivers c answer reply' ↔ reply' = reply :=
  ⟨fun h' => h'.unique h, fun heq => heq ▸ h⟩

theorem interprets_interpret (answer : Option (Nat × String)) :
    Interprets c method answer (interpret c method answer) := by
  rcases answer with - | ⟨status, body⟩
  · exact .dropped
  by_cases hstatus : status = 429
  · subst hstatus
    exact .limited body
  rw [interpret, if_neg hstatus]
  rcases hreply : (Reply.codec c).decode body with fault | ⟨result, e⟩
  · exact .garbled hstatus hreply
  have hdelivers : Delivers c (some (status, body)) ⟨result, e⟩ := ⟨_, _, rfl, hstatus, hreply⟩
  rcases e with - | e
  · cases result with
    | none => exact .empty hdelivers
    | some a => exact .value hdelivers
  · cases result <;> exact .reported hdelivers

theorem Interprets.interpret_eq {result : Except Failure α}
    (h : Interprets c method answer result) : interpret c method answer = result := by
  cases h with
  | dropped => rfl
  | limited body => rfl
  | garbled hstatus hbody => simp [interpret, hstatus, hbody]
  | reported hdelivers =>
      obtain ⟨status, body, rfl, hstatus, hreply⟩ := hdelivers
      simp [interpret, hstatus, hreply]
  | empty hdelivers =>
      obtain ⟨status, body, rfl, hstatus, hreply⟩ := hdelivers
      simp [interpret, hstatus, hreply]
  | value hdelivers =>
      obtain ⟨status, body, rfl, hstatus, hreply⟩ := hdelivers
      simp [interpret, hstatus, hreply]

theorem interprets_iff {result : Except Failure α} :
    Interprets c method answer result ↔ interpret c method answer = result :=
  ⟨Interprets.interpret_eq, fun h => h ▸ interprets_interpret answer⟩

/-- What is no reply comes to an error of the transport, or to one about too many requests. -/
theorem interpret_of_not_delivers (h : ¬ ∃ reply, Delivers c answer reply) :
    interpret c method answer = .error .transport ∨
      interpret c method answer = .error ⟨.node 429 "rate limited", true⟩ := by
  have hcases : Interprets c method answer _ := interprets_interpret answer
  generalize interpret c method answer = outcome at hcases ⊢
  cases hcases with
  | dropped | garbled => exact .inl rfl
  | limited => exact .inr rfl
  | reported hdelivers | empty hdelivers | value hdelivers => exact absurd ⟨_, hdelivers⟩ h

/-- A value comes of a reply that has one and no error, and of nothing else. -/
theorem interpret_eq_ok_iff {a : α} :
    interpret c method answer = .ok a ↔ Delivers c answer ⟨some a, none⟩ := by
  rw [← interprets_iff]
  constructor
  · intro h
    cases h with
    | value hdelivers => exact hdelivers
  · exact .value

theorem callOnce_eq (params : Json) (p : Peer) :
    callOnce c method params p =
      (interpret c method (p.answerAt 0), p.after ⟨none, callBody method params⟩ 1) := by
  simp [callOnce, Peer.post_eq]

end Node

/-- What comes of a read of a contract, and what it leaves behind. -/
theorem Clients.answer_contract {call : Call} {r : Node.ContractRead call.Answer}
    (h : contractRead? call = some r) (c : Clients) :
    ∃ n result, Node.EndsAt c.node.peer.answerAt n result ∧
      c.answer call = (result.bind r.value,
        { c with node := ⟨c.node.peer.after r.request n, c.node.waited + (2 ^ n - 2)⟩ }) := by
  obtain ⟨n, result, hends, hcontract⟩ := Node.contract_ends r c.node
  exact ⟨n, result, hends, by rw [answer_contractRead h, ofNode, hcontract]⟩

end MintSale.Wire
