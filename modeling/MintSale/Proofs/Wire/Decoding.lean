import Mathlib.Data.List.Basic
import MintSale.Proofs.ReturnData
import MintSale.Proofs.Wire.Replies

/-!
# What contracts answer

A contract answers in words, and each call has its own encoding of values. A read that gets an
answer comes to a value exactly if the answer begins with the words that encode it. Everything else
is an error in the call data: no number is cut off to fit, and no word but those that are asked for
counts.
-/

namespace MintSale.Wire

open ReturnData

/-- These words are the answer of a contract that says this value: a yes is one and a no is zero, a
number is itself. What still may be minted says nothing if mints are not limited. -/
inductive Encodes : (call : Call) → call.Answer → List Word → Prop where
  | priceInfo {chain : ChainClient} {project : Project} {info : PriceInfo}
      {configured price : Word} (hconfigured : configured.toNat = info.isConfigured.toNat)
      (hprice : price.toNat = info.price.toNat) :
      Encodes (.priceInfo chain project) info [configured, price]
  | projectState {chain : ChainClient} {project : Project} {state : ProjectState}
      {invocations maxInvocations active paused completed : Word}
      (hinvocations : invocations.toNat = state.invocations.toNat)
      (hmax : maxInvocations.toNat = state.maxInvocations.toNat)
      (hactive : active.toNat = state.active.toNat) (hpaused : paused.toNat = state.paused.toNat)
      (hcompleted : state.completedAt = none ∧ completed.toNat = 0 ∨
        ∃ time : UInt64, state.completedAt = some time ∧ time ≠ 0 ∧ completed.toNat = time.toNat) :
      Encodes (.projectState chain project) state
        [invocations, maxInvocations, active, paused, completed]
  | unlimited {chain : ChainClient} {project : Project} {account : Address}
      {limited remaining : Word} (hlimited : limited.toNat = 0) :
      Encodes (.mintsRemaining chain project account) none [limited, remaining]
  | limited {chain : ChainClient} {project : Project} {account : Address} {n : UInt64}
      {limited remaining : Word} (hlimited : limited.toNat = 1)
      (hremaining : remaining.toNat = n.toNat) :
      Encodes (.mintsRemaining chain project account) (some n) [limited, remaining]
  | balance {chain : ChainClient} {token owner : Address} {a : Amount} {word : Word}
      (hword : word.toNat = a.toNat) : Encodes (.balance chain token owner) a [word]
  | allowance {chain : ChainClient} {token owner spender : Address} {a : Amount} {word : Word}
      (hword : word.toNat = a.toNat) : Encodes (.allowance chain token owner spender) a [word]
  | decimals {chain : ChainClient} {token : Address} {n : UInt8} {word : Word}
      (hword : word.toNat = n.toNat) : Encodes (.decimals chain token) n [word]

/-! ## Each reader -/

theorem reads_priceInfo (chain : ChainClient) (project : Project) :
    Reads priceInfo 2 (Encodes (.priceInfo chain project)) := by
  refine reads_words (fun _ => rfl) ?_ fun data info ws more hws => ?_
  · rintro info ws ⟨⟩
    rfl
  obtain ⟨configured, price, rfl⟩ := List.length_eq_two.mp hws
  change (do .ok ⟨← flag configured, ← amount price⟩) = Except.ok info ↔ _
  simp only [bind_eq_ok, flag_eq_ok_iff, amount_eq_ok_iff]
  constructor
  · rintro ⟨b, hconfigured, a, hprice, hinfo⟩
    obtain rfl := Except.ok.inj hinfo
    exact .priceInfo hconfigured hprice
  · intro hencodes
    cases hencodes with
    | priceInfo hconfigured hprice => exact ⟨_, hconfigured, _, hprice, rfl⟩

theorem reads_projectState (chain : ChainClient) (project : Project) :
    Reads projectState 5 (Encodes (.projectState chain project)) := by
  refine reads_words (fun _ => rfl) ?_ fun data state ws more hws => ?_
  · rintro state ws ⟨⟩
    rfl
  obtain ⟨invocations, maxInvocations, active, paused, completed, rfl⟩ : ∃ a b c d e,
      ws = [a, b, c, d, e] := by
    match ws, hws with
    | [a, b, c, d, e], _ => exact ⟨a, b, c, d, e, rfl⟩
  change (do
    let completed ← count completed
    .ok {
      invocations := ← count invocations
      maxInvocations := ← count maxInvocations
      active := ← flag active
      paused := ← flag paused
      completedAt := if completed = 0 then none else some completed }) = Except.ok state ↔ _
  simp only [bind_eq_ok, flag_eq_ok_iff, count_eq_ok_iff]
  constructor
  · rintro ⟨time, htime, n, hn, max, hmax, a, ha, p, hp, hstate⟩
    obtain rfl := Except.ok.inj hstate
    refine .projectState hn hmax ha hp ?_
    by_cases hzero : time = 0
    · refine .inl ⟨if_pos hzero, ?_⟩
      rw [htime, hzero]
      rfl
    · exact .inr ⟨time, if_neg hzero, hzero, htime⟩
  · intro hencodes
    cases hencodes with
    | projectState hn hmax ha hp hcompleted =>
        rcases state with ⟨n, max, a, p, completedAt⟩
        rcases hcompleted with ⟨rfl, hzero⟩ | ⟨time, rfl, hne, htime⟩
        · exact ⟨0, hzero, n, hn, max, hmax, a, ha, p, hp, rfl⟩
        · refine ⟨time, htime, n, hn, max, hmax, a, ha, p, hp, ?_⟩
          rw [if_neg hne]

theorem reads_mintsRemaining (chain : ChainClient) (project : Project) (account : Address) :
    Reads mintsRemaining 2 (Encodes (.mintsRemaining chain project account)) := by
  refine reads_words (fun _ => rfl) ?_ fun data answer ws more hws => ?_
  · rintro answer ws (_ | _) <;> rfl
  obtain ⟨limited, remaining, rfl⟩ := List.length_eq_two.mp hws
  change (do
    if ← flag limited then
      let n ← count remaining
      .ok (some n)
    else .ok none) = Except.ok answer ↔ _
  simp only [bind_eq_ok, flag_eq_ok_iff]
  constructor
  · rintro ⟨b, hlimited, hanswer⟩
    cases b with
    | false =>
        obtain rfl := Except.ok.inj hanswer
        exact .unlimited hlimited
    | true =>
        obtain ⟨n, hremaining, hn⟩ := bind_eq_ok.mp hanswer
        obtain rfl := Except.ok.inj hn
        exact .limited hlimited (count_eq_ok_iff.mp hremaining)
  · intro hencodes
    cases hencodes with
    | unlimited hlimited => exact ⟨false, hlimited, rfl⟩
    | limited hlimited hremaining =>
        exact ⟨true, hlimited, bind_eq_ok.mpr ⟨_, count_eq_ok_iff.mpr hremaining, rfl⟩⟩

/-- Every reader of a contract's answer accepts what encodes a value, and nothing else. -/
theorem reads_decode {call : Call} {r : Node.ContractRead call.Answer}
    (h : contractRead? call = some r) : ∃ least, Reads r.decode least (Encodes call) := by
  cases call with
  | priceInfo chain p =>
      obtain ⟨minter, -, rfl⟩ := Option.map_eq_some_iff.mp h
      exact ⟨2, reads_priceInfo chain p⟩
  | projectState chain p =>
      obtain rfl := Option.some.inj h
      exact ⟨5, reads_projectState chain p⟩
  | mintsRemaining chain p account =>
      obtain ⟨minter, -, rfl⟩ := Option.map_eq_some_iff.mp h
      exact ⟨2, reads_mintsRemaining chain p account⟩
  | balance chain token owner =>
      obtain rfl := Option.some.inj h
      refine ⟨1, reads_single ?_ fun a word => amount_eq_ok_iff.trans ?_⟩
      · rintro a ws ⟨⟩
        rfl
      · exact ⟨.balance, fun | .balance hword => hword⟩
  | allowance chain token owner spender =>
      obtain rfl := Option.some.inj h
      refine ⟨1, reads_single ?_ fun a word => amount_eq_ok_iff.trans ?_⟩
      · rintro a ws ⟨⟩
        rfl
      · exact ⟨.allowance, fun | .allowance hword => hword⟩
  | decimals chain token =>
      obtain rfl := Option.some.inj h
      refine ⟨1, reads_single ?_ fun n word => decimals_eq_ok_iff.trans ?_⟩
      · rintro n ws ⟨⟩
        rfl
      · exact ⟨.decimals, fun | .decimals hword => hword⟩
  | receipt | send | project | allowlist | ownedTokens | vaults => cases h

/-! ## Reads -/

namespace Clients

/-- A read that gets data comes to a value exactly if the data begin with the words that encode it,
whatever stands behind them. On all other data it fails, as data that cannot be read. -/
theorem answer_decodes {call : Call} {r : Node.ContractRead call.Answer}
    (h : contractRead? call = some r) (c : Clients) {n : Nat} {text : String}
    {data : List UInt8} (hends : Node.EndsAt c.node.peer.answerAt n (.ok text))
    (hdata : Node.readData text = .ok data) :
    (∀ value, (c.answer call).1 = .ok value ↔
      ∃ ws, Encodes call value ws ∧ ∃ rest, data = ws.flatMap Octets.toList ++ rest) ∧
    ((¬ ∃ value ws, Encodes call value ws ∧ ∃ rest, data = ws.flatMap Octets.toList ++ rest) →
      ∃ cause, (c.answer call).1 = .error (.abi cause)) := by
  obtain ⟨least, hreads⟩ := reads_decode h
  have hanswer : (c.answer call).1 = (r.decode data).mapError .abi := by
    obtain ⟨m, result, hends', hanswer⟩ := answer_contract h c
    obtain ⟨-, rfl⟩ := hends.unique hends'
    rw [hanswer]
    change (Node.readData text).bind (fun bytes => (r.decode bytes).mapError .abi) = _
    rw [hdata]
    rfl
  rw [hanswer]
  constructor
  · intro value
    rw [← hreads.eq_ok_iff]
    cases r.decode data <;> simp [Except.mapError]
  · intro hnone
    cases hdecode : r.decode data with
    | error cause => exact ⟨cause, rfl⟩
    | ok value => exact absurd ⟨value, hreads.eq_ok_iff.mp hdecode⟩ hnone

/-- The word six is read as six decimals. -/
theorem answer_decodes_six :
    (Sample.clients.answer (.decimals ⟨"chain"⟩ Sample.token)).1 = .ok (6 : UInt8) := by
  have hcall : contractRead? (.decimals ⟨"chain"⟩ Sample.token) = some _ := rfl
  have hdata : Node.readData Sample.six = .ok (Octets.ofNat 32 6).toList := by
    decide +kernel
  have hencodes : Encodes (.decimals ⟨"chain"⟩ Sample.token) (6 : UInt8) [Octets.ofNat 32 6] :=
    .decimals (by decide)
  have hdecodes := (answer_decodes hcall Sample.clients Sample.endsAt_third hdata).1
  exact (hdecodes _).mpr ⟨[Octets.ofNat 32 6], hencodes, [], by simp⟩

end Clients

end MintSale.Wire
