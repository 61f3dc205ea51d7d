import MintSale.Proofs.Checkout.Faults
import MintSale.Proofs.Wire.Retrying

/-!
# Projects in the catalogue

What a project takes over from the record that the catalogue has of it. A project is priced in the
currency of its record, unless that currency has an address but no symbol.
-/

namespace MintSale

namespace Applicant

theorem check_currency_eq_fail {a : Applicant} (h : a.project.currency.contract = none) :
    a.check .setPriceErc20 = .fail (.missing .currencyAddress) := by
  rw [check, checkCurrency, h]
  rfl

/-- Just if the currency has an address, the check of it only fails for want of one when a client
says so. -/
theorem check_currency_candid_iff (a : Applicant) :
    (a.check .setPriceErc20).Candid (· ≠ .missing .currencyAddress)
        MinterKind.setPriceErc20.Serves ↔ a.project.currency.contract.isSome := by
  constructor
  · intro hcandid
    by_contra hnone
    rw [check_currency_eq_fail (by simpa using hnone)] at hcandid
    exact hcandid rfl
  · intro hsome
    refine a.checkCurrency_candid (fun hnone => ?_) nofun
    simp [hnone] at hsome

end Applicant

namespace Wire

namespace Catalog

/-! ## Replies with a record -/

/-- An answer delivers the record of a project: it is no failure, and its body has the record and no
errors. -/
def Delivers (answer : Option (Nat × String)) (record : ProjectRecord) : Prop :=
  ∃ status body errors, answer = some (status, body) ∧ isFailure status = false ∧
    (Reply.codec projectData).decode body = .ok ⟨some (some record), errors⟩ ∧
    errors.getD [] = []

theorem Delivers.interpret_eq {answer : Option (Nat × String)} {record : ProjectRecord}
    (h : Delivers answer record) : interpret projectData answer = .ok (some record) := by
  obtain ⟨status, body, errors, rfl, hstatus, hbody, herrors⟩ := h
  rw [interpret, hstatus, if_neg Bool.false_ne_true, hbody]
  rcases errors with - | (- | ⟨e, errors⟩)
  · rfl
  · rfl
  · cases herrors

theorem project_eq (apiKey : Option String) (id : String) {p : Peer} {record : ProjectRecord}
    (h : Delivers (p.answerAt 0) record) : (project apiKey id p).1 = record.toProject := by
  simp only [project, query, Peer.post_eq, h.interpret_eq]
  rfl

/-! ## Currencies -/

namespace ProjectRecord

/-- The currency has an address, but nothing to call it by. -/
def HasNamelessCurrency (r : ProjectRecord) : Prop :=
  r.currencySymbol = none ∧ r.currencyAddress.isSome

variable {r : ProjectRecord}

theorem currency_of_toProject {project : Project} (h : r.toProject = .ok project) :
    project.currency = r.currency := by
  unfold toProject at h
  split at h
  · cases h
  · obtain rfl := Except.ok.inj h
    rfl

theorem contract_of_nameless (h : r.HasNamelessCurrency) : r.currency.contract = none := by
  rw [currency, h.1]
  rfl

theorem contract_of_not_nameless (h : ¬ r.HasNamelessCurrency) :
    r.currency.contract = r.currencyAddress := by
  unfold currency
  cases hsymbol : r.currencySymbol with
  | some symbol => rfl
  | none =>
      have hnone : r.currencyAddress = none :=
        Option.not_isSome_iff_eq_none.mp fun hsome => h ⟨hsymbol, hsome⟩
      exact hnone.symm

end ProjectRecord

end Catalog

namespace Clients

open Catalog

/-- The project of a delivered record has the currency address of the record, and so the check of
its currency does not fail for want of one that the record names, unless the currency of the record
has an address but no symbol. Then the address is lost. -/
theorem answer_project_keepsCurrency_iff (c : Clients) (id : String) {record : ProjectRecord}
    {project : Project} (hreply : Delivers (c.catalog.answerAt 0) record)
    (hproject : record.toProject = .ok project) :
    (c.answer (.project id)).1 = .ok project ∧
    (project.currency.contract = record.currencyAddress ↔ ¬ record.HasNamelessCurrency) ∧
    (record.currencyAddress.isSome → ∀ a : Applicant, a.project = project →
      ((a.check .setPriceErc20).Candid (· ≠ .missing .currencyAddress)
        MinterKind.setPriceErc20.Serves ↔ ¬ record.HasNamelessCurrency)) := by
  have hcurrency := ProjectRecord.currency_of_toProject hproject
  have hanswer : (c.answer (.project id)).1 = .ok project :=
    (project_eq c.apiKey id hreply).trans hproject
  refine ⟨hanswer, ?_, fun hnamed a ha => ?_⟩
  · rw [hcurrency]
    refine ⟨fun hkept hnameless => ?_, ProjectRecord.contract_of_not_nameless⟩
    have hsome := hnameless.2
    rw [← hkept, ProjectRecord.contract_of_nameless hnameless] at hsome
    cases hsome
  · rw [a.check_currency_candid_iff, ha, hcurrency]
    refine ⟨fun hsome hnameless => ?_, fun hnameless => ?_⟩
    · rw [ProjectRecord.contract_of_nameless hnameless] at hsome
      cases hsome
    · rwa [ProjectRecord.contract_of_not_nameless hnameless]

namespace Sample

def contractText : String :=
  "0xeeeeeeeeeeeeeeeeeeeeeeeeeeeeeeeeeeeeeeee"

/-- What a catalogue says of a project that is priced in a token, which it may name. -/
def projectBody (symbol : String) : String :=
  .join ["\x7b\"data\":\x7b\"projects_metadata_by_pk\":\x7b\"id\":\"proj-1\",\"project_id\":\"1\"",
    ",\"contract_address\":\"", contractText, "\",\"artist_address\":\"", contractText,
    "\",\"name\":\"Fidenza\",\"complete\":false,\"currency_symbol\":", symbol,
    ",\"currency_address\":\"", contractText, "\"\x7d\x7d\x7d"]

def projectRecord (symbol : Option String) : ProjectRecord where
  id := "proj-1"
  index := "1"
  core := .replicate 20 0xee
  artist := .replicate 20 0xee
  name := "Fidenza"
  complete := false
  startTime := none
  endTime := none
  currencySymbol := symbol
  currencyAddress := some (.replicate 20 0xee)
  configuration := none

def project (currency : Currency) : Project where
  id := "proj-1"
  index := 1
  core := .replicate 20 0xee
  artist := .replicate 20 0xee
  name := "Fidenza"
  complete := false
  startTime := none
  endTime := none
  currency := currency
  minter := none

/-- Clients of a catalogue with one answer. -/
def reading (body : String) : Clients where
  node := ⟨⟨false, [], []⟩, 0⟩
  catalog := ⟨true, [.answered 200 body], []⟩
  apiKey := none
  account := none

/-- A text is read off its characters. Those of a text that is put together are known without it. -/
theorem decode_of_toList {α : Type} (c : Codec α) {text : String} {cs : List Char}
    (h : text.toList = cs) :
    c.decode text =
      let (value, rest) := Json.value (cs.length + 1) cs
      match c.read Codec.levels value with
      | .error fault => .error fault
      | .ok a => if (Json.skipBlanks rest).isEmpty then .ok a else .error .malformed := by
  subst h
  rfl

theorem delivers_named : Delivers ((reading (projectBody "\"USDC\"")).catalog.answerAt 0)
    (projectRecord (some "USDC")) := by
  have hbody : (Reply.codec projectData).decode (projectBody "\"USDC\"") =
      .ok ⟨some (some (projectRecord (some "USDC"))), none⟩ := by
    rw [projectBody, decode_of_toList _ String.toList_join]
    decide +kernel
  exact ⟨200, _, none, rfl, by decide, hbody, rfl⟩

theorem delivers_nameless : Delivers ((reading (projectBody "null")).catalog.answerAt 0)
    (projectRecord none) := by
  have hbody : (Reply.codec projectData).decode (projectBody "null") =
      .ok ⟨some (some (projectRecord none)), none⟩ := by
    rw [projectBody, decode_of_toList _ String.toList_join]
    decide +kernel
  exact ⟨200, _, none, rfl, by decide, hbody, rfl⟩

end Sample

/-- A project that is priced in a named token keeps the token's address. -/
theorem answer_project_keepsCurrency_named :
    ((Sample.reading (Sample.projectBody "\"USDC\"")).answer (.project "proj-1")).1 =
        .ok (Sample.project ⟨"USDC", some (.replicate 20 0xee)⟩) ∧
      (Sample.project ⟨"USDC", some (.replicate 20 0xee)⟩).currency.contract =
        (Sample.projectRecord (some "USDC")).currencyAddress := by
  have hproject : (Sample.projectRecord (some "USDC")).toProject =
      .ok (Sample.project ⟨"USDC", some (.replicate 20 0xee)⟩) := by
    decide
  obtain ⟨hanswer, hkeeps, -⟩ :=
    answer_project_keepsCurrency_iff _ "proj-1" Sample.delivers_named hproject
  exact ⟨hanswer, hkeeps.mpr nofun⟩

/-- A project that is priced in a token without a symbol passes for one that is priced in the
chain's own currency, and nobody can be found eligible to pay with the token. -/
theorem answer_project_loses_currency :
    Delivers ((Sample.reading (Sample.projectBody "null")).catalog.answerAt 0)
        (Sample.projectRecord none) ∧
      (Sample.projectRecord none).currencyAddress = some (.replicate 20 0xee) ∧
      ((Sample.reading (Sample.projectBody "null")).answer (.project "proj-1")).1 =
        .ok (Sample.project .native) ∧
      (Sample.project .native).currency.contract = none ∧
      ∀ a : Applicant, a.project = Sample.project .native →
        a.check .setPriceErc20 = .fail (.missing .currencyAddress) := by
  refine ⟨Sample.delivers_nameless, rfl, ?_, rfl, fun a ha => ?_⟩
  · have hproject : (Sample.projectRecord none).toProject = .ok (Sample.project .native) := by
      decide
    exact (project_eq none "proj-1" Sample.delivers_nameless).trans hproject
  · exact Applicant.check_currency_eq_fail (by rw [ha]; rfl)

end Clients

end Wire

end MintSale
