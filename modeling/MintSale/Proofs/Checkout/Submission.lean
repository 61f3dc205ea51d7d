import MintSale.Proofs.Checkout.Approval
import MintSale.Proofs.Checkout.Scenes

/-!
# Submissions

A submission makes the purchase that one command asks for. What it sends is settled by that command,
the wallet's account and what the wallet's check has found, and once every transaction has got its
hash, the last hash is that of the purchase.
-/

namespace MintSale

open History

/-! ## What a request comes to -/

/-- The token that an eligible wallet buys with unless another one is chosen. -/
def EligibilityDetails.firstToken : EligibilityDetails → Option HolderToken
  | .holder tokens => tokens.head?
  | _ => none

namespace Checkout

/-- The purchase that a request comes to. The wallet has an account when the request arrives and may
have another one, the payer, when the submission begins. -/
def purchaseFor (s : Setup) (request : PurchaseRequest) (account : Address)
    (details : EligibilityDetails) (payer : Option Address) (price : Option Amount) :
    Except Fault Purchase :=
  match payer, price, s.project.minter with
  | some payer, some price, some minter =>
    .ok {
      project := s.project
      minter := minter
      account := payer
      purchaseTo := request.purchaseTo.getD account
      price := price
      details := details
      selectedToken := (request.additional.bind (·.holderToken)).or details.firstToken
      chain := s.chain }
  | none, _, _ => .error (.missing .walletAccount)
  | _, none, _ => .error .liveDataUnavailable
  | _, _, none => .error .noMinter

/-- Sends the transactions of a purchase. -/
def submit (s : Setup) (purchase : Except Fault Purchase) : Program Hash := do
  let p ← Program.ofExcept purchase
  let txs ← p.transactions s.kind
  sendAll s.wallet none txs

/-- A submission that begins with what a request has left behind submits its purchase. -/
theorem submissionProgram_eq {s : Setup} {state : PurchaseState} {request : PurchaseRequest}
    {account : Address} {details : EligibilityDetails}
    (hto : state.purchaseTo = some (request.purchaseTo.getD account))
    (hadditional : state.additional = request.additional)
    (heligibility : state.eligibility = some details) (payer : Option Address)
    (price : Option Amount) :
    submissionProgram s state payer price =
      submit s (purchaseFor s request account details payer price) := by
  have htoken : selectedToken state =
      (request.additional.bind (·.holderToken)).or details.firstToken := by
    rw [selectedToken, hadditional, heligibility]
    cases request.additional.bind (·.holderToken) with
    | some token => rfl
    | none => cases details <;> rfl
  unfold submissionProgram submit purchaseFor
  rw [htoken, hto, heligibility]
  cases payer with
  | none => rfl
  | some payer =>
      cases price with
      | none => rfl
      | some price => cases s.project.minter <;> rfl

/-! ## Sending -/

def sent (wallet : WalletClient) (tx : Transaction) (txHash : Hash) : Answered :=
  ⟨.send wallet tx, .ok txHash⟩

/-- When all transactions have been sent, each has got a hash. -/
theorem leads_sendAll {wallet : WalletClient} {txs : List Transaction} {last : Option Hash}
    {heard : List Answered} {txHash : Hash}
    (h : (sendAll wallet last txs).Leads heard (.done (.ok txHash))) :
    ∃ hashes : List Hash, hashes.length = txs.length ∧
      heard = List.zipWith (sent wallet) txs hashes ∧ hashes.getLast?.or last = some txHash := by
  induction txs generalizing last heard with
  | nil =>
      cases last with
      | none => cases h
      | some last =>
          cases h
          exact ⟨[], rfl, rfl, rfl⟩
  | cons tx txs ih =>
      obtain ⟨first, (answer : Hash), second, rfl, hfirst, hsecond⟩ := h.of_bind
      obtain rfl := hfirst.of_call
      obtain ⟨hashes, hlength, rfl, hlast⟩ := ih hsecond
      refine ⟨answer :: hashes, by simp [hlength], rfl, ?_⟩
      simpa [List.getLast?_cons] using hlast

/-- Every transaction of a purchase has got a hash, one after the other, and the last hash is that
of the purchase. -/
def Completes (s : Setup) (p : Purchase) (heard : List Answered) (txHash : Hash) : Prop :=
  ∃ prelude txs hashes, (p.transactions s.kind).Leads prelude (.done (.ok txs)) ∧
    hashes.length = txs.length ∧ heard = prelude ++ List.zipWith (sent s.wallet) txs hashes ∧
    hashes.getLast? = some txHash

theorem leads_submit {s : Setup} {purchase : Except Fault Purchase} {heard : List Answered}
    {txHash : Hash} (h : (submit s purchase).Leads heard (.done (.ok txHash))) :
    ∃ p, purchase = .ok p ∧ Completes s p heard txHash := by
  cases purchase with
  | error fault => cases h
  | ok p =>
      have hp : (p.transactions s.kind >>= sendAll s.wallet none).Leads heard
        (.done (.ok txHash)) := h
      obtain ⟨prelude, txs, rest, rfl, htxs, hrest⟩ := hp.of_bind
      obtain ⟨hashes, hlength, rfl, hlast⟩ := leads_sendAll hrest
      refine ⟨p, rfl, prelude, txs, hashes, htxs, hlength, rfl, ?_⟩
      simpa using hlast

theorem oneByOne_transactions (p : Purchase) (kind : MinterKind) :
    (p.transactions kind).OneByOne := by
  cases kind with
  | setPriceErc20 =>
      rw [Purchase.transactions, Purchase.currencyTransactions]
      split
      · exact (Program.oneByOne_call _).bind fun _ => trivial
      · trivial
  | merkle | holder | setPrice | daExp | daLin | daExpSettlement => trivial

theorem oneByOne_sendAll (wallet : WalletClient) (txs : List Transaction) (last : Option Hash) :
    (sendAll wallet last txs).OneByOne := by
  induction txs generalizing last with
  | nil => cases last <;> trivial
  | cons tx txs ih => exact (Program.oneByOne_call _).bind fun txHash => ih (some txHash)

theorem oneByOne_submit (s : Setup) (purchase : Except Fault Purchase) :
    (submit s purchase).OneByOne := by
  cases purchase with
  | error fault => trivial
  | ok p =>
      exact (oneByOne_transactions p s.kind).bind fun txs => oneByOne_sendAll s.wallet txs none

/-- A call that lets a wallet send something is for a transaction of a purchase. -/
def Serves (s : Setup) (purchase : Except Fault Purchase) (call : Call) : Prop :=
  ∀ wallet tx, call = .send wallet tx →
    wallet = s.wallet ∧ ∃ p, purchase = .ok p ∧ p.Builds s.kind tx

/-- A submission only lets its wallet send what its purchase consists of. -/
theorem submit_serves (s : Setup) (purchase : Except Fault Purchase) :
    (submit s purchase).Within (Serves s purchase) fun _ => True := by
  cases purchase with
  | error fault => trivial
  | ok p =>
      change (p.transactions s.kind >>= sendAll s.wallet none).Within _ _
      apply sending_within
      · rintro tx hbuilds wallet tx' ⟨⟩
        exact ⟨rfl, p, rfl, hbuilds⟩
      · rintro call hcall wallet tx rfl
        exact absurd trivial hcall

/-- A purchase is for whom it was asked for, by the account that pays, and with the token that was
chosen or else with the first one found. -/
theorem purchaseFor_ok {s : Setup} {request : PurchaseRequest} {account : Address}
    {details : EligibilityDetails} {payer : Option Address} {price : Option Amount} {p : Purchase}
    (h : purchaseFor s request account details payer price = .ok p) :
    payer = some p.account ∧ p.purchaseTo = request.purchaseTo.getD account ∧
      p.selectedToken = (request.additional.bind (·.holderToken)).or details.firstToken := by
  unfold purchaseFor at h
  split at h
  · obtain rfl := Except.ok.inj h
    exact ⟨rfl, rfl, rfl⟩
  · simp at h
  · simp at h
  · simp at h

end Checkout

/-! ## Commands and submissions in a story -/

/-- The purchase that is reported as sent. -/
def Deed.sale? : Deed → Option (Hash × Address)
  | .posted ⟨_, _, .submitted txHash purchaseTo⟩ => some (txHash, purchaseTo)
  | _ => none

theorem Deed.filterMap_sale?_asked (calls : List Call) :
    (calls.map Deed.asked).filterMap Deed.sale? = [] := by
  simp [List.filterMap_map, Deed.sale?]

theorem Deed.filterMap_sale?_post (line : Line) (report : Report) :
    ((line.post report).toList.map Deed.posted).filterMap Deed.sale? = [] ∨
      ∃ txHash purchaseTo, report = .submitted txHash purchaseTo ∧
        ((line.post report).toList.map Deed.posted).filterMap Deed.sale? =
          [(txHash, purchaseTo)] := by
  unfold Line.post
  split
  · exact .inl rfl
  · cases report with
    | submitted txHash purchaseTo => exact .inr ⟨txHash, purchaseTo, rfl, rfl⟩
    | liveData | failed | purchaseState => exact .inl rfl

theorem Deed.filterMap_sale?_post_eq_nil (line : Line) {report : Report}
    (h : ∀ txHash purchaseTo, report ≠ .submitted txHash purchaseTo) :
    ((line.post report).toList.map Deed.posted).filterMap Deed.sale? = [] := by
  rcases Deed.filterMap_sale?_post line report with hnone | ⟨txHash, purchaseTo, hreport, -⟩
  · exact hnone
  · exact absurd hreport (h txHash purchaseTo)

/-- Whether a deed settles what is known of the wallet's eligibility. -/
def Deed.IsVerdict : Deed → Prop
  | .took .reset | .endedCheck _ => True
  | _ => False

variable {σ : Type}

namespace Scene

/-- The checkout takes up a request, for it is ready and the wallet has an account. -/
structure Accepts (env : Environment σ) (wallet : WalletClient) (s : Scene σ)
    (request : PurchaseRequest) (account : Address) : Prop where
  deeds_eq : s.deeds = [.took (.purchase request)]
  phase_eq : s.before.state.phase = .readyForPurchase
  account_eq : env.account s.worldBefore wallet = some account

def sales (s : Scene σ) : List (Hash × Address) :=
  s.deeds.filterMap Deed.sale?

theorem sales_of_asked {s : Scene σ} {asked : List Call} (h : s.deeds = asked.map .asked) :
    s.sales = [] := by
  rw [sales, h, Deed.filterMap_sale?_asked]

theorem sales_of_ended {s : Scene σ} {asked : List Call} {deed : Deed} {messages : List Message}
    (h : s.deeds = asked.map .asked ++ deed :: messages.map .posted) (hdeed : deed.sale? = none) :
    s.sales = (messages.map Deed.posted).filterMap Deed.sale? := by
  rw [sales, h, List.filterMap_append, Deed.filterMap_sale?_asked, List.filterMap_cons_none hdeed]
  rfl

/-- The scene leaves everything as it is, and there is nothing new to report. -/
structure IsIdle (s : Scene σ) : Prop where
  after_eq : s.after = s.before
  world_eq : s.worldAfter = s.worldBefore
  publish_eq : s.after.publish = (s.after, [])

/-- Nothing begins, ends or is given up, nothing is reported as sent, and no request is taken up. -/
structure IsQuiet (env : Environment σ) (wallet : WalletClient) (s : Scene σ) : Prop where
  not_isTurn : ∀ deed ∈ s.deeds, ¬ deed.IsTurn
  sales_eq : s.sales = []
  not_accepts : ∀ request account, ¬ s.Accepts env wallet request account

end Scene

namespace Checkout

variable {env : Environment σ} {wallet : WalletClient} {setup : Setup} {story : List (Scene σ)}

/-- The last request that a checkout has taken up, when nothing has come of it yet. -/
structure Order (env : Environment σ) (wallet : WalletClient) (story : List (Scene σ)) where
  earlier : List (Scene σ)
  scene : Scene σ
  since : List (Scene σ)
  request : PurchaseRequest
  account : Address
  story_eq : story = earlier ++ scene :: since
  accepts : scene.Accepts env wallet request account
  quiet : ∀ s ∈ since, s.IsQuiet env wallet

/-- Who is to get what has been ordered. -/
def Order.destination (o : Order env wallet story) : Address :=
  o.request.purchaseTo.getD o.account

def Order.chosenToken (o : Order env wallet story) : Option HolderToken :=
  o.request.additional.bind (·.holderToken)

/-- The last submission that has begun, when nothing else has begun or ended since. It follows an
order, and the details are what the last check of the wallet has found. -/
structure Submission (env : Environment σ) (setup : Setup) (story : List (Scene σ)) where
  earlier : List (Scene σ)
  scene : Scene σ
  since : List (Scene σ)
  order : Order env setup.wallet earlier
  details : EligibilityDetails
  price : Option Amount
  story_eq : story = earlier ++ scene :: since
  eligible : Latest Deed.IsVerdict (deedsOf earlier) (.endedCheck (.ok (.eligible details)))
  begins : scene.deeds = [.beganSubmission (env.account scene.worldBefore setup.wallet) price]
  quiet : ∀ s ∈ since, s.IsQuiet env setup.wallet

namespace Submission

def purchase (x : Submission env setup story) : Except Fault Purchase :=
  purchaseFor setup x.order.request x.order.account x.details
    (env.account x.scene.worldBefore setup.wallet) x.price

/-- The answers that the submission has got. -/
def heard (x : Submission env setup story) : List Answered :=
  x.since.flatMap (·.heard)

end Submission

variable {s : Scene σ}

def Order.extend (o : Order env wallet story) (hs : s.IsQuiet env wallet) :
    Order env wallet (story ++ [s]) where
  earlier := o.earlier
  scene := o.scene
  since := o.since ++ [s]
  request := o.request
  account := o.account
  story_eq := by simp [o.story_eq]
  accepts := o.accepts
  quiet := List.forall_mem_append.mpr ⟨o.quiet, List.forall_mem_singleton.mpr hs⟩

def Submission.extend (x : Submission env setup story) (hs : s.IsQuiet env setup.wallet) :
    Submission env setup (story ++ [s]) where
  earlier := x.earlier
  scene := x.scene
  since := x.since ++ [s]
  order := x.order
  details := x.details
  price := x.price
  story_eq := by simp [x.story_eq]
  eligible := x.eligible
  begins := x.begins
  quiet := List.forall_mem_append.mpr ⟨x.quiet, List.forall_mem_singleton.mpr hs⟩

@[simp] theorem Submission.extend_purchase (x : Submission env setup story)
    (hs : s.IsQuiet env setup.wallet) : (x.extend hs).purchase = x.purchase :=
  rfl

@[simp] theorem Submission.extend_heard (x : Submission env setup story)
    (hs : s.IsQuiet env setup.wallet) : (x.extend hs).heard = x.heard ++ s.heard := by
  simp [Submission.extend, Submission.heard]

end Checkout

end MintSale
