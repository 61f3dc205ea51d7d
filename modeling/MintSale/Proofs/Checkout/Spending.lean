import MintSale.Proofs.Checkout.Meaning
import MintSale.Proofs.Checkout.Submission

/-!
# What minters may spend

A minter that sells for a currency takes the price out of what the buyer allows it to spend, and
each purchase uses this up. A submission asks how much is left when it begins, whatever the check of
the wallet has found before, and approves the price if that is too little. Along any number of
submissions, the minter is never called to sell when it may not spend the price.
-/

namespace MintSale

open Calldata Checkout

/-! ## Allowances -/

/-- How much spenders may take out of what owners have, as contracts keep it: by currency, owner and
spender. -/
abbrev Allowances := (currency owner spender : Address) → Word

namespace Allowances

/-- The allowances, with one of them set to a number. -/
def set (b : Allowances) (currency owner spender : Address) (n : Nat) : Allowances :=
  fun c o s => if c = currency ∧ o = owner ∧ s = spender then .ofNat 32 n else b c o s

/-- An approval sets an allowance to its amount. -/
def afterApproval (b : Allowances) (tx : Transaction) : List Argument → Allowances
  | [.address spender, .uint amount] => b.set tx.recipient tx.sender spender amount.toNat
  | _ => b

/-- A purchase in a currency uses up its price. -/
def afterPurchase (b : Allowances) (tx : Transaction) : List Argument → Allowances
  | [.address _, .uint _, .address _, .uint price, .address currency] =>
    b.set currency tx.sender tx.recipient
      ((b currency tx.sender tx.recipient).toNat - price.toNat)
  | _ => b

/-- What a transaction does to the allowances, going by its data. -/
def after (b : Allowances) (tx : Transaction) : Allowances :=
  match readCall? tx.data with
  | some (signature, args) =>
    if signature = "approve(address,uint256)" then b.afterApproval tx args
    else if signature = "purchaseTo(address,uint256,address,uint256,address)" then
      b.afterPurchase tx args
    else b
  | none => b

/-- An allowance is small enough for a client. -/
def IsReadable (b : Allowances) (currency owner spender : Address) : Prop :=
  (b currency owner spender).toNat < 2 ^ 128

/-- What a client makes of an allowance that a contract returns. -/
def reading (word : Word) : Except Fault Amount :=
  (ReturnData.single ReturnData.amount word.toList).mapError .abi

/-- Answers to calls turn allowances into others: reads tell what is allowed, each transaction gets
a hash and takes effect before anything else is asked, and nobody else changes anything. -/
inductive Becomes : Allowances → List Answered → Allowances → Prop where
  | refl (b : Allowances) : Becomes b [] b
  | read {b b' : Allowances} {heard : List Answered} (chain : ChainClient)
      (currency owner spender : Address) (h : Becomes b heard b') :
      Becomes b (⟨.allowance chain currency owner spender, reading (b currency owner spender)⟩ ::
        heard) b'
  | sent {b b' : Allowances} {heard : List Answered} (wallet : WalletClient) (tx : Transaction)
      (txHash : Hash) (h : Becomes (b.after tx) heard b') :
      Becomes b (sent wallet tx txHash :: heard) b'

variable {b b' : Allowances} {c o s currency owner spender : Address} {n : Nat}

@[simp] theorem set_self : b.set currency owner spender n currency owner spender = .ofNat 32 n :=
  if_pos ⟨rfl, rfl, rfl⟩

theorem set_of_ne (h : ¬ (c = currency ∧ o = owner ∧ s = spender)) :
    b.set currency owner spender n c o s = b c o s :=
  if_neg h

theorem reading_eq (word : Word) : reading word = (ReturnData.amount word).mapError .abi := by
  rw [reading, ReturnData.single_toList]

theorem reading_of_isReadable (h : b.IsReadable c o s) :
    ∃ allowance : Amount, allowance.toNat = (b c o s).toNat ∧ reading (b c o s) = .ok allowance := by
  refine ⟨⟨(b c o s).toNat, by simpa [IsReadable] using h⟩, rfl, ?_⟩
  rw [reading_eq, ReturnData.amount, Amount.ofNat?, dif_pos]
  rfl

theorem reading_of_not_isReadable (h : ¬ b.IsReadable c o s) :
    reading (b c o s) = .error (.abi .over128Bits) := by
  rw [reading_eq, ReturnData.amount, Amount.ofNat?, dif_neg (by simpa [IsReadable] using h)]
  rfl

theorem becomes_read_iff {chain : ChainClient} {result : Except Fault Amount}
    {heard : List Answered} :
    b.Becomes (⟨.allowance chain currency owner spender, result⟩ :: heard) b' ↔
      result = reading (b currency owner spender) ∧ b.Becomes heard b' := by
  constructor
  · intro h
    cases h with
    | read _ _ _ _ h => exact ⟨rfl, h⟩
  · rintro ⟨rfl, h⟩
    exact .read chain currency owner spender h

theorem becomes_sent_iff {wallet : WalletClient} {tx : Transaction} {result : Except Fault Hash}
    {heard : List Answered} :
    b.Becomes (⟨.send wallet tx, result⟩ :: heard) b' ↔
      (∃ txHash, result = .ok txHash) ∧ (b.after tx).Becomes heard b' := by
  constructor
  · intro h
    cases h with
    | sent _ _ txHash h => exact ⟨⟨txHash, rfl⟩, h⟩
  · rintro ⟨⟨txHash, rfl⟩, h⟩
    exact .sent wallet tx txHash h

theorem toNat_set_self (h : n < 2 ^ 128) :
    (b.set currency owner spender n currency owner spender).toNat = n := by
  rw [set_self, Octets.toNat_ofNat (by omega)]

theorem IsReadable.set (hb : b.IsReadable c o s)
    (hn : c = currency → o = owner → s = spender → n < 2 ^ 128) :
    (b.set currency owner spender n).IsReadable c o s := by
  by_cases h : c = currency ∧ o = owner ∧ s = spender
  · obtain ⟨rfl, rfl, rfl⟩ := h
    rw [IsReadable, toNat_set_self (hn rfl rfl rfl)]
    exact hn rfl rfl rfl
  · rwa [IsReadable, set_of_ne h]

/-- Whatever is sent, an allowance that can be read still can afterwards. -/
theorem IsReadable.after (hb : b.IsReadable c o s) (tx : Transaction) :
    (b.after tx).IsReadable c o s := by
  have happroval : ∀ args, (b.afterApproval tx args).IsReadable c o s := by
    intro args
    unfold afterApproval
    split
    · next amount => exact hb.set fun _ _ _ => by simpa using amount.toNat_lt
    · exact hb
  have hpurchase : ∀ args, (b.afterPurchase tx args).IsReadable c o s := by
    intro args
    unfold afterPurchase
    split
    · refine hb.set ?_
      rintro rfl rfl rfl
      exact Nat.lt_of_le_of_lt (Nat.sub_le _ _) hb
    · exact hb
  unfold Allowances.after
  split
  · split_ifs
    · exact happroval _
    · exact hpurchase _
    · exact hb
  · exact hb

theorem Becomes.isReadable {heard : List Answered} (h : b.Becomes heard b')
    (hb : b.IsReadable c o s) : b'.IsReadable c o s := by
  induction h with
  | refl => exact hb
  | read _ _ _ _ _ ih => exact ih hb
  | sent _ tx _ _ ih => exact ih (hb.after tx)

/-! ## Sending -/

theorem getLast?_cons_or {α : Type} (x : α) (xs : List α) (last : Option α) :
    (x :: xs).getLast?.or last = xs.getLast?.or (some x) := by
  rw [List.getLast?_cons]
  cases xs.getLast? <;> rfl

/-- Everything that is sent gets a hash and takes effect, in order. -/
theorem leads_sendAll_becomes_iff {wallet : WalletClient} {txs : List Transaction}
    {last : Option Hash} {heard : List Answered} {result : Except Fault Hash} :
    (sendAll wallet last txs).Leads heard (.done result) ∧ b.Becomes heard b' ↔
      ∃ hashes : List Hash, hashes.length = txs.length ∧
        heard = List.zipWith (Checkout.sent wallet) txs hashes ∧ b' = txs.foldl after b ∧
        result = (hashes.getLast?.or last).elim (.error (.missing .transaction)) .ok := by
  induction txs generalizing last heard b with
  | nil =>
      constructor
      · rintro ⟨hleads, hbecomes⟩
        cases last with
        | none | some =>
            cases hleads
            cases hbecomes
            exact ⟨[], rfl, rfl, rfl, rfl⟩
      · rintro ⟨hashes, hlength, rfl, rfl, hresult⟩
        obtain rfl := List.length_eq_zero_iff.mp hlength
        rw [hresult]
        cases last <;> exact ⟨.refl _, .refl _⟩
  | cons tx txs ih =>
      rw [sendAll, Program.leads_call_bind_iff]
      constructor
      · rintro ⟨⟨fault, rfl, rfl⟩ | ⟨(txHash : Hash), more, rfl, hleads⟩, hbecomes⟩
        · obtain ⟨⟨_, hok⟩, -⟩ := becomes_sent_iff.mp hbecomes
          cases hok
        · obtain ⟨-, hmore⟩ := becomes_sent_iff.mp hbecomes
          obtain ⟨hashes, hlength, rfl, rfl, hresult⟩ := ih.mp ⟨hleads, hmore⟩
          refine ⟨txHash :: hashes, by simp [hlength], rfl, rfl, ?_⟩
          rw [hresult, getLast?_cons_or txHash hashes last]
      · rintro ⟨hashes, hlength, rfl, rfl, hresult⟩
        cases hashes with
        | nil => cases hlength
        | cons txHash hashes =>
            rw [getLast?_cons_or] at hresult
            obtain ⟨hleads, hmore⟩ := ih.mpr ⟨hashes, by simpa using hlength, rfl, rfl, hresult⟩
            exact ⟨.inr ⟨txHash, _, rfl, hleads⟩, becomes_sent_iff.mpr ⟨⟨txHash, rfl⟩, hmore⟩⟩

theorem after_approval {tx : Transaction} {account : Address} {value amount : Amount}
    (h : tx.Says account ⟨currency, value, "approve(address,uint256)",
      [.address spender, .uint amount]⟩) :
    b.after tx = b.set currency account spender amount.toNat := by
  obtain rfl : tx.sender = account := h.sender_eq
  obtain rfl : tx.recipient = currency := h.recipient_eq
  rw [after, h.read_eq]
  rfl

theorem after_purchase {tx : Transaction} {account destination core : Address}
    {value index price : Amount}
    (h : tx.Says account ⟨spender, value, "purchaseTo(address,uint256,address,uint256,address)",
      [.address destination, .uint index, .address core, .uint price, .address currency]⟩) :
    b.after tx =
      b.set currency account spender ((b currency account spender).toNat - price.toNat) := by
  obtain rfl : tx.sender = account := h.sender_eq
  obtain rfl : tx.recipient = spender := h.recipient_eq
  rw [after, h.read_eq]
  rfl

end Allowances

/-! ## Trades -/

namespace Checkout

/-- What a submission of a purchase in a currency begins with. -/
structure Trade where
  setup : Setup
  state : PurchaseState
  account : Address
  price : Amount
  minter : MinterConfiguration
  currency : Address
  balance : Amount
  /-- The allowance that the check of the wallet has found. -/
  recorded : Amount
  decimals : UInt8
  kind_eq : setup.kind = .setPriceErc20
  minter_eq : setup.project.minter = some minter
  eligibility_eq : state.eligibility = some (.erc20 currency balance recorded decimals)

namespace Trade

/-- The submission. -/
def program (t : Trade) : Program Hash :=
  submissionProgram t.setup t.state (some t.account) (some t.price)

def purchase (t : Trade) : Purchase where
  project := t.setup.project
  minter := t.minter
  account := t.account
  purchaseTo := t.state.purchaseTo.getD t.account
  price := t.price
  details := .erc20 t.currency t.balance t.recorded t.decimals
  selectedToken := selectedToken t.state
  chain := t.setup.chain

/-- What the submission asks about the allowance. -/
def question (t : Trade) : Call :=
  .allowance t.setup.chain t.currency t.account t.minter.address

/-- What the minter may spend. -/
def allowed (t : Trade) (b : Allowances) : Word :=
  b t.currency t.account t.minter.address

/-- A client can tell what the minter may spend. -/
def IsAnswerable (t : Trade) (b : Allowances) : Prop :=
  b.IsReadable t.currency t.account t.minter.address

/-- Says that the minter may spend the price. -/
def approvalMeaning (t : Trade) : Meaning :=
  ⟨t.currency, .zero, "approve(address,uint256)",
    [.address t.minter.address, .uint t.price]⟩

/-- Asks the minter to sell for the price. -/
def purchaseMeaning (t : Trade) : Meaning :=
  ⟨t.minter.address, .zero, "purchaseTo(address,uint256,address,uint256,address)",
    [.address (t.state.purchaseTo.getD t.account), .uint (.ofUInt64 t.setup.project.index),
      .address t.setup.project.core, .uint t.price, .address t.currency]⟩

theorem program_eq (t : Trade) :
    t.program =
      (Program.call (.allowance t.setup.chain t.currency t.account t.minter.address) >>=
        fun allowance => sendAll t.setup.wallet none
          (t.purchase.currencySteps t.currency allowance)) := by
  rw [program, submissionProgram, t.minter_eq, t.eligibility_eq, t.kind_eq]
  change t.purchase.transactions .setPriceErc20 >>= sendAll t.setup.wallet none = _
  rw [t.purchase.transactions_currency rfl]
  refine congrArg (Program.ask _) (funext fun answers => ?_)
  rcases answers with fault | ⟨allowance, ⟨⟩⟩ <;> rfl

/-- What the submission sends in order that the minter may spend the price. -/
def approval? (t : Trade) (allowance : Amount) : Option Transaction :=
  if allowance < t.price then some (t.purchase.approval t.currency) else none

theorem currencySteps_eq (t : Trade) (allowance : Amount) :
    t.purchase.currencySteps t.currency allowance =
      (t.approval? allowance).toList ++ [t.purchase.currencyTransaction t.currency] := by
  have hprice : t.purchase.price = t.price := rfl
  rw [Purchase.currencySteps, approval?, hprice]
  split <;> rfl

variable {t : Trade} {b b' : Allowances} {heard : List Answered} {result : Except Fault Hash}

theorem isSome_approval?_iff (t : Trade) (allowance : Amount) :
    (t.approval? allowance).isSome ↔ allowance < t.price := by
  rw [approval?]
  split <;> simp_all

theorem says_of_mem_approval? {t : Trade} {allowance : Amount} :
    ∀ tx ∈ t.approval? allowance, tx.Says t.account t.approvalMeaning := by
  rw [approval?]
  split
  · rintro tx ⟨⟩
    exact t.purchase.approval_says t.currency
  · simp

/-- What a submission comes to when it asks and sends with these allowances. -/
theorem leads_becomes_iff :
    t.program.Leads heard (.done result) ∧ b.Becomes heard b' ↔
      (∃ fault, Allowances.reading (t.allowed b) = .error fault ∧
        heard = [⟨t.question, .error fault⟩] ∧ b' = b ∧ result = .error fault) ∨
      ∃ (allowance : Amount) (hashes : List Hash),
        Allowances.reading (t.allowed b) = .ok allowance ∧
        hashes.length = (t.purchase.currencySteps t.currency allowance).length ∧
        heard = ⟨t.question, .ok allowance⟩ ::
          List.zipWith (sent t.setup.wallet) (t.purchase.currencySteps t.currency allowance)
            hashes ∧
        b' = (t.purchase.currencySteps t.currency allowance).foldl Allowances.after b ∧
        result = (hashes.getLast?.or none).elim (.error (.missing .transaction)) .ok := by
  rw [program_eq, Program.leads_call_bind_iff]
  constructor
  · rintro ⟨⟨fault, rfl, rfl⟩ | ⟨allowance, more, rfl, hleads⟩, hbecomes⟩
    · obtain ⟨hread, hnone⟩ := Allowances.becomes_read_iff.mp hbecomes
      cases hnone
      exact .inl ⟨fault, hread.symm, rfl, rfl, rfl⟩
    · obtain ⟨hread, hmore⟩ := Allowances.becomes_read_iff.mp hbecomes
      obtain ⟨hashes, hlength, rfl, hafter, hresult⟩ :=
        Allowances.leads_sendAll_becomes_iff.mp ⟨hleads, hmore⟩
      exact .inr ⟨allowance, hashes, hread.symm, hlength, rfl, hafter, hresult⟩
  · rintro (⟨fault, hread, rfl, rfl, rfl⟩ | ⟨allowance, hashes, hread, hlength, rfl, rfl, hresult⟩)
    · exact ⟨.inl ⟨fault, rfl, rfl⟩, Allowances.becomes_read_iff.mpr ⟨hread.symm, .refl _⟩⟩
    · obtain ⟨hleads, hmore⟩ :=
        Allowances.leads_sendAll_becomes_iff.mpr ⟨hashes, hlength, rfl, rfl, hresult⟩
      exact ⟨.inr ⟨allowance, _, rfl, hleads⟩,
        Allowances.becomes_read_iff.mpr ⟨hread.symm, hmore⟩⟩

end Trade

/-! ## Rounds -/

/-- A trade on record: the answers that have led its submission to its end, and the allowances
before them and after them. -/
structure Round where
  trade : Trade
  before : Allowances
  heard : List Answered
  result : Except Fault Hash
  after : Allowances
  leads : trade.program.Leads heard (.done result)
  becomes : before.Becomes heard after

/-- One round goes on where the one before it has ended, and the first one begins with these
allowances. -/
def InTurn (b : Allowances) : List Round → Prop
  | [] => True
  | r :: rounds => r.before = b ∧ InTurn r.after rounds

namespace Round

/-- The allowances when the minter is called. -/
def atPurchase (r : Round) (approval : Option Transaction) : Allowances :=
  approval.elim r.before r.before.after

theorem foldl_after_eq (r : Round) (approval : Option Transaction) :
    approval.toList.foldl Allowances.after r.before = r.atPurchase approval := by
  cases approval <;> rfl

/-- A round in which the minter is called to sell: it may spend the price by then, because it could
do so anyway, or else because the price has just been approved. -/
structure Sells (r : Round) (allowance : Amount) (approval : Option Transaction)
    (purchase : Transaction) : Prop where
  allowance_eq : allowance.toNat = (r.trade.allowed r.before).toNat
  heard_eq : ∃ (hashes : List Hash) (txHash : Hash),
    hashes.length = (approval.toList ++ [purchase]).length ∧
    r.heard = ⟨r.trade.question, .ok allowance⟩ ::
      List.zipWith (sent r.trade.setup.wallet) (approval.toList ++ [purchase]) hashes ∧
    hashes.getLast? = some txHash ∧ r.result = .ok txHash
  approval_iff : approval.isSome ↔ allowance < r.trade.price
  approval_says : ∀ tx ∈ approval, tx.Says r.trade.account r.trade.approvalMeaning
  purchase_says : purchase.Says r.trade.account r.trade.purchaseMeaning
  covered : r.trade.price.toNat ≤ (r.trade.allowed (r.atPurchase approval)).toNat
  after_eq : r.after = (r.atPurchase approval).set r.trade.currency r.trade.account
    r.trade.minter.address
    ((r.trade.allowed (r.atPurchase approval)).toNat - r.trade.price.toNat)

theorem Sells.approves_iff {r : Round} {allowance : Amount} {approval : Option Transaction}
    {purchase : Transaction} (h : r.Sells allowance approval purchase) :
    approval.isSome ↔ (r.trade.allowed r.before).toNat < r.trade.price.toNat := by
  rw [h.approval_iff, ← h.allowance_eq]
  exact Iff.rfl

/-- A round that ends with the question, since the answer to it is no amount. -/
structure Refuses (r : Round) : Prop where
  heard_eq : r.heard = [⟨r.trade.question, .error (.abi .over128Bits)⟩]
  result_eq : r.result = .error (.abi .over128Bits)
  after_eq : r.after = r.before

/-- When the minter is called, after an approval if one is called for, it may spend the price. -/
theorem covered_atPurchase {r : Round} {allowance : Amount}
    (hallowance : allowance.toNat = (r.trade.allowed r.before).toNat) :
    r.trade.price.toNat ≤
      (r.trade.allowed (r.atPurchase (r.trade.approval? allowance))).toNat := by
  rw [Trade.approval?]
  split
  · have hset := Allowances.after_approval (b := r.before)
      (r.trade.purchase.approval_says r.trade.currency)
    have hprice : r.trade.price.toNat < 2 ^ 128 := by simpa using r.trade.price.toNat_lt
    rw [atPurchase, Option.elim, hset]
    exact (Allowances.toNat_set_self hprice).ge
  · next hcovered =>
    rw [atPurchase, Option.elim, ← hallowance]
    exact Nat.le_of_not_lt hcovered

theorem sells (r : Round) (h : r.trade.IsAnswerable r.before) :
    ∃ allowance approval purchase, r.Sells allowance approval purchase := by
  obtain ⟨allowance, hallowance, hread⟩ := Allowances.reading_of_isReadable h
  rcases Trade.leads_becomes_iff.mp ⟨r.leads, r.becomes⟩ with
    ⟨fault, hfault, -⟩ | ⟨answer, hashes, hanswer, hlength, hheard, hafter, hresult⟩
  · cases hread.symm.trans hfault
  obtain rfl : allowance = answer := Except.ok.inj (hread.symm.trans hanswer)
  rw [Trade.currencySteps_eq] at hlength hheard hafter
  have hpurchase := r.trade.purchase.currencyTransaction_says r.trade.currency
  obtain ⟨txHash, hlast⟩ : ∃ txHash, hashes.getLast? = some txHash := by
    rw [← Option.isSome_iff_exists, List.getLast?_isSome]
    rintro rfl
    simp at hlength
  refine ⟨allowance, r.trade.approval? allowance, _, hallowance, ⟨hashes, txHash, hlength, hheard,
    hlast, ?_⟩, r.trade.isSome_approval?_iff allowance, Trade.says_of_mem_approval?, hpurchase,
    covered_atPurchase hallowance, ?_⟩
  · rw [hresult, hlast]
    rfl
  · rw [hafter, List.foldl_concat, foldl_after_eq]
    exact Allowances.after_purchase hpurchase

theorem refuses (r : Round) (h : ¬ r.trade.IsAnswerable r.before) : r.Refuses := by
  have hread := Allowances.reading_of_not_isReadable h
  rcases Trade.leads_becomes_iff.mp ⟨r.leads, r.becomes⟩ with
    ⟨fault, hfault, hheard, hafter, hresult⟩ | ⟨allowance, hashes, hallowance, -⟩
  · obtain rfl : _ = fault := Except.error.inj (hread.symm.trans hfault)
    exact ⟨hheard, hresult, hafter⟩
  · cases hread.symm.trans hallowance

/-- Rounds only change the allowance that they are about. -/
theorem Sells.after_other {r : Round} {allowance : Amount} {approval : Option Transaction}
    {purchase : Transaction} (h : r.Sells allowance approval purchase) {c o s : Address}
    (hne : ¬ (c = r.trade.currency ∧ o = r.trade.account ∧ s = r.trade.minter.address)) :
    r.after c o s = r.before c o s := by
  rw [h.after_eq, Allowances.set_of_ne hne]
  cases happroval : approval with
  | none => rfl
  | some tx =>
      have hset := Allowances.after_approval (b := r.before) (h.approval_says tx happroval)
      rw [atPurchase, Option.elim, hset, Allowances.set_of_ne hne]

/-- Whether an allowance can be read stays the same. -/
theorem isReadable_iff (r : Round) (c o s : Address) :
    r.after.IsReadable c o s ↔ r.before.IsReadable c o s := by
  refine ⟨fun hafter => ?_, r.becomes.isReadable⟩
  -- An approval would make any allowance readable, but no round approves one that is not.
  by_cases hanswerable : r.trade.IsAnswerable r.before
  · obtain ⟨allowance, approval, purchase, hsells⟩ := r.sells hanswerable
    by_cases htriple : c = r.trade.currency ∧ o = r.trade.account ∧ s = r.trade.minter.address
    · obtain ⟨rfl, rfl, rfl⟩ := htriple
      exact hanswerable
    · rwa [Allowances.IsReadable, ← hsells.after_other htriple]
  · rwa [(r.refuses hanswerable).after_eq] at hafter

/-- Every trade takes its round, whatever the allowances are. -/
theorem exists_of_trade (t : Trade) (b : Allowances) : ∃ r : Round, r.trade = t ∧ r.before = b := by
  by_cases h : t.IsAnswerable b
  · obtain ⟨allowance, -, hread⟩ := Allowances.reading_of_isReadable h
    let txs := t.purchase.currencySteps t.currency allowance
    obtain ⟨hleads, hbecomes⟩ := Trade.leads_becomes_iff.mpr
      (.inr ⟨allowance, List.replicate txs.length default, hread, List.length_replicate, rfl, rfl,
        rfl⟩)
    exact ⟨⟨t, b, _, _, _, hleads, hbecomes⟩, rfl, rfl⟩
  · have hread := Allowances.reading_of_not_isReadable h
    obtain ⟨hleads, hbecomes⟩ := Trade.leads_becomes_iff.mpr (.inl ⟨_, hread, rfl, rfl, rfl⟩)
    exact ⟨⟨t, b, _, _, _, hleads, hbecomes⟩, rfl, rfl⟩

end Round

theorem exists_inTurn (b : Allowances) (trades : List Trade) :
    ∃ rounds, InTurn b rounds ∧ rounds.map Round.trade = trades := by
  induction trades generalizing b with
  | nil => exact ⟨[], trivial, rfl⟩
  | cons t trades ih =>
      obtain ⟨r, rfl, rfl⟩ := Round.exists_of_trade t b
      obtain ⟨rounds, hinTurn, htrades⟩ := ih r.after
      exact ⟨r :: rounds, ⟨rfl, hinTurn⟩, by rw [List.map_cons, htrades]⟩

/-- Whether an allowance can be read is the same before each round. -/
theorem InTurn.isReadable_iff {b : Allowances} {rounds : List Round} (h : InTurn b rounds) :
    ∀ r ∈ rounds, ∀ c o s, r.before.IsReadable c o s ↔ b.IsReadable c o s := by
  induction rounds generalizing b with
  | nil => simp
  | cons first rounds ih =>
      obtain ⟨rfl, hrest⟩ := h
      rintro r hr c o s
      rcases List.mem_cons.mp hr with rfl | hr
      · exact Iff.rfl
      · exact (ih hrest r hr c o s).trans (first.isReadable_iff c o s)

/-- Trades in currencies, as many as there are, go through one after another, whatever the
allowances are at first. Whenever a minter is called to sell, it may spend the price; an approval of
the price goes before this if, and only if, it could not by the answer just given. No minter is
called if a client could not read its allowance to begin with. -/
theorem inTurn_sells (b : Allowances) (trades : List Trade) :
    (∃ rounds, InTurn b rounds ∧ rounds.map Round.trade = trades) ∧
      ∀ rounds, InTurn b rounds → ∀ r ∈ rounds,
        (r.trade.IsAnswerable b →
          ∃ allowance approval purchase, r.Sells allowance approval purchase) ∧
        (¬ r.trade.IsAnswerable b → r.Refuses) := by
  refine ⟨exists_inTurn b trades, fun rounds hinTurn r hr => ?_⟩
  have hreadable := hinTurn.isReadable_iff r hr
  exact ⟨fun h => r.sells ((hreadable _ _ _).mpr h),
    fun h => r.refuses (mt (hreadable _ _ _).mp h)⟩

namespace Sample

/-- A purchase for 100. -/
def trade : Trade where
  setup := ⟨Applicant.Sample.project, .setPriceErc20, ⟨"chain"⟩, ⟨"wallet"⟩⟩
  state := { PurchaseState.initial with
    eligibility := some (.erc20 (.replicate 20 0xee) (.ofUInt64 1000) .zero 6) }
  account := Applicant.Sample.first
  price := .ofUInt64 100
  minter := Applicant.Sample.minter
  currency := .replicate 20 0xee
  balance := .ofUInt64 1000
  recorded := .zero
  decimals := 6
  kind_eq := rfl
  minter_eq := rfl
  eligibility_eq := rfl

/-- Everyone may spend 150. -/
def allowances : Allowances :=
  fun _ _ _ => .ofNat 32 150

end Sample

/-- When the minter may spend 150, the first purchase for 100 needs no approval, and the second one
does. -/
theorem inTurn_sells_twice :
    ∃ first second, InTurn Sample.allowances [first, second] ∧
      [first, second].map Round.trade = [Sample.trade, Sample.trade] ∧
      (∃ allowance purchase, first.Sells allowance none purchase) ∧
      ∃ allowance approval purchase, second.Sells allowance (some approval) purchase := by
  obtain ⟨⟨rounds, hinTurn, htrades⟩, hall⟩ :=
    inTurn_sells Sample.allowances [Sample.trade, Sample.trade]
  obtain ⟨first, rest, rfl, hfirst, hrest⟩ := List.map_eq_cons_iff.mp htrades
  obtain ⟨second, rest, rfl, hsecond, hrest⟩ := List.map_eq_cons_iff.mp hrest
  obtain rfl := List.map_eq_nil_iff.mp hrest
  have hstart : (Sample.trade.allowed Sample.allowances).toNat = 150 :=
    Octets.toNat_ofNat (by decide)
  have hprice : Sample.trade.price.toNat = 100 := rfl
  have hanswerable : Sample.trade.IsAnswerable Sample.allowances :=
    hstart.trans_lt (by decide)
  obtain ⟨hbefore, hbetween, -⟩ := id hinTurn
  obtain ⟨allowance, approval, purchase, hsells⟩ :=
    (hall _ hinTurn first (by simp)).1 (hfirst ▸ hanswerable)
  obtain ⟨allowance', approval', purchase', hsells'⟩ :=
    (hall _ hinTurn second (by simp)).1 (hsecond ▸ hanswerable)
  have hnone : approval = none := by
    have happroves := hsells.approves_iff
    rw [hfirst, hbefore, hstart, hprice] at happroves
    simpa using happroves
  subst hnone
  have hleft : (Sample.trade.allowed first.after).toNat = 50 := by
    have hafter := hsells.after_eq
    rw [hfirst, show first.atPurchase none = Sample.allowances from hbefore, hstart] at hafter
    rw [hafter]
    exact Allowances.toNat_set_self (by decide)
  have hsome : approval'.isSome := by
    rw [hsells'.approves_iff, hsecond, hbetween, hleft, hprice]
    decide
  obtain ⟨tx, rfl⟩ := Option.isSome_iff_exists.mp hsome
  exact ⟨first, second, hinTurn, htrades, ⟨_, _, hsells⟩, ⟨_, _, _, hsells'⟩⟩

end Checkout

end MintSale
