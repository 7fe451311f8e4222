import CeruleanLedger.GuardedRun
import CeruleanLedger.NativeLedger
import CeruleanLedger.Solvency

/-!
Whether the native token can be spent twice. `calculate_balance` is a tally in
the sense of `Solvency` as long as no amount and fee wrap, and `add_block`
checks each spend against it one by one. What is missing is a check of all
spends of one sender in a block together.
-/

namespace CeruleanLedger.TokenBalances

open NativeLedger Solvency GuardedRun

def received (address : String) (tx : Transaction) : Nat :=
  if tx.toAddr = address then tx.amount.toNat else 0

def sent (address : String) (tx : Transaction) : Nat :=
  if tx.fromAddr = address then tx.amount.toNat + tx.fee.toNat else 0

/-- No address but the two sources of tokens is overdrawn after any front of
the chain's transactions. -/
def NoDoubleSpend (ledger : Blockchain) : Prop :=
  ∀ address, address ≠ "0" → address ≠ "STAKING" →
    Solvent (received address) (sent address) ledger.allTransactions

def ofSender (sender : String) (transactions : List Transaction) : List Transaction :=
  transactions.filter fun tx => tx.fromAddr = sender

/-- No amount plus fee reaches 2^64, and a sender with several transactions in
the block has the balance for all of them. -/
def SpendsCovered (ledger : Blockchain) (call : Call) : Prop :=
  ∀ tx ∈ call.transactions, tx.fromAddr ≠ "0" → tx.fromAddr ≠ "STAKING" →
    tx.amount.toNat + tx.fee.toNat < 2 ^ 64 ∧
      (2 ≤ (ofSender tx.fromAddr call.transactions).length →
        spent (sent tx.fromAddr) call.transactions ≤
          (ledger.calculateBalance tx.fromAddr).toNat)
  deriving Decidable

def Exact (ledger : Blockchain) : Prop :=
  ∀ tx ∈ ledger.allTransactions, tx.fromAddr ≠ "0" → tx.fromAddr ≠ "STAKING" →
    tx.amount.toNat + tx.fee.toNat < 2 ^ 64

variable {address : String} {ledger : Blockchain}

section Balance

theorem add_amount_le (left right : UInt64) : (left + right).toNat ≤ left.toNat + right.toNat := by
  rw [UInt64.toNat_add]
  exact Nat.mod_le _ _

theorem exact_total {tx : Transaction} (exact : tx.amount.toNat + tx.fee.toNat < 2 ^ 64) :
    (tx.amount + tx.fee).toNat = tx.amount.toNat + tx.fee.toNat := by
  rw [UInt64.toNat_add, Nat.mod_eq_of_lt exact]

theorem balance_step_le (balance : UInt64) (tx : Transaction) (ordinary : address ≠ "0")
    (exact : tx.fromAddr = address → tx.amount.toNat + tx.fee.toNat < 2 ^ 64) :
    (Blockchain.balanceStep address balance tx).toNat ≤
      balance.toNat + received address tx - sent address tx := by
  have gained := add_amount_le balance tx.amount
  unfold Blockchain.balanceStep received sent
  by_cases own : tx.fromAddr = address
  · simp only [own, ordinary, false_and, ↓reduceIte]
    rw [saturating_sub_toNat, exact_total (exact own)]
    omega
  · by_cases mine : tx.toAddr = address
    · simp only [own, mine, and_true, ↓reduceIte, ite_self]
      exact gained
    · simp only [own, mine, and_false, ↓reduceIte]
      exact le_refl _

end Balance

variable {crypto : Crypto} {call : Call}

theorem spent_of_sender (transactions : List Transaction) :
    spent (sent address) transactions = spent (sent address) (ofSender address transactions) := by
  induction transactions with
  | nil => rfl
  | cons tx rest ih =>
    simp only [spent, ofSender, List.map_cons, List.sum_cons, List.filter_cons] at ih ⊢
    by_cases own : tx.fromAddr = address
    · simp [own, ih]
    · simp [own, ih, sent]

/-- A block that passes the checks and meets the condition debits a sender at
most its balance. -/
theorem spent_le_balance (ordinary : address ≠ "0") (notStaking : address ≠ "STAKING")
    (passed : ledger.admissible crypto call.wallets call.transactions = .ok ())
    (covered : SpendsCovered ledger call) :
    spent (sent address) call.transactions ≤ (ledger.calculateBalance address).toNat := by
  cases own : ofSender address call.transactions with
  | nil =>
    rw [spent_of_sender, own]
    exact Nat.zero_le _
  | cons tx rest =>
    have listed : tx ∈ ofSender address call.transactions := by
      rw [own]
      exact List.mem_cons_self
    obtain ⟨member, isSender⟩ := List.mem_filter.mp listed
    have sender : tx.fromAddr = address := of_decide_eq_true isSender
    subst sender
    obtain ⟨exact, several⟩ := covered tx member ordinary notStaking
    cases rest with
    | cons second rest =>
      apply several
      rw [own]
      simp
    | nil =>
      -- A single spend is covered by the check of `validate_transaction`.
      have valid := admissible_ok passed tx member ordinary notStaking
      obtain ⟨-, -, spend⟩ := (validate_transaction_iff ordinary notStaking).mp valid
      have bound := UInt64.le_iff_toNat_le.mp (validate_spend_iff.mp spend).1
      rw [exact_total exact] at bound
      rw [spent_of_sender, own]
      simpa [spent, sent] using bound

theorem all_transactions_append {after : Blockchain} {mined : Block}
    (appended : after.chain = ledger.chain ++ [mined]) :
    after.allTransactions = ledger.allTransactions ++ mined.transactions := by
  simp [Blockchain.allTransactions, appended]

theorem step_solvent (sound : Exact ledger ∧ NoDoubleSpend ledger)
    (covered : SpendsCovered ledger call) :
    Exact (applyCall crypto ledger call) ∧ NoDoubleSpend (applyCall crypto ledger call) := by
  obtain ⟨exact, solvent⟩ := sound
  rcases @apply_call_cases crypto ledger call with unchanged | ⟨passed, mined, appended, same⟩
  · rw [unchanged]
    exact ⟨exact, solvent⟩
  · have entries := all_transactions_append appended
    rw [same] at entries
    constructor
    · intro tx member
      rw [entries] at member
      rcases List.mem_append.mp member with earlier | added
      · exact exact tx earlier
      · exact fun notCoinbase notStaking => (covered tx added notCoinbase notStaking).1
    · intro address ordinary notStaking
      rw [entries]
      apply solvent_append (solvent address ordinary notStaking)
      have affordable := spent_le_balance ordinary notStaking passed covered
      have tallied : ((ledger.calculateBalance address).toNat : ℤ) ≤
          net (received address) (sent address) ledger.allTransactions := by
        refine tally_le_net UInt64.toNat (Blockchain.balanceStep address) 0 rfl _ ?_
          (solvent address ordinary notStaking)
        intro balance tx member
        apply balance_step_le balance tx ordinary
        intro own
        exact exact tx member (own ▸ ordinary) (own ▸ notStaking)
      omega

theorem new_solvent (id : String) (now : UInt64) (difficulty : UInt8) :
    Exact (Blockchain.new crypto id now difficulty) ∧
      NoDoubleSpend (Blockchain.new crypto id now difficulty) := by
  have entries : (Blockchain.new crypto id now difficulty).allTransactions =
      [] ++ [Blockchain.genesisTransaction id now] := rfl
  constructor
  · intro tx member notCoinbase
    rw [entries, List.nil_append, List.mem_singleton] at member
    subst member
    exact absurd rfl notCoinbase
  · intro address ordinary _
    rw [entries]
    apply solvent_append solvent_nil
    have free : spent (sent address) [Blockchain.genesisTransaction id now] = 0 := by
      simp [spent, sent, Blockchain.genesisTransaction, Transaction.newWithFee, ordinary.symm]
    rw [free]
    exact le_refl 0

/-- In every run of `add_block` calls that meet `SpendsCovered`, no address is
ever overdrawn. -/
theorem no_double_spend (crypto : Crypto) (id : String) (now : UInt64) (difficulty : UInt8)
    (calls : List Call)
    (meets : AllMeet (applyCall crypto) SpendsCovered
      (Blockchain.new crypto id now difficulty) calls) :
    NoDoubleSpend (calls.foldl (applyCall crypto) (Blockchain.new crypto id now difficulty)) :=
  (run_invariant_plain (fun ledger => Exact ledger ∧ NoDoubleSpend ledger) _ calls
    (new_solvent id now difficulty) (fun _ _ => step_solvent) meets).2

/-- A transparent scheme for concrete runs: a digest shows the front of the
text, and a signature is the signed text. -/
def openCrypto : Crypto :=
  { keyDecodes := fun _ => true
    verify := fun _ message signature => signature == message
    sha256 := fun data => Vector.ofFn fun place => data.getD place 0
    mldsaKeyDecodes := fun _ => true
    mldsaSignatureDecodes := fun _ => true
    mldsaVerify := fun _ message signature => signature == message }

def alice : String := "alice-0123456789-0123456789-0123456789"

def signed (tx : Transaction) : Transaction :=
  { tx with signature := ByteCodec.hexEncode (ByteCodec.utf8 (tx.calculateHash openCrypto)) }

def transfer (id : String) (amount fee : UInt64) : Transaction :=
  signed (.newWithFee id 0 alice "bob" amount fee none)

def spendCall (transactions : List Transaction) : Call :=
  ⟨0, (∅ : WalletManager).insert alice ⟨ByteCodec.zeroHash⟩, transactions⟩

def reward : Call := ⟨0, ∅, [.newWithFee "reward" 0 "0" alice 50 0 none]⟩

def freshLedger : Blockchain := Blockchain.new openCrypto "genesis-id" 0 0

theorem covered_spends_solvent :
    NoDoubleSpend ([reward, spendCall [transfer "t1" 20 1, transfer "t2" 20 1]].foldl
      (applyCall openCrypto) freshLedger) :=
  no_double_spend openCrypto "genesis-id" 0 0 _ (by decide)

/-- A balance of 50 pays 40 and a fee of 1 twice in one block; and it pays
2^64 - 1 and a fee of 1, whose sum wraps to 0. -/
theorem balance_spent_twice :
    ¬ NoDoubleSpend ([reward, spendCall [transfer "t1" 40 1, transfer "t2" 40 1]].foldl
      (applyCall openCrypto) freshLedger) ∧
    ¬ NoDoubleSpend ([reward, spendCall [transfer "t1" 18446744073709551615 1]].foldl
      (applyCall openCrypto) freshLedger) := by
  constructor
  · intro safe
    have whole := safe alice (by decide) (by decide) _ (List.prefix_refl _)
    exact absurd whole (by decide +kernel)
  · intro safe
    have whole := safe alice (by decide) (by decide) _ (List.prefix_refl _)
    exact absurd whole (by decide +kernel)

end CeruleanLedger.TokenBalances
