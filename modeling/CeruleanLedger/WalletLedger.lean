import CeruleanLedger.NativeLedger
import CeruleanLedger.IterationOrder
import CeruleanLedger.GuardedRun
import CeruleanLedger.OrderedMap

/-!
The balances that the wallets of `models.rs` carry themselves: a transfer between
two wallets, and the balances tallied anew from a chain, beside the balance that
`blockchain.rs` computes from the same chain. Wallets are made on demand; their
random keys are arguments. The tallied balances are visited in any order.
-/

namespace CeruleanLedger.WalletLedger

open ByteCodec GuardedRun IterationOrder OrderedMap
open NativeLedger (Blockchain Block Transaction saturatingSub saturating_sub_toNat)

structure Wallet extends NativeLedger.Wallet where
  address : String
  balance : UInt64

/-- `Wallet::new`, which is also the default, for the key it generates. -/
def Wallet.new (key : Hash32) : Wallet := ⟨⟨key⟩, hexEncode key.toList, 0⟩

def Wallet.addBalance (wallet : Wallet) (amount : UInt64) : Wallet :=
  { wallet with balance := wallet.balance + amount }

def Wallet.subtractBalance (wallet : Wallet) (amount : UInt64) : Except String Wallet :=
  if amount ≤ wallet.balance then .ok { wallet with balance := wallet.balance - amount }
  else .error "Saldo insuficiente"

abbrev WalletManager := Std.ExtTreeMap String Wallet

def shownBalance (wallets : WalletManager) (address : String) : UInt64 :=
  wallets[address]?.elim 0 Wallet.balance

section Transfers

/-- `process_transaction`, with the keys of the wallets it may make. -/
def processTransaction (fromKey toKey : Hash32) (wallets : WalletManager) (tx : Transaction) :
    Except String Unit × WalletManager :=
  if ¬ tx.isValid then (.error "Transacción inválida", wallets)
  else
    let fromWallet := wallets[tx.fromAddr]?.getD (.new fromKey)
    -- The sender has a wallet from here on, also if the balance is short.
    let entered := wallets.insert tx.fromAddr fromWallet
    match fromWallet.subtractBalance (tx.amount + tx.fee) with
    | .error reason => (.error reason, entered)
    | .ok debited =>
      let charged := entered.insert tx.fromAddr debited
      let toWallet := charged[tx.toAddr]?.getD (.new toKey)
      (.ok (), charged.insert tx.toAddr (toWallet.addBalance tx.amount))

def funds (wallets : WalletManager) : ℕ := total (fun _ wallet => wallet.balance.toNat) wallets

/-- The fee leaves the balances with a transfer, and nothing changes with an
error. -/
def Clean (wallets : WalletManager) (outcome : Except String Unit × WalletManager)
    (fee : UInt64) : Prop :=
  (outcome.1 = .ok () ∧ funds outcome.2 + fee.toNat = funds wallets) ∨
    ((∃ reason, outcome.1 = .error reason) ∧ outcome.2 = wallets)

def ownedByRecipient (wallets : WalletManager) (tx : Transaction) : UInt64 :=
  if tx.toAddr = tx.fromAddr then shownBalance wallets tx.fromAddr - (tx.amount + tx.fee)
  else shownBalance wallets tx.toAddr

variable {fromKey toKey : Hash32} {wallets : WalletManager} {tx : Transaction}

theorem shown_getD (key : Hash32) (wallets : WalletManager) (address : String) :
    (wallets[address]?.getD (.new key)).balance = shownBalance wallets address := by
  unfold shownBalance
  cases wallets[address]? with
  | none => rfl
  | some wallet => rfl

theorem shown_insert (wallet : Wallet) (address other : String) :
    shownBalance (wallets.insert address wallet) other =
      if address = other then wallet.balance else shownBalance wallets other := by
  rw [shownBalance, get_insert]
  split
  · rfl
  · rfl

theorem funds_insert (wallet : Wallet) (address : String) :
    funds (wallets.insert address wallet) + (shownBalance wallets address).toNat =
      funds wallets + wallet.balance.toNat := by
  rw [← shown_getD zeroHash]
  exact total_replace wallets (fun wallet => wallet.balance.toNat) rfl address wallet

theorem funds_credited (key : Hash32) (address : String) (amount : UInt64) :
    funds (wallets.insert address ((wallets[address]?.getD (.new key)).addBalance amount)) +
        (shownBalance wallets address).toNat =
      funds wallets + (shownBalance wallets address + amount).toNat := by
  rw [funds_insert, Wallet.addBalance, shown_getD]

theorem process_covered (valid : tx.isValid = true)
    (covered : tx.amount + tx.fee ≤ shownBalance wallets tx.fromAddr) :
    ∃ after, processTransaction fromKey toKey wallets tx = (.ok (), after) ∧
      funds after + (tx.amount + tx.fee).toNat + (ownedByRecipient wallets tx).toNat =
        funds wallets + (ownedByRecipient wallets tx + tx.amount).toNat := by
  have owned := shown_getD fromKey wallets tx.fromAddr
  obtain ⟨debited, taken, left⟩ : ∃ debited : Wallet,
      (wallets[tx.fromAddr]?.getD (Wallet.new fromKey)).subtractBalance (tx.amount + tx.fee) =
        .ok debited ∧
      debited.balance = shownBalance wallets tx.fromAddr - (tx.amount + tx.fee) := by
    rw [← owned] at covered ⊢
    exact ⟨_, if_pos covered, rfl⟩
  have enough := UInt64.le_iff_toNat_le.mp covered
  have debit := @funds_insert wallets debited tx.fromAddr
  rw [left, UInt64.toNat_sub_of_le _ _ covered] at debit
  have credit := @funds_credited (wallets.insert tx.fromAddr debited) toKey tx.toAddr tx.amount
  have received : shownBalance (wallets.insert tx.fromAddr debited) tx.toAddr =
      ownedByRecipient wallets tx := by
    rw [shown_insert, ownedByRecipient, left]
    simp only [eq_comm]
  rw [received] at credit
  refine ⟨(wallets.insert tx.fromAddr debited).insert tx.toAddr
    (((wallets.insert tx.fromAddr debited)[tx.toAddr]?.getD (.new toKey)).addBalance
      tx.amount), ?_, ?_⟩
  · rw [processTransaction, if_neg (not_not.mpr valid)]
    simp only [taken, insert_twice]
  · omega

theorem process_short (valid : tx.isValid = true)
    (short : ¬ tx.amount + tx.fee ≤ shownBalance wallets tx.fromAddr) :
    processTransaction fromKey toKey wallets tx = (.error "Saldo insuficiente",
      wallets.insert tx.fromAddr (wallets[tx.fromAddr]?.getD (.new fromKey))) := by
  have refused : (wallets[tx.fromAddr]?.getD (Wallet.new fromKey)).subtractBalance
      (tx.amount + tx.fee) = .error "Saldo insuficiente" := by
    rw [Wallet.subtractBalance, shown_getD, if_neg short]
  rw [processTransaction, if_neg (not_not.mpr valid)]
  simp only [refused]

theorem insert_known {address : String} (key : Hash32) :
    wallets.insert address (wallets[address]?.getD (.new key)) = wallets ↔
      address ∈ wallets := by
  constructor
  · intro same
    rw [← same]
    exact Std.ExtTreeMap.mem_insert_self
  · intro known
    obtain ⟨wallet, found⟩ := Option.isSome_iff_exists.mp
      (Std.ExtTreeMap.mem_iff_isSome_getElem?.mp known)
    apply Std.ExtTreeMap.ext_getElem?
    intro other
    rw [get_insert]
    split
    · next equal => rw [← equal, found, Option.getD_some]
    · rfl

/-- An invalid transaction changes nothing. A covered transfer conserves the
tokens if the sums at both ends wrap or neither does, and an uncovered one fails
cleanly if the sender has a wallet. -/
theorem transfer_clean_iff (fromKey toKey : Hash32) (wallets : WalletManager)
    (tx : Transaction) :
    Clean wallets (processTransaction fromKey toKey wallets tx) tx.fee ↔
      (tx.isValid = true →
        if tx.amount + tx.fee ≤ shownBalance wallets tx.fromAddr then
          (2 ^ 64 ≤ tx.amount.toNat + tx.fee.toNat ↔
            2 ^ 64 ≤ (ownedByRecipient wallets tx).toNat + tx.amount.toNat)
        else tx.fromAddr ∈ wallets) := by
  by_cases valid : tx.isValid = true
  · by_cases covered : tx.amount + tx.fee ≤ shownBalance wallets tx.fromAddr
    · obtain ⟨after, processed, moved⟩ :=
        @process_covered fromKey toKey wallets tx valid covered
      have spent := UInt64.toNat_add tx.amount tx.fee
      have gained := UInt64.toNat_add (ownedByRecipient wallets tx) tx.amount
      have small := tx.amount.toNat_lt
      have cheap := tx.fee.toNat_lt
      have below := (ownedByRecipient wallets tx).toNat_lt
      simp only [Clean, processed, valid, if_pos covered, true_imp_iff, true_and,
        reduceCtorEq, exists_false, false_and, or_false]
      omega
    · rw [process_short valid covered]
      simp only [Clean, valid, if_neg covered, true_imp_iff, reduceCtorEq, false_and, false_or,
        insert_known]
      simp
  · have refused : processTransaction fromKey toKey wallets tx =
        (.error "Transacción inválida", wallets) := if_pos valid
    simp [Clean, refused, valid]

def sampleTransfer (amount fee : UInt64) : Transaction :=
  .newWithFee "t1" 0 "alice" "bob" amount fee none

def poorWallets : WalletManager := (∅ : WalletManager).insert "alice" (.new zeroHash)

/-- A refused transfer leaves a wallet for an unknown sender; and 2^64 - 1 tokens
come from an empty wallet, with a fee of 1 that makes the sum wrap to 0. -/
theorem transfers_unclean :
    ((processTransaction zeroHash zeroHash ∅ (sampleTransfer 5 1)).1 =
        .error "Saldo insuficiente" ∧
      "alice" ∈ (processTransaction zeroHash zeroHash ∅ (sampleTransfer 5 1)).2) ∧
    (processTransaction zeroHash zeroHash poorWallets
        (sampleTransfer 18446744073709551615 1)).1 = .ok () ∧
      funds poorWallets = 0 ∧
      funds (processTransaction zeroHash zeroHash poorWallets
        (sampleTransfer 18446744073709551615 1)).2 = 18446744073709551615 := by
  decide +kernel

end Transfers

/-- What one transaction of the chain does to the tallied balances. The fee is
not counted. -/
def tallyTransaction (balances : Std.ExtTreeMap String UInt64) (tx : Transaction) :
    Std.ExtTreeMap String UInt64 :=
  if tx.fromAddr = "0" then
    balances.insert tx.toAddr (balances[tx.toAddr]?.getD 0 + tx.amount)
  else
    let sent := balances.insert tx.fromAddr
      (saturatingSub (balances[tx.fromAddr]?.getD 0) tx.amount)
    sent.insert tx.toAddr (sent[tx.toAddr]?.getD 0 + tx.amount)

def tally (transactions : List Transaction) : Std.ExtTreeMap String UInt64 :=
  transactions.foldl tallyTransaction ∅

/-- One turn of the last loop, with the key of the wallet it may make. -/
def syncEntry (keys : String → Hash32) (wallets : WalletManager) (entry : String × UInt64) :
    WalletManager :=
  if 0 < entry.2 ∨ entry.1 ∈ wallets then
    let wallet := wallets[entry.1]?.getD { Wallet.new (keys entry.1) with address := entry.1 }
    wallets.insert entry.1 { wallet with balance := entry.2 }
  else wallets

/-- `sync_from_blockchain`. The set of addresses it collects first is not used. -/
def syncFromBlockchain (order : Arrangement (String × UInt64)) (keys : String → Hash32)
    (wallets : WalletManager) (chain : List Block) : WalletManager :=
  (order.arrange (tally (chain.flatMap Block.transactions)).toList).foldl (syncEntry keys) wallets

def Occurs (address : String) (transactions : List Transaction) : Prop :=
  ∃ tx ∈ transactions, tx.fromAddr = address ∨ tx.toAddr = address

/-- The address has a tallied balance: every one that occurs, except that "0" as a
sender has none. -/
def Tallied (address : String) (transactions : List Transaction) : Prop :=
  ∃ tx ∈ transactions, (tx.fromAddr = address ∧ address ≠ "0") ∨ tx.toAddr = address

/-- What one transaction does to the tallied balance of an address. -/
def tallyStep (address : String) (balance : UInt64) (tx : Transaction) : UInt64 :=
  let sent := if tx.fromAddr ≠ "0" ∧ tx.fromAddr = address then saturatingSub balance tx.amount
    else balance
  if tx.toAddr = address then sent + tx.amount else sent

/-- The two computations charge the address the same for a transaction. The fee
is counted by one of them only, the amount of a transfer to oneself is not given
back by it, and the sender "0" is charged by it. -/
def SameCharge (address : String) (balance : UInt64) (tx : Transaction) : Prop :=
  tx.fromAddr = address →
    if address = "0" then tx.toAddr = "0" ∨ balance = 0 ∨ tx.amount + tx.fee = 0
    else if tx.toAddr = address then
      tx.amount ≤ balance ∧ (balance = 0 ∨ tx.amount + tx.fee = 0)
    else tx.fee = 0 ∨ (balance ≤ tx.amount ∧ balance ≤ tx.amount + tx.fee)

variable {address : String} {transactions : List Transaction}

theorem tally_transaction_get (balances : Std.ExtTreeMap String UInt64) (tx : Transaction) :
    (tallyTransaction balances tx)[address]?.getD 0 =
      tallyStep address (balances[address]?.getD 0) tx := by
  unfold tallyTransaction tallyStep
  by_cases issued : tx.fromAddr = "0"
  · simp only [if_pos issued, get_insert]
    by_cases reached : tx.toAddr = address
    · simp [reached, issued]
    · simp [reached, issued]
  · simp only [if_neg issued, get_insert]
    by_cases sender : tx.fromAddr = address
    · subst sender
      by_cases reached : tx.toAddr = tx.fromAddr
      · simp [reached, issued]
      · simp [reached, issued]
    · by_cases reached : tx.toAddr = address
      · simp [reached, sender]
      · simp [reached, sender]

theorem tally_get (transactions : List Transaction) :
    (tally transactions)[address]?.getD 0 = transactions.foldl (tallyStep address) 0 := by
  have along : ∀ balances : Std.ExtTreeMap String UInt64,
      (transactions.foldl tallyTransaction balances)[address]?.getD 0 =
        transactions.foldl (tallyStep address) (balances[address]?.getD 0) := by
    induction transactions with
    | nil => exact fun _ => rfl
    | cons tx rest ih =>
      intro balances
      rw [List.foldl_cons, List.foldl_cons, ih, tally_transaction_get]
  rw [tally, along]
  rfl

theorem mem_tally_transaction (balances : Std.ExtTreeMap String UInt64) (tx : Transaction) :
    address ∈ tallyTransaction balances tx ↔
      address ∈ balances ∨ (tx.fromAddr = address ∧ address ≠ "0") ∨ tx.toAddr = address := by
  unfold tallyTransaction
  by_cases issued : tx.fromAddr = "0"
  · have notSender : ¬ (tx.fromAddr = address ∧ address ≠ "0") := fun ⟨same, other⟩ =>
      other (same.symm.trans issued)
    simp only [if_pos issued, Std.ExtTreeMap.mem_insert, Std.LawfulEqCmp.compare_eq_iff_eq,
      notSender, false_or]
    exact or_comm
  · have sender : tx.fromAddr = address ∧ address ≠ "0" ↔ tx.fromAddr = address :=
      and_iff_left_of_imp fun same => same ▸ issued
    simp only [if_neg issued, Std.ExtTreeMap.mem_insert, Std.LawfulEqCmp.compare_eq_iff_eq, sender]
    tauto

theorem mem_tally (transactions : List Transaction) :
    address ∈ tally transactions ↔ Tallied address transactions := by
  have along : ∀ balances : Std.ExtTreeMap String UInt64,
      address ∈ transactions.foldl tallyTransaction balances ↔
        address ∈ balances ∨ Tallied address transactions := by
    induction transactions with
    | nil => simp [Tallied]
    | cons tx rest ih =>
      intro balances
      rw [List.foldl_cons, ih, mem_tally_transaction, or_assoc]
      simp [Tallied]
  rw [tally, along]
  simp

section Entries

variable {keys : String → Hash32} {wallets : WalletManager}

/-- A turn shows the tallied balance, also where it makes no wallet. -/
theorem shown_sync_entry (entry : String × UInt64) :
    shownBalance (syncEntry keys wallets entry) address =
      if entry.1 = address then entry.2 else shownBalance wallets address := by
  unfold syncEntry
  split
  · rw [shown_insert]
  · next skipped =>
    rw [not_or] at skipped
    split
    · next same =>
      have zero : entry.2 = 0 := by
        have least := skipped.1
        rw [UInt64.lt_iff_toNat_lt, Nat.not_lt, UInt64.toNat_zero, Nat.le_zero] at least
        exact UInt64.toNat_inj.mp least
      have absent : wallets[entry.1]? = none := Std.ExtTreeMap.getElem?_eq_none skipped.2
      rw [← same, shownBalance, absent, zero]
      rfl
    · rfl

theorem shown_sync_entries (entries : List (String × UInt64))
    (distinct : (entries.map Prod.fst).Nodup) :
    (∀ balance, (address, balance) ∈ entries →
      shownBalance (entries.foldl (syncEntry keys) wallets) address = balance) ∧
    (address ∉ entries.map Prod.fst →
      shownBalance (entries.foldl (syncEntry keys) wallets) address =
        shownBalance wallets address) := by
  induction entries generalizing wallets with
  | nil => simp
  | cons entry rest ih =>
    obtain ⟨apart, distinct⟩ := List.nodup_cons.mp distinct
    obtain ⟨found, missing⟩ := @ih (syncEntry keys wallets entry) distinct
    constructor
    · intro balance member
      rcases List.mem_cons.mp member with same | later
      · subst same
        rw [List.foldl_cons, missing apart, shown_sync_entry, if_pos rfl]
      · exact found balance later
    · intro absent
      rw [List.map_cons, List.mem_cons, not_or] at absent
      rw [List.foldl_cons, missing absent.2, shown_sync_entry, if_neg (Ne.symm absent.1)]

end Entries

theorem synced_balance (order : Arrangement (String × UInt64)) (keys : String → Hash32)
    (wallets : WalletManager) (chain : List Block) (address : String) :
    shownBalance (syncFromBlockchain order keys wallets chain) address =
      (tally (chain.flatMap Block.transactions))[address]?.getD
        (shownBalance wallets address) := by
  have listed := order.perm (tally (chain.flatMap Block.transactions)).toList
  have distinct := ((listed.map Prod.fst).nodup_iff).mpr
    (keys_nodup (tally (chain.flatMap Block.transactions)))
  obtain ⟨found, missing⟩ := @shown_sync_entries address keys wallets _ distinct
  cases stored : (tally (chain.flatMap Block.transactions))[address]? with
  | none =>
    apply missing
    intro member
    obtain ⟨⟨_, balance⟩, entered, rfl⟩ := List.mem_map.mp member
    rw [Arrangement.mem_arrange, Std.ExtTreeMap.mem_toList_iff_getElem?_eq_some, stored]
      at entered
    cases entered
  | some balance =>
    apply found
    rw [Arrangement.mem_arrange, Std.ExtTreeMap.mem_toList_iff_getElem?_eq_some, stored,
      Option.getD_some]

section Charges

variable (balance amount fee : UInt64)

theorem charge_nothing_iff :
    balance = saturatingSub balance amount ↔ balance = 0 ∨ amount = 0 := by
  simp only [← UInt64.toNat_inj, saturating_sub_toNat, UInt64.toNat_zero]
  omega

theorem charge_fee_iff : saturatingSub balance amount = saturatingSub balance (amount + fee) ↔
    fee = 0 ∨ (balance ≤ amount ∧ balance ≤ amount + fee) := by
  have small := amount.toNat_lt
  have cheap := fee.toNat_lt
  simp only [← UInt64.toNat_inj, saturating_sub_toNat, UInt64.le_iff_toNat_le, UInt64.toNat_add,
    UInt64.toNat_zero]
  omega

theorem charge_back_iff :
    saturatingSub balance amount + amount = saturatingSub balance (amount + fee) ↔
      amount ≤ balance ∧ (balance = 0 ∨ amount + fee = 0) := by
  have small := amount.toNat_lt
  have below := balance.toNat_lt
  have cheap := fee.toNat_lt
  simp only [← UInt64.toNat_inj, saturating_sub_toNat, UInt64.le_iff_toNat_le, UInt64.toNat_add,
    UInt64.toNat_zero]
  omega

end Charges

theorem same_charge_iff (balance : UInt64) (tx : Transaction) :
    tallyStep address balance tx = Blockchain.balanceStep address balance tx ↔
      SameCharge address balance tx := by
  unfold tallyStep Blockchain.balanceStep SameCharge
  by_cases sender : tx.fromAddr = address
  · subst sender
    by_cases issued : tx.fromAddr = "0"
    · by_cases reached : tx.toAddr = "0"
      · simp [issued, reached]
      · simp [issued, reached, charge_nothing_iff]
    · by_cases reached : tx.toAddr = tx.fromAddr
      · simp [issued, reached, charge_back_iff]
      · simp [issued, reached, charge_fee_iff]
  · by_cases reached : tx.toAddr = address
    · simp [sender, reached]
    · simp [sender, reached]

theorem untallied_balance (untallied : ¬ Tallied address transactions) :
    transactions.foldl (Blockchain.balanceStep address) 0 = 0 := by
  induction transactions with
  | nil => rfl
  | cons tx rest ih =>
    have apart : ¬ ((tx.fromAddr = address ∧ address ≠ "0") ∨ tx.toAddr = address) :=
      fun counted => untallied ⟨tx, List.mem_cons_self, counted⟩
    have later : ¬ Tallied address rest := fun ⟨other, member, counted⟩ =>
    untallied ⟨other, List.mem_cons_of_mem _ member, counted⟩
    have empty : ∀ amount, saturatingSub 0 amount = 0 := fun amount =>
    ((charge_nothing_iff 0 amount).mpr (Or.inl rfl)).symm
    have unmoved : Blockchain.balanceStep address 0 tx = 0 := by
      rw [not_or] at apart
      simp [Blockchain.balanceStep, apart.2, empty]
    rw [List.foldl_cons, unmoved, ih later]

theorem synced_tallied (order : Arrangement (String × UInt64)) (keys : String → Hash32)
    (wallets : WalletManager) {part : Blockchain}
    (counted : Tallied address part.allTransactions) :
    shownBalance (syncFromBlockchain order keys wallets part.chain) address =
      part.allTransactions.foldl (tallyStep address) 0 := by
  obtain ⟨balance, stored⟩ := Option.isSome_iff_exists.mp
    (Std.ExtTreeMap.mem_iff_isSome_getElem?.mp ((mem_tally _).mpr counted))
  rw [Blockchain.allTransactions] at stored ⊢
  rw [synced_balance, ← tally_get, stored, Option.getD_some, Option.getD_some]

theorem untallied_get (untallied : ¬ Tallied address transactions) :
    (tally transactions)[address]? = none :=
  Std.ExtTreeMap.getElem?_eq_none (mt (mem_tally _).mp untallied)

def singleBlock (transactions : List Transaction) : Blockchain :=
  { chain := [{ index := 0, timestamp := 0, transactions, previousHash := "", hash := ""
                nonce := 0, difficulty := 0, merkleRoot := "" }]
    difficulty := 0, targetBlockTime := 60, difficultyAdjustmentInterval := 10
    maxTransactionsPerBlock := 1000, maxBlockSizeBytes := 1000000 }

theorem single_block_transactions (transactions : List Transaction) :
    (singleBlock transactions).allTransactions = transactions :=
  List.append_nil transactions

/-- On every chain that the transactions begin with, the synced balance of an
address with a tallied one is the balance computed from the chain, exactly if both
charge the address the same for each of the transactions; for all wallets, keys
and orders. The sender "0" alone may occur without a tallied balance: it keeps what
its wallet had, and has nothing on the chain. -/
theorem synced_balance_iff (ledger : Blockchain) (address : String) :
    ((∀ part : Blockchain, part.allTransactions <+: ledger.allTransactions →
        Tallied address part.allTransactions → ∀ order keys wallets,
          shownBalance (syncFromBlockchain order keys wallets part.chain) address =
            part.calculateBalance address) ↔
      AllMeet (Blockchain.balanceStep address) (SameCharge address) 0 ledger.allTransactions) ∧
    (Occurs address ledger.allTransactions → ¬ Tallied address ledger.allTransactions →
      address = "0" ∧ ledger.calculateBalance address = 0 ∧ ∀ order keys wallets,
        shownBalance (syncFromBlockchain order keys wallets ledger.chain) address =
          shownBalance wallets address) := by
  constructor
  · rw [← runs_agree_iff (tallyStep address) same_charge_iff]
    constructor
    · intro agree count
      by_cases counted : Tallied address (ledger.allTransactions.take count)
      · rw [← single_block_transactions (ledger.allTransactions.take count)] at counted ⊢
        rw [← synced_tallied .asStored (fun _ => zeroHash) ∅ counted]
        apply agree _ _ counted
        rw [single_block_transactions]
        exact List.take_prefix _ _
      · rw [untallied_balance counted, ← tally_get, untallied_get counted]
        rfl
    · intro agree part front counted order keys wallets
      have taken := agree part.allTransactions.length
      rw [← List.prefix_iff_eq_take.mp front] at taken
      rw [synced_tallied order keys wallets counted, taken]
      rfl
  · rintro ⟨tx, member, taken⟩ untallied
    have sole : address = "0" := by
      by_contra other
      apply untallied
      rcases taken with sender | receiver
      · exact ⟨tx, member, Or.inl ⟨sender, other⟩⟩
      · exact ⟨tx, member, Or.inr receiver⟩
    refine ⟨sole, untallied_balance untallied, ?_⟩
    intro order keys wallets
    have absent := untallied_get untallied
    rw [Blockchain.allTransactions] at absent
    rw [synced_balance, absent, Option.getD_none]

def paidChain : Blockchain :=
  singleBlock [.newWithFee "t0" 0 "0" "alice" 50 0 none, sampleTransfer 20 1]

theorem fee_not_synced :
    shownBalance (syncFromBlockchain .asStored (fun _ => zeroHash) ∅ paidChain.chain) "alice" =
        30 ∧
      paidChain.calculateBalance "alice" = 29 := by
  decide +kernel

end CeruleanLedger.WalletLedger
