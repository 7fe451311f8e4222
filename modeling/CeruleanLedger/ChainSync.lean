import CeruleanLedger.TokenBalances

/-!
Longest-chain sync: `resolve_conflict` and `is_valid_chain_static` of
`blockchain.rs`. A node that receives its own chain with more blocks checks
every transaction of that chain against its own balances and its own confirmed
ids, shared blocks included. Which extensions it adopts is stated exactly.
-/

namespace CeruleanLedger.ChainSync

open NativeLedger

section Model

variable (crypto : Crypto)

/-- The loop of `is_valid_chain_static` from the second block on. -/
def linkedAfter (previous : Block) : List Block → Bool
  | [] => true
  | current :: rest =>
    current.isValid crypto && current.previousHash == previous.hash &&
      current.index == previous.index + 1 && linkedAfter current rest

def isValidChainStatic : List Block → Bool
  | [] => false
  | first :: rest => first.isValid crypto && linkedAfter crypto first rest

/-- The check of one transaction of the other chain, against the node's own
ledger. Coinbases are not checked. -/
def replays (ledger : Blockchain) (wallets : WalletManager) (tx : Transaction) : Bool :=
  if tx.fromAddr ≠ "0" then
    match ledger.validateTransaction crypto wallets tx with
    | .error _ => false
    | .ok () => true
  else true

def resolveConflict (ledger : Blockchain) (otherChain : List Block)
    (wallets : WalletManager) : Bool × Blockchain :=
  if otherChain.length ≤ ledger.chain.length then (false, ledger)
  else if !isValidChainStatic crypto otherChain then (false, ledger)
  else if otherChain.all fun block => block.transactions.all (replays crypto ledger wallets) then
    (true, { ledger with chain := otherChain })
  else (false, ledger)

def extendBy (ledger : Blockchain) : List Call → Option Blockchain
  | [] => some ledger
  | call :: rest =>
    match ledger.addBlock crypto call.now call.wallets call.transactions with
    | .ok (some (_, after)) => extendBy after rest
    | _ => none

end Model

/-- The wallets know the senders of the new blocks as the calls did. -/
def KnowsSenders (wallets : WalletManager) (calls : List Call) : Prop :=
  ∀ call ∈ calls, ∀ tx ∈ call.transactions, tx.fromAddr ≠ "0" → tx.fromAddr ≠ "STAKING" →
    wallets[tx.fromAddr]? = call.wallets[tx.fromAddr]?

def WellLinked (crypto : Crypto) (chain : List Block) : Prop :=
  isValidChainStatic crypto chain = true ∧ chain.head?.map Block.index = some 0

/-- No confirmed transaction but coinbases and well-formed unstakings. -/
def OnlySystem (ledger : Blockchain) : Prop :=
  ∀ tx ∈ ledger.allTransactions, tx.fromAddr ≠ "0" →
    tx.fromAddr = "STAKING" ∧ tx.isValid = true

/-- Every new transaction is covered by the balances before the extension. -/
def CoveredBefore (ledger : Blockchain) (calls : List Call) : Prop :=
  ∀ call ∈ calls, ∀ tx ∈ call.transactions, tx.fromAddr ≠ "0" →
    if tx.fromAddr = "STAKING" then tx.isValid = true
    else tx.amount + tx.fee ≤ ledger.calculateBalance tx.fromAddr

section Links

variable {crypto : Crypto}

def lastAfter (previous : Block) (rest : List Block) : Block := rest.getLast?.getD previous

theorem last_after_cons (previous current : Block) (rest : List Block) :
    lastAfter previous (current :: rest) = lastAfter current rest := by
  cases rest with
  | nil => rfl
  | cons next rest =>
    rw [lastAfter, lastAfter, List.getLast?_cons_cons]
    simp [List.getLast?_cons]

theorem linked_after_append (previous : Block) (front back : List Block) :
    linkedAfter crypto previous (front ++ back) =
      (linkedAfter crypto previous front &&
        linkedAfter crypto (lastAfter previous front) back) := by
  induction front generalizing previous with
  | nil => simp [linkedAfter, lastAfter]
  | cons current rest ih =>
    rw [List.cons_append, linkedAfter, linkedAfter, ih, last_after_cons]
    simp only [Bool.and_assoc]

theorem linked_last_index (previous : Block) (rest : List Block)
    (linked : linkedAfter crypto previous rest = true) :
    (lastAfter previous rest).index = previous.index + UInt64.ofNat rest.length := by
  induction rest generalizing previous with
  | nil => simp [lastAfter]
  | cons current rest ih =>
    simp only [linkedAfter, Bool.and_eq_true, beq_iff_eq] at linked
    obtain ⟨⟨_, counted⟩, tail⟩ := linked
    rw [last_after_cons, ih current tail, counted, List.length_cons, UInt64.ofNat_add,
      UInt64.add_assoc, UInt64.add_comm 1]
    rfl

structure Appended (crypto : Crypto) (chain : List Block) (mined : Block) : Prop where
  valid : mined.isValid crypto = true
  index : mined.index = UInt64.ofNat chain.length
  previousHash : mined.previousHash = (chain.getLast?.map Block.hash).getD ""

/-- The new block links to a chain numbered from zero, and to no other. -/
theorem appended_static_iff {chain : List Block} {mined : Block}
    (appended : Appended crypto chain mined) (started : chain ≠ []) :
    isValidChainStatic crypto (chain ++ [mined]) = true ↔ WellLinked crypto chain := by
  cases chain with
  | nil => exact absurd rfl started
  | cons first rest =>
    have last : (first :: rest).getLast? = some (lastAfter first rest) := by
      simp [lastAfter, List.getLast?_cons]
    have linksBack : mined.previousHash = (lastAfter first rest).hash := by
      rw [appended.previousHash, last]
      rfl
    have next : mined.index = UInt64.ofNat rest.length + 1 := by
      rw [appended.index, List.length_cons, UInt64.ofNat_add]
      rfl
    -- The new index is the length of the chain, which its last index fits only when
    -- the count began at zero.
    simp only [WellLinked, isValidChainStatic, List.cons_append, linked_after_append,
      linkedAfter, appended.valid, linksBack, next, List.head?_cons, Option.map_some,
      Option.some.injEq, Bool.and_eq_true, beq_self_eq_true, Bool.and_true, Bool.true_and,
      beq_iff_eq]
    constructor
    · rintro ⟨valid, linked, counted⟩
      rw [linked_last_index first rest linked, add_left_inj, right_eq_add] at counted
      exact ⟨⟨valid, linked⟩, counted⟩
    · rintro ⟨⟨valid, linked⟩, zero⟩
      refine ⟨valid, linked, ?_⟩
      rw [linked_last_index first rest linked, zero, UInt64.zero_add]

theorem appended_well_linked {chain : List Block} {mined : Block}
    (appended : Appended crypto chain mined) (started : chain ≠ []) :
    WellLinked crypto (chain ++ [mined]) ↔ WellLinked crypto chain := by
  have static := appended_static_iff appended started
  constructor
  · rintro ⟨valid, _⟩
    exact static.mp valid
  · intro linked
    refine ⟨static.mpr linked, ?_⟩
    rw [List.head?_append_of_ne_nil _ started]
    exact linked.2

end Links

section Extensions

variable {crypto : Crypto} {ledger final : Blockchain} {calls : List Call}

theorem extend_by_cons {call : Call}
    (extended : extendBy crypto ledger (call :: calls) = some final) :
    ∃ (after : Blockchain) (mined : Block),
      ledger.admissible crypto call.wallets call.transactions = .ok () ∧
      after.chain = ledger.chain ++ [mined] ∧ mined.transactions = call.transactions ∧
      Appended crypto ledger.chain mined ∧ extendBy crypto after calls = some final := by
  simp only [extendBy] at extended
  split at extended
  · obtain ⟨passed, mined, appended, same, valid, index, previousHash⟩ := add_block_mined ‹_›
    exact ⟨_, mined, passed, appended, same, ⟨valid, index, previousHash⟩, extended⟩
  · cases extended

theorem extend_by_chain (extended : extendBy crypto ledger calls = some final) :
    ∃ added : List Block, final.chain = ledger.chain ++ added ∧
      added.map Block.transactions = calls.map Call.transactions := by
  induction calls generalizing ledger with
  | nil =>
    cases extended
    exact ⟨[], (List.append_nil _).symm, rfl⟩
  | cons call rest ih =>
    obtain ⟨after, mined, _, appended, same, _, continued⟩ := extend_by_cons extended
    obtain ⟨added, grown, transactions⟩ := ih continued
    refine ⟨mined :: added, ?_, ?_⟩
    · rw [grown, appended, List.append_assoc]
      rfl
    · rw [List.map_cons, List.map_cons, same, transactions]

theorem extend_by_static_iff (started : ledger.chain ≠ []) (grows : calls ≠ [])
    (extended : extendBy crypto ledger calls = some final) :
    isValidChainStatic crypto final.chain = true ↔ WellLinked crypto ledger.chain := by
  induction calls generalizing ledger with
  | nil => exact absurd rfl grows
  | cons call rest ih =>
    obtain ⟨after, mined, _, appended, _, links, continued⟩ := extend_by_cons extended
    cases rest with
    | nil =>
      cases continued
      rw [appended]
      exact appended_static_iff links started
    | cons next rest =>
      rw [ih (by simp [appended]) (List.cons_ne_nil _ _) continued, appended]
      exact appended_well_linked links started

theorem extend_by_accepted (extended : extendBy crypto ledger calls = some final)
    (call : Call) (member : call ∈ calls) :
    ∃ (before : Blockchain), ledger.allTransactions ⊆ before.allTransactions ∧
      before.admissible crypto call.wallets call.transactions = .ok () := by
  induction calls generalizing ledger with
  | nil => cases member
  | cons first rest ih =>
    obtain ⟨after, mined, passed, appended, _, _, continued⟩ := extend_by_cons extended
    rcases List.mem_cons.mp member with same | later
    · subst same
      exact ⟨ledger, List.Subset.refl _, passed⟩
    · obtain ⟨before, kept, accepted⟩ := ih continued later
      refine ⟨before, ?_, accepted⟩
      intro tx confirmed
      apply kept
      rw [TokenBalances.all_transactions_append appended]
      exact List.mem_append_left _ confirmed

end Extensions

section Replays

variable {crypto : Crypto} {ledger final : Blockchain} {wallets : WalletManager}
variable {calls : List Call} {tx : Transaction}

theorem replays_iff : replays crypto ledger wallets tx = true ↔
    (tx.fromAddr ≠ "0" → ledger.validateTransaction crypto wallets tx = .ok ()) := by
  unfold replays
  by_cases coinbase : tx.fromAddr = "0"
  · simp [coinbase]
  · cases checked : ledger.validateTransaction crypto wallets tx with
    | error reason => simp [coinbase]
    | ok value => simp [coinbase]

theorem confirmed_replays_iff (confirmed : tx ∈ ledger.allTransactions)
    (notCoinbase : tx.fromAddr ≠ "0") :
    ledger.validateTransaction crypto wallets tx = .ok () ↔
      tx.fromAddr = "STAKING" ∧ tx.isValid = true := by
  by_cases staking : tx.fromAddr = "STAKING"
  · rw [validate_transaction_staking staking]
    simp [staking]
  · have repeated : ledger.isDoubleSpend tx = true :=
      List.any_eq_true.mpr ⟨tx, confirmed, beq_self_eq_true _⟩
    rw [validate_transaction_iff notCoinbase staking, validate_spend_iff]
    simp [staking, repeated]

/-- A transaction of the extension is checked again for its balance only. -/
theorem extension_replays_iff {before : Blockchain} {call : Call}
    (kept : ledger.allTransactions ⊆ before.allTransactions)
    (accepted : before.admissible crypto call.wallets call.transactions = .ok ())
    (member : tx ∈ call.transactions) (notCoinbase : tx.fromAddr ≠ "0")
    (known : tx.fromAddr ≠ "STAKING" → wallets[tx.fromAddr]? = call.wallets[tx.fromAddr]?) :
    ledger.validateTransaction crypto wallets tx = .ok () ↔
      if tx.fromAddr = "STAKING" then tx.isValid = true
      else tx.amount + tx.fee ≤ ledger.calculateBalance tx.fromAddr := by
  by_cases staking : tx.fromAddr = "STAKING"
  · rw [if_pos staking]
    exact validate_transaction_staking staking
  · have valid := admissible_ok accepted tx member notCoinbase staking
    -- All that `add_block` checked still holds here, but for the balance.
    rw [validate_transaction_iff notCoinbase staking, validate_spend_iff] at valid
    obtain ⟨formed, signed, _, paid, fresh⟩ := valid
    have unconfirmed : ledger.isDoubleSpend tx = false := by
      rw [Blockchain.isDoubleSpend, List.any_eq_false] at fresh ⊢
      intro existing confirmed
      exact fresh existing (kept confirmed)
    rw [if_neg staking, validate_transaction_iff notCoinbase staking, validate_spend_iff,
      known staking]
    constructor
    · rintro ⟨_, _, covered, _⟩
      exact covered
    · intro covered
      exact ⟨formed, signed, covered, paid, unconfirmed⟩

theorem prefix_replays_iff :
    (∀ tx ∈ ledger.allTransactions, replays crypto ledger wallets tx = true) ↔
      OnlySystem ledger := by
  constructor
  · intro passes tx confirmed notCoinbase
    exact (confirmed_replays_iff confirmed notCoinbase).mp
      (replays_iff.mp (passes tx confirmed) notCoinbase)
  · intro system tx confirmed
    rw [replays_iff]
    intro notCoinbase
    exact (confirmed_replays_iff confirmed notCoinbase).mpr (system tx confirmed notCoinbase)

theorem suffix_replays_iff (known : KnowsSenders wallets calls)
    (extended : extendBy crypto ledger calls = some final) :
    (∀ call ∈ calls, ∀ tx ∈ call.transactions, replays crypto ledger wallets tx = true) ↔
      CoveredBefore ledger calls := by
  have checked : ∀ call ∈ calls, ∀ tx ∈ call.transactions, tx.fromAddr ≠ "0" →
      (ledger.validateTransaction crypto wallets tx = .ok () ↔
        if tx.fromAddr = "STAKING" then tx.isValid = true
        else tx.amount + tx.fee ≤ ledger.calculateBalance tx.fromAddr) := by
    intro call inside tx member notCoinbase
    obtain ⟨before, kept, accepted⟩ := extend_by_accepted extended call inside
    exact extension_replays_iff kept accepted member notCoinbase
      (known call inside tx member notCoinbase)
  constructor
  · intro passes call inside tx member notCoinbase
    exact (checked call inside tx member notCoinbase).mp
      (replays_iff.mp (passes call inside tx member) notCoinbase)
  · intro covered call inside tx member
    rw [replays_iff]
    intro notCoinbase
    exact (checked call inside tx member notCoinbase).mpr
      (covered call inside tx member notCoinbase)

theorem chain_replays_iff {added : List Block}
    (transactions : added.map Block.transactions = calls.map Call.transactions) :
    ((ledger.chain ++ added).all fun block =>
      block.transactions.all (replays crypto ledger wallets)) = true ↔
      (∀ tx ∈ ledger.allTransactions, replays crypto ledger wallets tx = true) ∧
        ∀ call ∈ calls, ∀ tx ∈ call.transactions, replays crypto ledger wallets tx = true := by
  have inCalls : (∀ block ∈ added, ∀ tx ∈ block.transactions,
      replays crypto ledger wallets tx = true) ↔
      ∀ call ∈ calls, ∀ tx ∈ call.transactions, replays crypto ledger wallets tx = true := by
    have lists := List.forall_mem_map (f := Block.transactions) (l := added)
      (P := fun txs => ∀ tx ∈ txs, replays crypto ledger wallets tx = true)
    rw [← lists, transactions, List.forall_mem_map]
  rw [List.all_append, Bool.and_eq_true, ← inCalls]
  simp only [List.all_eq_true, Blockchain.allTransactions, List.mem_flatMap,
    forall_exists_index, and_imp]
  constructor
  · rintro ⟨shared, new⟩
    exact ⟨fun tx block inside member => shared block inside tx member, new⟩
  · rintro ⟨shared, new⟩
    exact ⟨fun block inside tx member => shared tx block inside member, new⟩

end Replays

/-- A node adopts an extension of its own chain exactly when the chain passes
the static check from index zero, has no confirmed ordinary transaction, and
covers the new ones by the balances it had before the extension. -/
theorem extension_adopted_iff (crypto : Crypto) (ledger final : Blockchain)
    (wallets : WalletManager) (calls : List Call) (started : ledger.chain ≠ [])
    (grows : calls ≠ []) (extended : extendBy crypto ledger calls = some final)
    (known : KnowsSenders wallets calls) :
    resolveConflict crypto ledger final.chain wallets =
        (true, { ledger with chain := final.chain }) ↔
      WellLinked crypto ledger.chain ∧ OnlySystem ledger ∧ CoveredBefore ledger calls := by
  obtain ⟨added, grown, transactions⟩ := extend_by_chain extended
  have longer : ¬ final.chain.length ≤ ledger.chain.length := by
    have size := congrArg List.length transactions
    have some := List.length_pos_of_ne_nil grows
    rw [List.length_map, List.length_map] at size
    rw [grown, List.length_append]
    omega
  have linked := extend_by_static_iff started grows extended
  have replayed := @chain_replays_iff crypto ledger wallets calls added transactions
  rw [prefix_replays_iff, suffix_replays_iff known extended, ← grown] at replayed
  rw [resolveConflict, if_neg longer, ← linked, ← replayed]
  cases isValidChainStatic crypto final.chain with
  | false => simp
  | true =>
    cases final.chain.all fun block => block.transactions.all (replays crypto ledger wallets) with
    | false => simp
    | true => simp

open TokenBalances

def aliceWallets : WalletManager := (spendCall []).wallets

def rewardTo (address id : String) : Transaction := .newWithFee id 0 "0" address 50 0 none

def rooted (transactions : List Transaction) : Blockchain :=
  { freshLedger with
    chain := ((Block.new openCrypto 0 0 transactions "0" 0).mine openCrypto).toList }

def answer (ledger : Blockchain) (calls : List Call) : Option Bool :=
  (extendBy openCrypto ledger calls).map fun final =>
    (resolveConflict openCrypto ledger final.chain aliceWallets).1

theorem knows_own (calls : List (List Transaction)) :
    KnowsSenders aliceWallets (calls.map spendCall) := by
  intro call inside tx _ _ _
  obtain ⟨transactions, _, same⟩ := List.mem_map.mp inside
  subst same
  rfl

theorem single_spend_adopted :
    ∃ final, extendBy openCrypto (rooted [rewardTo alice "r0"])
        [spendCall [transfer "t1" 20 1]] = some final ∧
      resolveConflict openCrypto (rooted [rewardTo alice "r0"]) final.chain aliceWallets =
        (true, { rooted [rewardTo alice "r0"] with chain := final.chain }) := by
  obtain ⟨final, extended⟩ := Option.isSome_iff_exists.mp
    (by decide +kernel : (extendBy openCrypto (rooted [rewardTo alice "r0"])
      [spendCall [transfer "t1" 20 1]]).isSome = true)
  exact ⟨final, extended, (extension_adopted_iff openCrypto _ _ aliceWallets _ (by decide +kernel)
    (List.cons_ne_nil _ _) extended (knows_own [[transfer "t1" 20 1]])).mpr
    ⟨⟨by decide +kernel, by decide +kernel⟩, by unfold OnlySystem; decide +kernel,
      by unfold CoveredBefore; decide +kernel⟩⟩

/-- Refused although `add_block` accepts every block: any extension of a fresh
node's own chain, any extension of a valid chain with a confirmed transfer, and
a transfer of what the extension itself pays out. -/
theorem extension_refused :
    answer freshLedger [spendCall [rewardTo alice "r1"]] = some false ∧
    (isValidChainStatic openCrypto
        (rooted [rewardTo alice "r0", transfer "t0" 20 1]).chain = true ∧
      answer (rooted [rewardTo alice "r0", transfer "t0" 20 1])
        [spendCall [rewardTo alice "r1"]] = some false) ∧
    (isValidChainStatic openCrypto (rooted [rewardTo "bob" "r0"]).chain = true ∧
      answer (rooted [rewardTo "bob" "r0"])
        [spendCall [rewardTo alice "r1"], spendCall [transfer "t1" 20 1]] = some false) := by
  decide +kernel

end CeruleanLedger.ChainSync
