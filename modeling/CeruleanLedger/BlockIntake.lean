import CeruleanLedger.ChainMessages

/-!
What the `NewBlock` arm of `process_message` demands of a block, beside what
`is_chain_valid` and the issuance of coins demand. The handler compares hashes
and looks at every transaction that spends; it reads neither the index of a
block as its place nor the coinbases.
-/

namespace CeruleanLedger.BlockIntake

open ChainMessages ChainSync NativeLedger

def coinbases (block : Block) : List Transaction :=
  block.transactions.filter fun tx => tx.fromAddr = "0"

def minted (block : Block) : Nat := ((coinbases block).map fun tx => tx.amount.toNat).sum

def fees (block : Block) : Nat := (block.transactions.map fun tx => tx.fee.toNat).sum

/-- At most one coinbase, within the reward of the block's height and its fees. -/
def MintsWithin (ledger : Blockchain) (block : Block) : Prop :=
  (coinbases block).length ≤ 1 ∧
    minted block ≤ ledger.calculateMiningReward.toNat + fees block

def extended (ledger : Blockchain) (block : Block) : Blockchain :=
  { ledger with chain := ledger.chain ++ [block] }

def Accepts (crypto : Crypto) (manager : Option CheckpointManager)
    (wallets : Option WalletManager) (ledger : Blockchain) (block : Block) : Prop :=
  handleNewBlock crypto manager wallets ledger block = extended ledger block

def CountsOn (ledger : Blockchain) (block : Block) : Prop :=
  ∃ latest, ledger.chain.getLast? = some latest ∧ block.index.toNat = latest.index.toNat + 1

section Links

variable {crypto : Crypto}

def seenAfter (seenIndices : List UInt64) (blocks : List Block) : List UInt64 :=
  (blocks.map Block.index).reverse ++ seenIndices

theorem links_valid_concat (previous block : Block) (seenIndices : List UInt64)
    (rest : List Block) :
    Blockchain.linksValid crypto previous seenIndices (rest ++ [block]) =
      (Blockchain.linksValid crypto previous seenIndices rest &&
        Blockchain.linksValid crypto (lastAfter previous rest) (seenAfter seenIndices rest)
          [block]) := by
  induction rest generalizing previous seenIndices with
  | nil => simp [Blockchain.linksValid, lastAfter, seenAfter]
  | cons current rest ih =>
    have seen : seenAfter (current.index :: seenIndices) rest =
        seenAfter seenIndices (current :: rest) := by
      simp [seenAfter]
    rw [List.cons_append, Blockchain.linksValid, Blockchain.linksValid, ih, last_after_cons, seen]
    simp only [Bool.and_assoc]

theorem succ_to_nat {index : UInt64} (nonzero : index + 1 ≠ 0) :
    (index + 1).toNat = index.toNat + 1 := by
  have bound := index.toNat_lt
  rw [UInt64.toNat_add]
  by_contra wraps
  apply nonzero
  apply UInt64.toNat_inj.mp
  rw [UInt64.toNat_add]
  have last : index.toNat = 2 ^ 64 - 1 := by
    simp only [UInt64.toNat_one] at wraps
    omega
  rw [last]
  rfl

/-- Zero is always seen, so a valid chain never wraps and its last index is the
greatest one. -/
theorem seen_le_last (previous : Block) (seenIndices : List UInt64) (rest : List Block)
    (zero : 0 ∈ seenIndices) (below : ∀ seen ∈ seenIndices, seen.toNat ≤ previous.index.toNat)
    (linked : Blockchain.linksValid crypto previous seenIndices rest = true) :
    ∀ seen ∈ seenAfter seenIndices rest,
      seen.toNat ≤ (lastAfter previous rest).index.toNat := by
  induction rest generalizing previous seenIndices with
  | nil => simpa [seenAfter, lastAfter] using below
  | cons current rest ih =>
    simp only [Blockchain.linksValid, Bool.and_eq_true, beq_iff_eq, Bool.not_eq_true',
      List.contains_eq_mem, decide_eq_false_iff_not] at linked
    obtain ⟨⟨⟨_, counted⟩, fresh⟩, later⟩ := linked
    have nonzero : previous.index + 1 ≠ 0 := by
      rintro wraps
      rw [counted, wraps] at fresh
      exact fresh zero
    have next : current.index.toNat = previous.index.toNat + 1 := by
      rw [counted, succ_to_nat nonzero]
    have grown : ∀ seen ∈ current.index :: seenIndices, seen.toNat ≤ current.index.toNat := by
      intro seen member
      rcases List.mem_cons.mp member with same | earlier
      · rw [same]
      · have := below seen earlier
        omega
    have same : seenAfter (current.index :: seenIndices) rest =
        seenAfter seenIndices (current :: rest) := by
      simp [seenAfter]
    rw [last_after_cons, ← same]
    exact ih current _ (List.mem_cons_of_mem _ zero) grown later

/-- Behind a valid chain, a valid block that links by its hash keeps the chain
valid exactly when its index counts on. -/
theorem concat_valid_iff {ledger : Blockchain} {latest block : Block}
    (valid : ledger.isChainValid crypto = true) (last : ledger.chain.getLast? = some latest)
    (links : block.previousHash = latest.hash) (blockValid : block.isValid crypto = true) :
    (extended ledger block).isChainValid crypto = true ↔ CountsOn ledger block := by
  cases shape : ledger.chain with
  | nil =>
    rw [shape] at last
    cases last
  | cons first rest =>
    rw [shape, List.getLast?_cons, Option.some.injEq] at last
    have lastIs : lastAfter first rest = latest := last
    simp only [Blockchain.isChainValid, shape, Bool.and_eq_true] at valid
    have top := seen_le_last first [0] rest (by simp) (by simp) valid.2
    rw [lastIs] at top
    have zero : (0 : UInt64) ∈ seenAfter [0] rest := by simp [seenAfter]
    simp only [Blockchain.isChainValid, extended, shape, List.cons_append, links_valid_concat,
      lastIs, valid, Blockchain.linksValid, blockValid, links, beq_self_eq_true, Bool.true_and,
      Bool.and_true, Bool.and_eq_true, beq_iff_eq, Bool.not_eq_true', List.contains_eq_mem,
      decide_eq_false_iff_not, CountsOn, List.getLast?_cons, Option.some.injEq, last,
      exists_eq_left']
    constructor
    · rintro ⟨counted, fresh⟩
      rw [counted]
      apply succ_to_nat
      intro wraps
      rw [counted, wraps] at fresh
      exact fresh zero
    · intro counted
      have next : block.index = latest.index + 1 := by
        apply UInt64.toNat_inj.mp
        have bound := block.index.toNat_lt
        rw [UInt64.toNat_add, counted, UInt64.toNat_one]
        omega
      refine ⟨next, fun member => ?_⟩
      have := top block.index member
      omega

end Links

variable {crypto : Crypto} {manager : Option CheckpointManager} {wallets : Option WalletManager}
  {ledger : Blockchain} {block : Block}

theorem accepted_links (accepted : Accepts crypto manager wallets ledger block) :
    ∃ latest, ledger.chain.getLast? = some latest ∧ block.previousHash = latest.hash ∧
      block.isValid crypto = true := by
  have grown : (handleNewBlock crypto manager wallets ledger block).chain.length =
      ledger.chain.length + 1 := by
    rw [accepted]
    simp [extended]
  unfold handleNewBlock at grown
  split at grown
  · omega
  · next latest last =>
    split at grown
    · next passed =>
      simp only [appends, Bool.and_eq_true, beq_iff_eq] at passed
      exact ⟨latest, last, passed.1.1.1.2, passed.1.1.2⟩
    · omega

/-- An accepted block keeps the chain valid and the coins scarce exactly when its
index counts on and its coinbase, if any, is a single one within the reward and
the fees. -/
theorem accepted_block_sound_iff (crypto : Crypto) (manager : Option CheckpointManager)
    (wallets : Option WalletManager) (ledger : Blockchain) (block : Block)
    (valid : ledger.isChainValid crypto = true)
    (accepted : Accepts crypto manager wallets ledger block) :
    ((extended ledger block).isChainValid crypto = true ∧ MintsWithin ledger block) ↔
      CountsOn ledger block ∧ (coinbases block = [] ∨ ∃ tx, coinbases block = [tx] ∧
        tx.amount.toNat ≤ ledger.calculateMiningReward.toNat + fees block) := by
  obtain ⟨latest, last, links, blockValid⟩ := accepted_links accepted
  rw [concat_valid_iff valid last links blockValid, MintsWithin, minted]
  refine and_congr_right fun _ => ?_
  cases coinbases block with
  | nil => simp
  | cons tx rest =>
    cases rest with
    | nil => simp
    | cons other rest => simp

def unmined (crypto : Crypto) (now index : UInt64) (transactions : List Transaction)
    (previousHash : String) : Block :=
  let block := Block.new crypto now index transactions previousHash 0
  { block with hash := block.calculateHash crypto }

open TokenBalances (openCrypto alice)

def rootBlock : Block := unmined openCrypto 0 0 [] "0"

def rootLedger : Blockchain := ⟨[rootBlock], 0, 60, 10, 1000, 1000000⟩

def rewardOf (amount : UInt64) : Transaction := .newWithFee "reward" 0 "0" alice amount 0 none

def blockOf (index : UInt64) (amounts : List UInt64) : Block :=
  unmined openCrypto 1 index (amounts.map rewardOf) rootBlock.hash

theorem reward_block_sound :
    (extended rootLedger (blockOf 1 [50])).isChainValid openCrypto = true ∧
      MintsWithin rootLedger (blockOf 1 [50]) :=
  (accepted_block_sound_iff openCrypto none (some ∅) rootLedger (blockOf 1 [50])
    (by decide +kernel) (by rfl)).mpr
    ⟨⟨rootBlock, rfl, by decide +kernel⟩,
      Or.inr ⟨rewardOf 50, by decide +kernel, by decide +kernel⟩⟩

/-- One block creates a quintillion coins in two coinbases; another claims the
index seven behind index zero. Both are appended. -/
theorem forged_blocks_appended :
    let forged := blockOf 1 [500000000000000000, 500000000000000000]
    rootLedger.isChainValid openCrypto = true ∧
      (Accepts openCrypto none (some ∅) rootLedger forged ∧ ¬ MintsWithin rootLedger forged) ∧
      (Accepts openCrypto none (some ∅) rootLedger (blockOf 7 [50]) ∧
        ¬ (extended rootLedger (blockOf 7 [50])).isChainValid openCrypto = true) := by
  refine ⟨by decide +kernel, ⟨by rfl, ?_⟩, by rfl, by decide +kernel⟩
  rintro ⟨single, _⟩
  exact absurd single (by decide +kernel)

end CeruleanLedger.BlockIntake
