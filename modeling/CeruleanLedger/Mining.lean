import CeruleanLedger.TokenBalances

/-!
Mining on the native ledger: the reward that halves, in `mining.rs` and in `blockchain.rs`, the
difficulty that follows the block times, and `mine_block_with_reward`. Ids and times of its own
transactions are arguments. A shift counts modulo 64 and amounts wrap, as in a release build.
-/

namespace CeruleanLedger.Mining

open ByteCodec
open NativeLedger

section Halving

structure MiningConfig where
  baseReward : UInt64
  halvingInterval : UInt64
  deriving DecidableEq

def MiningConfig.default : MiningConfig := ⟨50, 210000⟩

def halved (baseReward halvingInterval height : UInt64) : UInt64 :=
  baseReward >>> min (height / halvingInterval) 64

/-- `MiningService::calculate_reward`; an interval of zero panics. -/
def calculateReward (config : MiningConfig) (height : UInt64) : Option UInt64 :=
  if config.halvingInterval = 0 then none
  else some (halved config.baseReward config.halvingInterval height)

theorem mining_reward_halved (ledger : Blockchain) :
    ledger.calculateMiningReward = halved 50 210000 (UInt64.ofNat ledger.chain.length) := rfl

variable (base interval height : UInt64)

/-- The shift counts the halvings modulo 64, and they stop at 64. -/
theorem halved_toNat : (halved base interval height).toNat =
    base.toNat / 2 ^ (min (height.toNat / interval.toNat) 64 % 64) := by
  rw [halved, UInt64.toNat_shiftRight, UInt64.toNat_min, UInt64.toNat_div,
    Nat.shiftRight_eq_div_pow]
  rfl

variable {base interval height}

theorem halved_of_few (few : height.toNat / interval.toNat < 64) :
    (halved base interval height).toNat = base.toNat / 2 ^ (height.toNat / interval.toNat) := by
  rw [halved_toNat, Nat.min_eq_left few.le, Nat.mod_eq_of_lt few]

theorem halved_of_many (many : 64 ≤ height.toNat / interval.toNat) :
    halved base interval height = base := by
  apply UInt64.toNat_inj.mp
  rw [halved_toNat, Nat.min_eq_right many, Nat.mod_self, Nat.pow_zero, Nat.div_one]

theorem halved_iff : (halved base interval height).toNat =
    base.toNat / 2 ^ (height.toNat / interval.toNat) ↔
      base = 0 ∨ height.toNat / interval.toNat < 64 := by
  rcases Nat.lt_or_ge (height.toNat / interval.toNat) 64 with few | many
  · simp only [halved_of_few few, few, or_true]
  · have vanished : base.toNat / 2 ^ (height.toNat / interval.toNat) = 0 := by
      apply Nat.div_eq_of_lt
      exact base.toNat_lt.trans_le (Nat.pow_le_pow_right (by decide) many)
    rw [halved_of_many many, vanished, ← UInt64.toNat_inj]
    simp only [UInt64.toNat_zero, Nat.not_lt.mpr many, or_false]

theorem halved_antitone {later : UInt64} (grows : height ≤ later)
    (few : later.toNat / interval.toNat < 64) :
    halved base interval later ≤ halved base interval height := by
  have earlier : height.toNat / interval.toNat ≤ later.toNat / interval.toNat :=
    Nat.div_le_div_right (UInt64.le_iff_toNat_le.mp grows)
  rw [UInt64.le_iff_toNat_le, halved_of_few few, halved_of_few (earlier.trans_lt few)]
  exact Nat.div_le_div_left (Nat.pow_le_pow_right (by decide) earlier) (Nat.two_pow_pos _)

theorem calculate_reward_eq {config : MiningConfig} (positive : 1 ≤ config.halvingInterval) :
    calculateReward config height =
      some (halved config.baseReward config.halvingInterval height) := by
  have nonzero : config.halvingInterval ≠ 0 := by
    intro zero
    rw [zero] at positive
    exact absurd positive (by decide)
  exact if_neg nonzero

/-- Both rewards are the halved base reward exactly up to the 63rd halving, and
do not rise until then; at the 64th they are back at the base reward. -/
theorem reward_halves_iff (config : MiningConfig) (positive : 1 ≤ config.halvingInterval) :
    (∀ height : UInt64, ∃ reward : UInt64, calculateReward config height = some reward ∧
      (reward.toNat =
          config.baseReward.toNat / 2 ^ (height.toNat / config.halvingInterval.toNat) ↔
        config.baseReward = 0 ∨ height.toNat / config.halvingInterval.toNat < 64) ∧
      (64 ≤ height.toNat / config.halvingInterval.toNat → reward = config.baseReward)) ∧
    (∀ height later reward next : UInt64, height ≤ later →
      later.toNat / config.halvingInterval.toNat < 64 →
      calculateReward config height = some reward →
      calculateReward config later = some next → next ≤ reward) ∧
    ∀ ledger : Blockchain, ledger.chain.length < 2 ^ 64 →
      (ledger.calculateMiningReward.toNat = 50 / 2 ^ (ledger.chain.length / 210000) ↔
        ledger.chain.length / 210000 < 64) := by
  refine ⟨?_, ?_, ?_⟩
  · intro height
    exact ⟨_, calculate_reward_eq positive, halved_iff, halved_of_many⟩
  · intro height later reward next grows few before after
    rw [calculate_reward_eq positive, Option.some.injEq] at before after
    rw [← before, ← after]
    exact halved_antitone grows few
  · intro ledger addressable
    have law := @halved_iff 50 210000 (UInt64.ofNat ledger.chain.length)
    rw [UInt64.toNat_ofNat_of_lt' addressable, ← mining_reward_halved] at law
    simpa using law

theorem default_reward_halves :
    ∃ reward : UInt64, calculateReward .default 1000000 = some reward ∧
      reward.toNat = 50 / 2 ^ (1000000 / 210000) := by
  obtain ⟨reward, computed, law, -⟩ := (reward_halves_iff .default (by decide)).1 1000000
  exact ⟨reward, computed, law.mpr (by decide)⟩

/-- One block further the reward goes from nothing to 50. -/
theorem reward_rises_again :
    calculateReward .default 13439999 = some 0 ∧
      calculateReward .default 13440000 = some 50 := by
  decide

end Halving

section Difficulty

def recentBlocks (ledger : Blockchain) : List Block :=
  ledger.chain.drop (ledger.chain.length - ledger.difficultyAdjustmentInterval)

def expectedTime (ledger : Blockchain) : UInt64 :=
  ledger.targetBlockTime * UInt64.ofNat ledger.difficultyAdjustmentInterval

structure Acts (ledger : Blockchain) (first last : Block) : Prop where
  long : 2 ≤ ledger.chain.length
  due : ledger.chain.length % ledger.difficultyAdjustmentInterval = 0
  several : 2 ≤ (recentBlocks ledger).length
  starts : (recentBlocks ledger).head? = some first
  ends : (recentBlocks ledger).getLast? = some last

def timeSpan (first last : Block) : UInt64 := saturatingSub last.timestamp first.timestamp

def TookLonger (ledger : Blockchain) (first last : Block) : Prop :=
  (5 / 4 : ℚ) * (expectedTime ledger).toNat < (timeSpan first last).toNat

def TookLess (ledger : Blockchain) (first last : Block) : Prop :=
  ((timeSpan first last).toNat : ℚ) < 5 / 6 * (expectedTime ledger).toNat

/-- Slow blocks do not make mining harder, nor fast ones easier. -/
def RightSign (ledger : Blockchain) (first last : Block) : Prop :=
  (TookLonger ledger first last →
    ledger.adjustDifficulty.2.difficulty ≤ ledger.difficulty) ∧
  (TookLess ledger first last →
    ledger.difficulty ≤ ledger.adjustDifficulty.2.difficulty)

variable {ledger : Blockchain} {first last : Block}

theorem adjust_acts (acts : Acts ledger first last) :
    ledger.adjustDifficulty.2.difficulty =
      Blockchain.adjusted ledger.difficulty (expectedTime ledger) (timeSpan first last) := by
  have due : ¬ (ledger.chain.length < 2 ∨
      ledger.chain.length % ledger.difficultyAdjustmentInterval ≠ 0) := by
    have long := acts.long
    have even := acts.due
    omega
  have several : ¬ (recentBlocks ledger).length < 2 := Nat.not_lt.mpr acts.several
  have starts := acts.starts
  have ends := acts.ends
  unfold recentBlocks at several starts ends
  simp only [Blockchain.adjustDifficulty, if_neg due, starts, ends, if_neg several]
  rfl

variable {difficulty : UInt8} {expected span : UInt64}

theorem ratio_bounds (expected span : UInt64) :
    let ratio : ℚ := if 0 < span then expected.toNat / span.toNat else 1
    (ratio < 8 / 10 ↔ (5 / 4 : ℚ) * expected.toNat < span.toNat) ∧
      (12 / 10 < ratio ↔ 0 < span ∧ (span.toNat : ℚ) < 5 / 6 * expected.toNat) := by
  intro ratio
  by_cases measured : 0 < span
  · have positive : (0 : ℚ) < span.toNat := Nat.cast_pos.mpr (UInt64.lt_iff_toNat_lt.mp measured)
    have quotient : ratio = expected.toNat / span.toNat := if_pos measured
    rw [quotient, div_lt_iff₀ positive, lt_div_iff₀ positive]
    constructor
    · constructor <;> intro bound <;> linarith
    · simp only [measured, true_and]
      constructor <;> intro bound <;> linarith
  · have unmeasured : ratio = 1 := if_neg measured
    have zero : span.toNat = 0 := Nat.eq_zero_of_not_pos fun positive =>
      measured (UInt64.lt_iff_toNat_lt.mpr positive)
    have expected_nonneg : (0 : ℚ) ≤ expected.toNat := Nat.cast_nonneg _
    rw [unmeasured, zero]
    constructor
    · constructor
      · intro bound
        norm_num at bound
      · intro bound
        rw [Nat.cast_zero] at bound
        linarith
    · simp only [measured, false_and, iff_false]
      norm_num

/-- The difficulty goes up after slow blocks and down after fast ones. -/
theorem adjusted_toNat (low : 1 ≤ difficulty) (high : difficulty ≤ 20) :
    (Blockchain.adjusted difficulty expected span).toNat =
      if (5 / 4 : ℚ) * expected.toNat < span.toNat then min 20 (difficulty.toNat + 1)
      else if 0 < span ∧ (span.toNat : ℚ) < 5 / 6 * expected.toNat then
        max 1 (difficulty.toNat - 1)
      else difficulty.toNat := by
  have above := UInt8.le_iff_toNat_le.mp low
  have below := UInt8.le_iff_toNat_le.mp high
  have one : (1 : UInt8).toNat = 1 := rfl
  have twenty : (20 : UInt8).toNat = 20 := rfl
  rw [one] at above
  rw [twenty] at below
  have kept : ∀ moved : Nat, (UInt8.ofNat (max 1 (min 20 moved))).toNat =
      max 1 (min 20 moved) := fun moved => UInt8.toNat_ofNat_of_lt' (by
    have size : UInt8.size = 256 := rfl
    omega)
  obtain ⟨slow, fast⟩ := ratio_bounds expected span
  simp only [Blockchain.adjusted, kept, slow, fast]
  split
  · omega
  · split
    · omega
    · omega

theorem not_less_of_longer (longer : TookLonger ledger first last) :
    ¬ TookLess ledger first last := by
  have expected_nonneg : (0 : ℚ) ≤ (expectedTime ledger).toNat := Nat.cast_nonneg _
  unfold TookLonger at longer
  unfold TookLess
  linarith

/-- The feedback is right only where the difficulty is already at its bound:
slow blocks at 20, and fast ones at 1 or with equal times. -/
theorem feedback_sign_iff (acts : Acts ledger first last) (low : 1 ≤ ledger.difficulty)
    (high : ledger.difficulty ≤ 20) :
    RightSign ledger first last ↔
      (TookLonger ledger first last → ledger.difficulty = 20) ∧
      (TookLess ledger first last → timeSpan first last ≠ 0 → ledger.difficulty = 1) := by
  have moved := @adjusted_toNat ledger.difficulty (expectedTime ledger) (timeSpan first last)
    low high
  have above : 1 ≤ ledger.difficulty.toNat := UInt8.le_iff_toNat_le.mp low
  have below : ledger.difficulty.toNat ≤ 20 := UInt8.le_iff_toNat_le.mp high
  have measured : 0 < timeSpan first last ↔ timeSpan first last ≠ 0 := by
    rw [UInt64.lt_iff_toNat_lt, ne_eq, ← UInt64.toNat_inj]
    exact Nat.pos_iff_ne_zero
  rw [RightSign, adjust_acts acts, UInt8.le_iff_toNat_le, UInt8.le_iff_toNat_le, moved,
    ← UInt8.toNat_inj, ← UInt8.toNat_inj]
  change _ ↔ (_ → ledger.difficulty.toNat = 20) ∧ (_ → _ → ledger.difficulty.toNat = 1)
  by_cases longer : TookLonger ledger first last
  · have notLess := not_less_of_longer longer
    simp only [longer, notLess, false_imp_iff, and_true, true_imp_iff]
    rw [if_pos (by exact longer)]
    omega
  · simp only [longer, false_imp_iff, true_and]
    rw [if_neg (by exact longer)]
    by_cases less : TookLess ledger first last
    · by_cases spent : 0 < timeSpan first last
      · simp only [less, true_imp_iff, measured.mp spent, ne_eq, not_false_eq_true]
        rw [if_pos ⟨spent, less⟩]
        omega
      · have instant : ¬ timeSpan first last ≠ 0 := fun some => spent (measured.mpr some)
        rw [if_neg fun both => spent both.1]
        simp [instant]
    · simp only [less, false_imp_iff]

def timedBlock (distance place : UInt64) : Block :=
  { index := place, timestamp := distance * place, transactions := [], previousHash := ""
    hash := "", nonce := 0, difficulty := 1, merkleRoot := "" }

def timedLedger (difficulty : UInt8) (distance : UInt64) : Blockchain :=
  { chain := [0, 1, 2, 3, 4, 5, 6, 7, 8, 9].map (timedBlock distance), difficulty
    targetBlockTime := 60, difficultyAdjustmentInterval := 10
    maxTransactionsPerBlock := 1000, maxBlockSizeBytes := 1000000 }

theorem timed_acts (difficulty : UInt8) (distance : UInt64) :
    Acts (timedLedger difficulty distance) (timedBlock distance 0) (timedBlock distance 9) where
  long := by simp [timedLedger]
  due := by simp [timedLedger]
  several := by simp [timedLedger, recentBlocks]
  starts := by simp [timedLedger, recentBlocks]
  ends := by simp [timedLedger, recentBlocks]

theorem slow_blocks_at_bound :
    RightSign (timedLedger 20 100) (timedBlock 100 0) (timedBlock 100 9) :=
  (feedback_sign_iff (timed_acts 20 100) (by decide) (by decide)).mpr
    ⟨fun _ => rfl, fun less _ => absurd less (by unfold TookLess; decide +kernel)⟩

/-- Blocks every 100 seconds make mining harder, and every 10 seconds easier. -/
theorem feedback_reversed :
    (Acts (timedLedger 3 100) (timedBlock 100 0) (timedBlock 100 9) ∧
      TookLonger (timedLedger 3 100) (timedBlock 100 0) (timedBlock 100 9) ∧
      (timedLedger 3 100).adjustDifficulty.2.difficulty = 4) ∧
    (Acts (timedLedger 3 10) (timedBlock 10 0) (timedBlock 10 9) ∧
      TookLess (timedLedger 3 10) (timedBlock 10 0) (timedBlock 10 9) ∧
      (timedLedger 3 10).adjustDifficulty.2.difficulty = 2) := by
  refine ⟨⟨timed_acts 3 100, ?_, ?_⟩, timed_acts 3 10, ?_, ?_⟩
  · unfold TookLonger
    decide +kernel
  · decide +kernel
  · unfold TookLess
    decide +kernel
  · decide +kernel

end Difficulty

structure Draws where
  coinbaseId : String
  coinbaseTime : UInt64
  burnId : String
  burnTime : UInt64
  now : UInt64

def createCoinbaseTransaction (id : String) (now : UInt64) (minerAddress : String)
    (reward : Option UInt64) : Transaction :=
  .newWithFee id now "0" minerAddress (reward.getD 50) 0 (some "Coinbase - Mining Reward")

def calculateTotalFees (transactions : List Transaction) : UInt64 :=
  (transactions.map Transaction.fee).sum

def burnAddress : String := "BURN_ADDRESS_00000000000000000000"

def feeShare (percentage totalFees : UInt64) : UInt64 := totalFees * percentage / 100

def feesToBurn (totalFees : UInt64) : UInt64 := feeShare 80 totalFees

def feesToMiner (totalFees : UInt64) : UInt64 := feeShare 20 totalFees

/-- The transactions of the block: the reward, the burn if there is one, and
those of the users. -/
def rewardedTransactions (ledger : Blockchain) (draws : Draws) (minerAddress : String)
    (transactions : List Transaction) : List Transaction :=
  let totalFees := calculateTotalFees transactions
  let totalReward := ledger.calculateMiningReward + feesToMiner totalFees
  let coinbase :=
    createCoinbaseTransaction draws.coinbaseId draws.coinbaseTime minerAddress (some totalReward)
  -- The burn is a coinbase too.
  let burn := createCoinbaseTransaction draws.burnId draws.burnTime burnAddress
    (some (feesToBurn totalFees))
  coinbase :: (if 0 < feesToBurn totalFees then [burn] else []) ++ transactions

def mineBlockWithReward (crypto : Crypto) (ledger : Blockchain) (draws : Draws)
    (minerAddress : String) (transactions : List Transaction) (wallets : WalletManager) :
    Except String (Option (String × Blockchain)) :=
  ledger.addBlock crypto draws.now wallets
    (rewardedTransactions ledger draws minerAddress transactions)

def Mined (crypto : Crypto) (ledger : Blockchain) (draws : Draws) (minerAddress : String)
    (transactions : List Transaction) (wallets : WalletManager) : Prop :=
  ∃ hash after mined,
    mineBlockWithReward crypto ledger draws minerAddress transactions wallets =
      .ok (some (hash, after)) ∧
    after.chain = ledger.chain ++ [mined] ∧ transactions.Sublist mined.transactions

/-- What a caller can see to: the chain has its genesis block, each transaction
is valid on its own, they fit a block, and the fees stay below the limit of a
coinbase. -/
structure Offered (crypto : Crypto) (ledger : Blockchain) (wallets : WalletManager)
    (minerAddress : String) (transactions : List Transaction) : Prop where
  started : ledger.chain ≠ []
  filled : transactions ≠ []
  valid : ∀ tx ∈ transactions, ledger.validateTransaction crypto wallets tx = .ok ()
  small : Blockchain.calculateBlockSize transactions ≤ ledger.maxBlockSizeBytes
  few : transactions.length ≤ ledger.maxTransactionsPerBlock
  fees : (transactions.map fun tx => tx.fee.toNat).sum < 1000000000
  long : minAddressLength ≤ minerAddress.utf8ByteSize

def plainBlock (ledger : Blockchain) (draws : Draws) (minerAddress : String)
    (transactions : List Transaction) : List Transaction :=
  createCoinbaseTransaction draws.coinbaseId draws.coinbaseTime minerAddress
    (some ledger.calculateMiningReward) :: transactions

variable {crypto : Crypto} {ledger : Blockchain} {draws : Draws} {minerAddress : String}
variable {transactions : List Transaction} {wallets : WalletManager}

theorem total_fees_toNat (bounded : (transactions.map fun tx => tx.fee.toNat).sum < 2 ^ 64) :
    (calculateTotalFees transactions).toNat =
      (transactions.map fun tx => tx.fee.toNat).sum := by
  induction transactions with
  | nil => rfl
  | cons tx rest ih =>
    rw [List.map_cons, List.sum_cons] at bounded ⊢
    have tail := ih (by omega)
    rw [calculateTotalFees] at tail ⊢
    rw [List.map_cons, List.sum_cons, UInt64.toNat_add, tail, Nat.mod_eq_of_lt bounded]

variable {totalFees : UInt64}

theorem fee_share_toNat {percentage : UInt64} (part : percentage.toNat ≤ 100)
    (bounded : totalFees.toNat < 1000000000) :
    (feeShare percentage totalFees).toNat = totalFees.toNat * percentage.toNat / 100 := by
  have fits : totalFees.toNat * percentage.toNat < 2 ^ 64 := by
    have scaled := Nat.mul_le_mul bounded.le part
    omega
  rw [feeShare, UInt64.toNat_div, UInt64.toNat_mul, Nat.mod_eq_of_lt fits]
  rfl

theorem fees_to_burn_toNat (bounded : totalFees.toNat < 1000000000) :
    (feesToBurn totalFees).toNat = totalFees.toNat * 80 / 100 :=
  fee_share_toNat (by decide) bounded

theorem burn_iff (bounded : totalFees.toNat < 1000000000) :
    0 < feesToBurn totalFees ↔ 2 ≤ totalFees.toNat := by
  rw [UInt64.lt_iff_toNat_lt, fees_to_burn_toNat bounded, UInt64.toNat_zero]
  omega

theorem mining_reward_le (ledger : Blockchain) : ledger.calculateMiningReward.toNat ≤ 50 := by
  rw [mining_reward_halved, halved_toNat]
  exact Nat.div_le_self 50 _

theorem total_reward_toNat (bounded : totalFees.toNat < 1000000000) :
    (ledger.calculateMiningReward + feesToMiner totalFees).toNat =
      ledger.calculateMiningReward.toNat + totalFees.toNat * 20 / 100 := by
  have base := mining_reward_le ledger
  have share : (feesToMiner totalFees).toNat = totalFees.toNat * 20 / 100 :=
    fee_share_toNat (by decide) bounded
  rw [UInt64.toNat_add, share, Nat.mod_eq_of_lt (by omega)]

theorem validate_coinbase_iff {id : String} {now amount : UInt64}
    (long : minAddressLength ≤ minerAddress.utf8ByteSize) :
    Blockchain.validateCoinbaseTransaction
        (createCoinbaseTransaction id now minerAddress (some amount)) = .ok () ↔
      0 < amount.toNat ∧ amount.toNat ≤ 1000000000 := by
  have named : minerAddress ≠ "" := by
    rintro rfl
    exact absurd long (by decide)
  have reaches := Nat.not_lt.mpr long
  have zero : amount = 0 ↔ ¬ 0 < amount.toNat := by
    rw [← UInt64.toNat_inj, UInt64.toNat_zero]
    omega
  have limit : maxCoinbaseAmount < amount ↔ ¬ amount.toNat ≤ 1000000000 := by
    rw [UInt64.lt_iff_toNat_lt, Nat.not_le]
    rfl
  simp only [Blockchain.validateCoinbaseTransaction, createCoinbaseTransaction,
    Transaction.newWithFee, Option.getD_some, zero, limit]
  by_cases positive : 0 < amount.toNat
  · by_cases limited : amount.toNat ≤ 1000000000
    · simp [named, positive, limited, reaches]
    · simp [named, positive, limited]
  · simp [named, positive]

theorem check_coinbase {tx : Transaction} {coinbases total : Nat} (coinbase : tx.fromAddr = "0") :
    ledger.checkTransactions crypto wallets (tx :: transactions) coinbases = .ok total ↔
      Blockchain.validateCoinbaseTransaction tx = .ok () ∧
        ledger.checkTransactions crypto wallets transactions (coinbases + 1) = .ok total := by
  rw [Blockchain.checkTransactions, if_pos coinbase]
  cases Blockchain.validateCoinbaseTransaction tx with
  | error reason => simp
  | ok => simp

theorem rewarded_plain (small : (calculateTotalFees transactions).toNat ≤ 1) :
    rewardedTransactions ledger draws minerAddress transactions =
      plainBlock ledger draws minerAddress transactions := by
  have bounded : (calculateTotalFees transactions).toNat < 1000000000 := by omega
  have kept : ¬ 0 < feesToBurn (calculateTotalFees transactions) := by
    rw [burn_iff bounded]
    omega
  have reward : ledger.calculateMiningReward + feesToMiner (calculateTotalFees transactions) =
      ledger.calculateMiningReward := by
    apply UInt64.toNat_inj.mp
    rw [total_reward_toNat bounded]
    omega
  simp only [rewardedTransactions, plainBlock, if_neg kept, reward]
  rfl

/-- One coinbase at most leaves no room for a burn, nor for one of the users. -/
theorem single_coinbase (offered : Offered crypto ledger wallets minerAddress transactions)
    (draws : Draws)
    (single : (rewardedTransactions ledger draws minerAddress transactions).countP
      (·.fromAddr = "0") ≤ 1) :
    (calculateTotalFees transactions).toNat ≤ 1 ∧ ∀ tx ∈ transactions, tx.fromAddr ≠ "0" := by
  have total := total_fees_toNat (offered.fees.trans (by decide))
  have bounded : (calculateTotalFees transactions).toNat < 1000000000 := by
    rw [total]
    exact offered.fees
  rw [rewardedTransactions, List.cons_append, List.countP_cons_of_pos (by rfl),
    List.countP_append] at single
  constructor
  · by_contra many
    rw [if_pos ((burn_iff bounded).mpr (by omega)), List.countP_cons_of_pos (by rfl)] at single
    omega
  · intro tx member coinbase
    have counted : 0 < transactions.countP (·.fromAddr = "0") :=
      List.countP_pos_iff.mpr ⟨tx, member, by simpa using coinbase⟩
    omega

theorem plain_admissible_iff (offered : Offered crypto ledger wallets minerAddress transactions)
    (ordinary : ∀ tx ∈ transactions, tx.fromAddr ≠ "0") :
    ledger.admissible crypto wallets (plainBlock ledger draws minerAddress transactions) =
        .ok () ↔
      0 < ledger.calculateMiningReward ∧
      Blockchain.calculateBlockSize (plainBlock ledger draws minerAddress transactions) ≤
        ledger.maxBlockSizeBytes ∧
      (plainBlock ledger draws minerAddress transactions).length ≤
        ledger.maxTransactionsPerBlock := by
  have rest : ledger.checkTransactions crypto wallets transactions 1 = .ok 1 :=
    check_transactions_of 1 fun tx member => ⟨ordinary tx member, offered.valid tx member⟩
  have limited : ledger.calculateMiningReward.toNat ≤ 1000000000 :=
    (mining_reward_le ledger).trans (by decide)
  have positive : 0 < ledger.calculateMiningReward ↔ 0 < ledger.calculateMiningReward.toNat :=
    UInt64.lt_iff_toNat_lt
  have checked : (∃ coinbases ≤ 1, ledger.checkTransactions crypto wallets
      (plainBlock ledger draws minerAddress transactions) 0 = .ok coinbases) ↔
        0 < ledger.calculateMiningReward := by
    simp only [plainBlock, check_coinbase (show (createCoinbaseTransaction _ _ _ _).fromAddr = "0"
      from rfl), validate_coinbase_iff offered.long, rest, limited, and_true, positive]
    simp
  have filled : plainBlock ledger draws minerAddress transactions ≠ [] := List.cons_ne_nil _ _
  rw [admissible_iff, checked]
  simp only [filled, ne_eq, not_false_eq_true, true_and]
  exact ⟨fun ⟨size, count, paid⟩ => ⟨paid, size, count⟩,
    fun ⟨paid, size, count⟩ => ⟨size, count, paid⟩⟩

/-- A block with fees is mined only if nothing is burnt: the burn would be its
second coinbase. -/
theorem rewarded_block_iff (offered : Offered crypto ledger wallets minerAddress transactions)
    (draws : Draws) :
    Mined crypto ledger draws minerAddress transactions wallets ↔
      (transactions.map fun tx => tx.fee.toNat).sum ≤ 1 ∧
      (∀ tx ∈ transactions, tx.fromAddr ≠ "0") ∧
      0 < ledger.calculateMiningReward ∧
      Blockchain.calculateBlockSize (plainBlock ledger draws minerAddress transactions) ≤
        ledger.maxBlockSizeBytes ∧
      (plainBlock ledger draws minerAddress transactions).length ≤
        ledger.maxTransactionsPerBlock ∧
      ((nextBlock crypto ledger draws.now
        (plainBlock ledger draws minerAddress transactions)).mine crypto).isSome = true := by
  rw [← total_fees_toNat (offered.fees.trans (by decide))]
  constructor
  · rintro ⟨hash, after, mined, added, -, -⟩
    obtain ⟨passed, found⟩ := add_block_iff.mp ⟨hash, after, added⟩
    obtain ⟨-, -, -, coinbases, single, checked⟩ := admissible_iff.mp passed
    have counted := check_transactions_count checked
    obtain ⟨small, ordinary⟩ := single_coinbase offered draws (by omega)
    rw [rewarded_plain small] at passed found
    obtain ⟨paid, size, count⟩ := (plain_admissible_iff offered ordinary).mp passed
    exact ⟨small, ordinary, paid, size, count, found⟩
  · rintro ⟨small, ordinary, paid, size, count, found⟩
    have passed := (plain_admissible_iff offered ordinary).mpr ⟨paid, size, count⟩
    obtain ⟨hash, after, added⟩ := add_block_iff.mpr ⟨passed, found⟩
    obtain ⟨-, mined, appended, same⟩ := add_block_ok added
    refine ⟨hash, after, mined, ?_, appended, ?_⟩
    · rw [mineBlockWithReward, rewarded_plain small]
      exact added
    · rw [same]
      exact List.sublist_cons_self _ _

open TokenBalances

def paidLedger : Blockchain := applyCall openCrypto freshLedger reward

def sampleDraws : Draws := ⟨"coinbase-id", 0, "burn-id", 0, 0⟩

theorem least_fee_mined : Mined openCrypto paidLedger sampleDraws alice [transfer "t1" 20 1]
    (spendCall []).wallets := by
  have offered : Offered openCrypto paidLedger (spendCall []).wallets alice
      [transfer "t1" 20 1] := by
    constructor <;> decide +kernel
  exact (rewarded_block_iff offered sampleDraws).mpr (by decide +kernel)

/-- The same transfer with a fee of 2 passes every check of its own, and the
block is refused. -/
theorem fee_of_two_refused :
    Offered openCrypto paidLedger (spendCall []).wallets alice [transfer "t1" 20 2] ∧
    mineBlockWithReward openCrypto paidLedger sampleDraws alice [transfer "t1" 20 2]
      (spendCall []).wallets = .error "Solo puede haber una transacción coinbase por bloque" := by
  have refused : ∀ answer : Except String (Option (String × Blockchain)),
      answer.map (fun _ => ()) =
        .error "Solo puede haber una transacción coinbase por bloque" →
      answer = .error "Solo puede haber una transacción coinbase por bloque" := by
    rintro (reason | done) same
    · cases same
      rfl
    · cases same
  exact ⟨by constructor <;> decide +kernel, refused _ (by decide +kernel)⟩

end CeruleanLedger.Mining
