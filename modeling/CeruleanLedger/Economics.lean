import CeruleanLedger.Staking
import CeruleanLedger.SteppedSums

/-!
Issuance, fees and epochs of `tokenomics/economics.rs`. The fees of an epoch are counted from
its first block on, which is the block after the one that moves the height into it. Amounts are
`u64` and wrap, as in a release build.
-/

namespace CeruleanLedger.Economics

open SteppedSums
open NativeLedger (saturatingSub)
open Staking (saturatingAdd)

def maxSupply : UInt64 := 100000000

def initialBlockReward : UInt64 := 50

def halvingInterval : UInt64 := 210000

def feeBurnPercent : UInt64 := 80

def targetTxs : UInt64 := 250

def baseFeeAdjustmentFactor : UInt64 := 8

def minBaseFee : UInt64 := 1

def blocksPerEpoch : UInt64 := 11520

structure EconomicsState where
  height : UInt64
  totalMinted : UInt64
  totalBurned : UInt64
  baseFee : UInt64
  epoch : UInt64
  epochFees : UInt64
  deriving DecidableEq

def EconomicsState.default : EconomicsState := ⟨0, 0, 0, minBaseFee, 0, 0⟩

def blockReward (height : UInt64) : UInt64 :=
  let halvings := height / halvingInterval
  if 64 ≤ halvings then 0 else initialBlockReward >>> halvings

def cappedBlockReward (height totalMinted : UInt64) : UInt64 :=
  if maxSupply ≤ totalMinted then 0
  else min (blockReward height) (maxSupply - totalMinted)

structure FeeSplit where
  burn : UInt64
  proposer : UInt64
  deriving DecidableEq

def splitFees (totalFees : UInt64) : FeeSplit :=
  let burn := totalFees * feeBurnPercent / 100
  ⟨burn, totalFees - burn⟩

def nextBaseFee (currentBaseFee txCount : UInt64) : UInt64 :=
  if txCount = targetTxs then currentBaseFee
  else
    let delta := currentBaseFee / baseFeeAdjustmentFactor
    if targetTxs < txCount then
      let increase := delta * (txCount - targetTxs) / max targetTxs 1
      saturatingAdd currentBaseFee (max increase 1)
    else
      let decrease := delta * (targetTxs - txCount) / max targetTxs 1
      max (saturatingSub currentBaseFee decrease) minBaseFee

def processBlock (state : EconomicsState) (txCount totalFees : UInt64) :
    EconomicsState × FeeSplit × UInt64 :=
  let reward := cappedBlockReward state.height state.totalMinted
  let feeSplit := splitFees totalFees
  let newHeight := state.height + 1
  let newEpoch := newHeight / blocksPerEpoch
  ({ height := newHeight
     totalMinted := state.totalMinted + reward
     totalBurned := state.totalBurned + feeSplit.burn
     baseFee := nextBaseFee state.baseFee txCount
     epoch := newEpoch
     epochFees := if newEpoch ≠ state.epoch then 0 else state.epochFees + totalFees },
    feeSplit, reward)

structure Load where
  txCount : UInt64
  totalFees : UInt64
  deriving DecidableEq

def Load.fees (load : Load) : ℕ := load.totalFees.toNat

structure Watched where
  state : EconomicsState
  paid : ℕ

def Watched.new : Watched := ⟨.default, 0⟩

def advance (watched : Watched) (load : Load) : Watched :=
  let (state, feeSplit, _) := processBlock watched.state load.txCount load.totalFees
  ⟨state, watched.paid + feeSplit.proposer.toNat⟩

def collected (blocks : List Load) : ℕ := (blocks.map Load.fees).sum

def scheduled (index : ℕ) : ℕ := 50 >>> (index / 210000)

def issued (count : ℕ) : ℕ := ∑ index ∈ Finset.range count, scheduled index

/-- The fees of the blocks of an epoch, where a block's height is its position. -/
def feesOfEpoch (blocks : List Load) (epoch : ℕ) : ℕ := window 11520 Load.fees blocks epoch

theorem shift_gone {halvings : ℕ} (many : 6 ≤ halvings) : 50 >>> halvings = 0 := by
  rw [Nat.shiftRight_eq_div_pow]
  apply Nat.div_eq_of_lt
  calc 50 < 2 ^ 6 := by decide
    _ ≤ 2 ^ halvings := Nat.pow_le_pow_right (by decide) many

theorem issued_succ (count : ℕ) : issued (count + 1) = issued count + scheduled count :=
  Finset.sum_range_succ _ _

theorem issued_le (count : ℕ) : issued count ≤ 20370000 := by
  -- 210000 blocks each of 50, 25, 12, 6, 3 and 1
  exact stepped_le 210000 (fun halvings => 50 >>> halvings) (by decide) 6
    (fun later => shift_gone (Nat.le_add_right 6 later)) count

theorem scheduled_le (index : ℕ) : scheduled index ≤ 50 := by
  rw [scheduled, Nat.shiftRight_eq_div_pow]
  exact Nat.div_le_self _ _

/-- From 64 halvings on the code returns zero, as the schedule has for long. -/
theorem block_reward_toNat (height : UInt64) :
    (blockReward height).toNat = scheduled height.toNat := by
  have quotient : (height / halvingInterval).toNat = height.toNat / 210000 :=
    UInt64.toNat_div _ _
  unfold blockReward scheduled
  dsimp only
  split
  · next many =>
    have large := UInt64.le_iff_toNat_le.mp many
    rw [quotient] at large
    change 64 ≤ _ at large
    rw [shift_gone (by omega)]
    rfl
  · next few =>
    have small := UInt64.lt_iff_toNat_lt.mp (UInt64.not_le.mp few)
    rw [quotient] at small
    change _ < 64 at small
    rw [UInt64.toNat_shiftRight, quotient, Nat.mod_eq_of_lt small]
    rfl

theorem capped_reward_eq {height totalMinted : UInt64} (within : totalMinted.toNat ≤ 20370000) :
    cappedBlockReward height totalMinted = blockReward height := by
  have reward := scheduled_le height.toNat
  rw [← block_reward_toNat] at reward
  have below : totalMinted < maxSupply := by
    rw [UInt64.lt_iff_toNat_lt]
    change _ < 100000000
    omega
  have room : blockReward height ≤ maxSupply - totalMinted := by
    rw [UInt64.le_iff_toNat_le, UInt64.toNat_sub_of_le _ _ (UInt64.le_of_lt below)]
    change _ ≤ 100000000 - _
    omega
  unfold cappedBlockReward
  rw [if_neg (UInt64.not_le.mpr below)]
  exact if_pos room

theorem split_exact {totalFees : UInt64} (small : totalFees.toNat < 2 ^ 57) :
    (splitFees totalFees).burn.toNat + (splitFees totalFees).proposer.toNat =
      totalFees.toNat := by
  have burn : (splitFees totalFees).burn.toNat = totalFees.toNat * 80 / 100 := by
    change (totalFees * feeBurnPercent / 100).toNat = _
    rw [UInt64.toNat_div, UInt64.toNat_mul]
    change totalFees.toNat * 80 % 2 ^ 64 / 100 = _
    rw [Nat.mod_eq_of_lt (by omega)]
  have part : (splitFees totalFees).burn ≤ totalFees := by
    rw [UInt64.le_iff_toNat_le, burn]
    omega
  have proposer : (splitFees totalFees).proposer.toNat =
      totalFees.toNat - (splitFees totalFees).burn.toNat := UInt64.toNat_sub_of_le _ _ part
  have within := UInt64.le_iff_toNat_le.mp part
  omega

theorem collected_append (blocks : List Load) (load : Load) :
    collected (blocks ++ [load]) = collected blocks + load.fees := by
  rw [collected, List.map_append, List.sum_append, List.map_singleton, List.sum_singleton]
  rfl

section Run

structure Tracks (blocks : List Load) (watched : Watched) : Prop where
  height : watched.state.height.toNat = blocks.length
  minted : watched.state.totalMinted.toNat = issued blocks.length
  fees : watched.state.totalBurned.toNat + watched.paid = collected blocks
  epoch : watched.state.epoch.toNat = blocks.length / 11520
  epochFees : watched.state.epochFees.toNat = feesOfEpoch blocks (blocks.length / 11520)

variable {blocks : List Load} {watched : Watched}

theorem next_reward (tracks : Tracks blocks watched) (load : Load) :
    (processBlock watched.state load.txCount load.totalFees).2.2 =
      blockReward watched.state.height := by
  apply capped_reward_eq
  rw [tracks.minted]
  exact issued_le _

theorem next_height (tracks : Tracks blocks watched) (room : blocks.length + 1 < 2 ^ 64) :
    (watched.state.height + 1).toNat = blocks.length + 1 := by
  rw [UInt64.toNat_add, tracks.height]
  exact Nat.mod_eq_of_lt room

theorem next_epoch (tracks : Tracks blocks watched) (room : blocks.length + 1 < 2 ^ 64) :
    ((watched.state.height + 1) / blocksPerEpoch).toNat = (blocks.length + 1) / 11520 := by
  rw [UInt64.toNat_div, next_height tracks room]
  rfl

/-- At the boundary the count restarts, since no block has the new epoch yet. -/
theorem next_epoch_fees (tracks : Tracks blocks watched) (load : Load)
    (room : blocks.length + 1 < 2 ^ 64) (small : collected blocks + load.fees < 2 ^ 57) :
    (advance watched load).state.epochFees.toNat =
      feesOfEpoch (blocks ++ [load]) ((blocks.length + 1) / 11520) := by
  have entered := next_epoch tracks room
  rw [feesOfEpoch, window_append 11520 Load.fees blocks load, ← feesOfEpoch]
  change (if (watched.state.height + 1) / blocksPerEpoch ≠ watched.state.epoch then 0
    else watched.state.epochFees + load.totalFees).toNat = _
  by_cases same : (blocks.length + 1) / 11520 = blocks.length / 11520
  · have kept : (watched.state.height + 1) / blocksPerEpoch = watched.state.epoch :=
      UInt64.toNat_inj.mp (by rw [entered, same, tracks.epoch])
    have bounded : feesOfEpoch blocks (blocks.length / 11520) ≤ collected blocks :=
      window_le 11520 Load.fees blocks _
    rw [if_neg (not_not.mpr kept), same, if_pos rfl, UInt64.toNat_add, tracks.epochFees]
    exact Nat.mod_eq_of_lt (by change _ + load.fees < _; omega)
  · have moved : (watched.state.height + 1) / blocksPerEpoch ≠ watched.state.epoch := by
      intro kept
      rw [kept, tracks.epoch] at entered
      exact same entered.symm
    have nothing : feesOfEpoch blocks ((blocks.length + 1) / 11520) = 0 :=
      window_beyond 11520 Load.fees (by decide) blocks (by omega)
    rw [if_pos moved, nothing, if_neg (by omega)]
    rfl

theorem advance_tracks (tracks : Tracks blocks watched) (load : Load)
    (room : blocks.length + 1 < 2 ^ 64) (small : collected blocks + load.fees < 2 ^ 57) :
    Tracks (blocks ++ [load]) (advance watched load) := by
  have counted : (blocks ++ [load]).length = blocks.length + 1 := List.length_append
  constructor
  · rw [counted]
    exact next_height tracks room
  · have reward := next_reward tracks load
    have bound := issued_le (blocks.length + 1)
    change (watched.state.totalMinted +
      (processBlock watched.state load.txCount load.totalFees).2.2).toNat = _
    rw [issued_succ] at bound
    rw [reward, UInt64.toNat_add, block_reward_toNat, tracks.minted, tracks.height, counted,
      issued_succ]
    exact Nat.mod_eq_of_lt (by omega)
  · have modest : load.totalFees.toNat < 2 ^ 57 := by
      change load.fees < _
      omega
    have split := split_exact modest
    have before := tracks.fees
    change (watched.state.totalBurned + (splitFees load.totalFees).burn).toNat +
      (watched.paid + (splitFees load.totalFees).proposer.toNat) = _
    change _ = load.fees at split
    rw [collected_append, UInt64.toNat_add, Nat.mod_eq_of_lt (by omega)]
    omega
  · rw [counted]
    exact next_epoch tracks room
  · rw [counted]
    exact next_epoch_fees tracks load room small

theorem run_tracks (blocks : List Load) (counted : blocks.length < 2 ^ 64)
    (small : collected blocks < 2 ^ 57) : Tracks blocks (blocks.foldl advance .new) := by
  induction blocks using List.reverseRecOn with
  | nil => exact ⟨rfl, rfl, rfl, rfl, rfl⟩
  | append_singleton blocks load ih =>
    rw [List.length_append, List.length_singleton] at counted
    rw [collected_append] at small
    rw [List.foldl_append]
    exact advance_tracks (ih (by omega) (by omega)) load counted small

end Run

/-- After every number of blocks that a height can count, with fees below 2^57 in
all: what was minted is the schedule's sum, at most 20370000, and the next reward
is not capped; burned and paid fees are the fees collected; the epoch's fees are
those of its blocks. -/
theorem issuance_schedule (blocks : List Load) (counted : blocks.length < 2 ^ 64)
    (small : collected blocks < 2 ^ 57) :
    let now := blocks.foldl advance .new
    now.state.totalMinted.toNat = ∑ index ∈ Finset.range blocks.length, 50 >>> (index / 210000) ∧
      now.state.totalMinted.toNat ≤ 20370000 ∧
      (∀ load : Load, (processBlock now.state load.txCount load.totalFees).2.2 =
        blockReward now.state.height) ∧
      now.state.totalBurned.toNat + now.paid = collected blocks ∧
      now.state.epoch.toNat = blocks.length / 11520 ∧
      now.state.epochFees.toNat = feesOfEpoch blocks (blocks.length / 11520) := by
  intro now
  have tracks := run_tracks blocks counted small
  refine ⟨tracks.minted, ?_, next_reward tracks, tracks.fees, tracks.epoch, tracks.epochFees⟩
  rw [tracks.minted]
  exact issued_le _

theorem two_blocks_issued :
    (([⟨250, 7⟩, ⟨300, 105⟩] : List Load).foldl advance .new).state.totalMinted.toNat = 100 ∧
      (([⟨250, 7⟩, ⟨300, 105⟩] : List Load).foldl advance .new).state.epochFees.toNat = 112 := by
  obtain ⟨minted, _, _, _, _, fees⟩ :=
    issuance_schedule [⟨250, 7⟩, ⟨300, 105⟩] (by decide) (by decide)
  exact ⟨minted.trans (by decide), fees.trans (by decide)⟩

end CeruleanLedger.Economics
