import CeruleanLedger.BlockStore
import CeruleanLedger.ConfigUpdate
import CeruleanLedger.NativeLedger
import CeruleanLedger.OrderedMap

/-!
Validators and their stakes in `staking.rs`, the pool of `transaction/mempool.rs`
and the stake handler of `api/handlers/staking.rs` over the balances of
`storage/traits.rs`. The ACL check, the clock and the random id of a transaction
are inputs. Amounts are `u64` and wrap, as in a release build.
-/

namespace CeruleanLedger.Staking

open BlockStore ConfigUpdate
open NativeLedger (WalletManager saturatingSub)

structure Validator where
  address : String
  stakedAmount : UInt64
  isActive : Bool
  totalRewards : UInt64
  createdAt : UInt64
  lastValidatedBlock : UInt64
  validationCount : UInt64
  slashCount : UInt64
  unstakingRequested : Bool
  unstakingTimestamp : Option UInt64
  deriving DecidableEq

def Validator.new (address : String) (stakedAmount timestamp : UInt64) : Validator :=
  ⟨address, stakedAmount, true, 0, timestamp, 0, 0, 0, false, none⟩

def Validator.hasMinimumStake (validator : Validator) (minStake : UInt64) : Bool :=
  minStake ≤ validator.stakedAmount

structure StakingManager where
  validators : Std.ExtTreeMap String Validator
  minStake : UInt64
  unstakingPeriod : UInt64
  slashPercentage : UInt8

namespace StakingManager

def new (minStake unstakingPeriod : Option UInt64) (slashPercentage : Option UInt8) :
    StakingManager :=
  ⟨∅, minStake.getD 1000, unstakingPeriod.getD 604800, slashPercentage.getD 5⟩

def stake (manager : StakingManager) (address : String) (amount : UInt64) (walletExists : Bool)
    (now : UInt64) : Except String StakingManager :=
  if amount < manager.minStake then
    .error ("Stake mínimo requerido: " ++ toString manager.minStake ++
      " tokens (intentaste stakear: " ++ toString amount ++ ")")
  else if !walletExists then .error "Wallet no encontrado"
  else match manager.validators[address]? with
    | some validator =>
      if validator.unstakingRequested then
        .error "No puedes stakear mientras tienes un unstaking pendiente"
      else
        let grown := { validator with stakedAmount := validator.stakedAmount + amount }
        .ok { manager with validators := manager.validators.insert address grown }
    | none =>
      .ok { manager with
        validators := manager.validators.insert address (Validator.new address amount now) }

def getValidator (manager : StakingManager) (address : String) : Option Validator :=
  manager.validators[address]?

def getActiveValidators (manager : StakingManager) : List Validator :=
  (manager.validators.toList.map Prod.snd).filter fun validator =>
    validator.isActive && !validator.unstakingRequested &&
      validator.hasMinimumStake manager.minStake

def stakeOf (manager : StakingManager) (address : String) : UInt64 :=
  ((manager.getValidator address).map Validator.stakedAmount).getD 0

theorem stake_adds {manager after : StakingManager} {address : String} {amount now : UInt64}
    {walletExists : Bool} (accepted : manager.stake address amount walletExists now = .ok after)
    (other : String) :
    after.stakeOf other =
      if address = other then manager.stakeOf other + amount else manager.stakeOf other := by
  unfold stake at accepted
  split at accepted
  · cases accepted
  split at accepted
  · cases accepted
  cases found : manager.validators[address]? with
  | some validator =>
    rw [found] at accepted
    dsimp only at accepted
    split at accepted
    · cases accepted
    · cases accepted
      simp only [stakeOf, getValidator, OrderedMap.get_insert]
      split
      · next same => simp [← same, found]
      · rfl
  | none =>
    rw [found] at accepted
    cases accepted
    simp only [stakeOf, getValidator, OrderedMap.get_insert]
    split
    · next same => simp [← same, found, Validator.new]
    · rfl

end StakingManager

structure TransactionPool where
  transactions : List Transaction
  maxSize : Nat

def TransactionPool.new : TransactionPool := ⟨[], 1000⟩

def TransactionPool.add (pool : TransactionPool) (tx : Transaction) :
    Except String TransactionPool :=
  if pool.maxSize ≤ pool.transactions.length then .error "Mempool full"
  else if pool.transactions.any fun pending => pending.id = tx.id then
    .error "Transaction already in mempool"
  else .ok { pool with transactions := pool.transactions ++ [tx] }

structure ChainView where
  latestHeight : UInt64
  transactionsByBlockHeight : UInt64 → List Transaction

def saturatingAdd (left right : UInt64) : UInt64 :=
  if left.toNat + right.toNat < 2 ^ 64 then left + right else UInt64.ofNat (2 ^ 64 - 1)

theorem saturating_add_toNat (left right : UInt64) :
    (saturatingAdd left right).toNat = min (left.toNat + right.toNat) (2 ^ 64 - 1) := by
  unfold saturatingAdd
  split
  · next fits =>
    rw [UInt64.toNat_add, Nat.mod_eq_of_lt fits]
    omega
  · next full =>
    rw [UInt64.toNat_ofNat_of_lt' (by decide)]
    omega

def ChainView.settle (address : String) (balance : UInt64) (tx : Transaction) : UInt64 :=
  let credited :=
    if tx.outputRecipient = address then saturatingAdd balance tx.amount else balance
  if tx.inputDid = address then saturatingSub credited tx.amount else credited

def ChainView.calculateBalance (chain : ChainView) (address : String) : UInt64 :=
  ((List.range (chain.latestHeight.toNat + 1)).flatMap fun height =>
    chain.transactionsByBlockHeight (UInt64.ofNat height)).foldl (settle address) 0

structure StakingState where
  defaultStore : Option ChainView
  wallets : WalletManager
  manager : StakingManager
  pool : TransactionPool

structure StakeCall where
  address : String
  amount : UInt64
  acl : Except ApiError Unit
  createdAt : UInt64
  now : UInt64
  txId : String

def StakingState.balance (state : StakingState) (address : String) : UInt64 :=
  (state.defaultStore.map fun chain => chain.calculateBalance address).getD 0

def StakeCall.transaction (call : StakeCall) : Transaction :=
  ⟨call.txId, 0, call.now, call.address, "STAKING", call.amount, "pending"⟩

def TransactionPool.tryAdd (pool : TransactionPool) (tx : Transaction) : TransactionPool :=
  match pool.add tx with
  | .ok grown => grown
  | .error _ => pool

def StakingState.stake (state : StakingState) (call : StakeCall) :
    Except ApiError StakingState := do
  call.acl
  let balance := state.balance call.address
  if balance < call.amount then
    throw (.validationError "amount" ("Insufficient balance. Available: " ++ toString balance ++
      ", required: " ++ toString call.amount))
  let walletExists := state.wallets.contains call.address || decide (0 < balance)
  match state.manager.stake call.address call.amount walletExists call.createdAt with
  | .error reason => throw (.validationError "staking" reason)
  | .ok manager =>
    return { state with manager, pool := state.pool.tryAdd call.transaction }

theorem StakingState.stake_ok {state after : StakingState} {call : StakeCall}
    (accepted : state.stake call = .ok after) :
    call.amount ≤ state.balance call.address ∧
      ∃ manager walletExists,
        state.manager.stake call.address call.amount walletExists call.createdAt = .ok manager ∧
        after = { state with manager, pool := state.pool.tryAdd call.transaction } := by
  simp only [stake, bind, Except.bind, pure, Except.pure] at accepted
  split at accepted
  · cases accepted
  split at accepted
  · cases accepted
  next covered =>
    split at accepted
    · cases accepted
    · next manager staked =>
      cases accepted
      exact ⟨UInt64.not_lt.mp covered, manager, _, staked, rfl⟩

end CeruleanLedger.Staking
