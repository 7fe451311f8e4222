import CeruleanLedger.GuardedRun
import CeruleanLedger.Staking

/-!
What stands behind the stakes that the handler accepts between two blocks: the balance of the
staker on the chain, and a pending transaction for each of them. The handler compares each
request with the whole balance, whatever was staked before, and drops the transaction when the
pool refuses it.
-/

namespace CeruleanLedger.StakeBacking

open BlockStore Staking GuardedRun

structure Watched where
  state : StakingState
  accepted : List Transaction

def watch (watched : Watched) (call : StakeCall) : Watched :=
  match watched.state.stake call with
  | .error _ => watched
  | .ok state => ⟨state, watched.accepted ++ [call.transaction]⟩

def stakedBy (address : String) (accepted : List Transaction) : Nat :=
  ((accepted.filter fun tx => tx.inputDid = address).map fun tx => tx.amount.toNat).sum

/-- What was staked since the start is covered by the balance, and the pool has
grown by one transaction for each accepted request. -/
structure Backed (start : StakingState) (watched : Watched) : Prop where
  covered : ∀ address, stakedBy address watched.accepted ≤ (start.balance address).toNat
  pending : watched.state.pool.transactions = start.pool.transactions ++ watched.accepted

/-- If the request is accepted, the sum stays within the balance and the pool has
room for a transaction with the id. -/
def Affordable (watched : Watched) (call : StakeCall) : Prop :=
  (∃ after, watched.state.stake call = .ok after) →
    stakedBy call.address watched.accepted + call.amount.toNat ≤
        (watched.state.balance call.address).toNat ∧
      watched.state.pool.transactions.length < watched.state.pool.maxSize ∧
      ∀ tx ∈ watched.state.pool.transactions, tx.id ≠ call.txId

theorem staked_by_append (address : String) (accepted : List Transaction) (call : StakeCall) :
    stakedBy address (accepted ++ [call.transaction]) =
      stakedBy address accepted + if call.address = address then call.amount.toNat else 0 := by
  by_cases own : call.address = address
  · simp [stakedBy, StakeCall.transaction, own]
  · simp [stakedBy, StakeCall.transaction, own]

theorem try_add_grows_iff (pool : TransactionPool) (tx : Transaction) :
    (pool.tryAdd tx).transactions = pool.transactions ++ [tx] ↔
      pool.transactions.length < pool.maxSize ∧ ∀ held ∈ pool.transactions, held.id ≠ tx.id := by
  have shorter : pool.transactions ≠ pool.transactions ++ [tx] := by
    intro same
    have lengths := congrArg List.length same
    simp at lengths
  unfold TransactionPool.tryAdd TransactionPool.add
  by_cases full : pool.maxSize ≤ pool.transactions.length
  · simp [full, shorter]
  · by_cases known : pool.transactions.any fun held => held.id = tx.id
    · rw [if_neg full, if_pos known]
      obtain ⟨held, member, same⟩ := List.any_eq_true.mp known
      refine iff_of_false shorter fun room => room.2 held member ?_
      exact of_decide_eq_true same
    · rw [if_neg full, if_neg known]
      refine iff_of_true rfl ⟨Nat.lt_of_not_le full, fun held member same => known ?_⟩
      exact List.any_eq_true.mpr ⟨held, member, decide_eq_true same⟩

theorem watch_balance (watched : Watched) (call : StakeCall) (address : String) :
    (watch watched call).state.balance address = watched.state.balance address := by
  unfold watch
  split
  · rfl
  · next accepted =>
    obtain ⟨_, _, _, _, rfl⟩ := StakingState.stake_ok accepted
    rfl

theorem watch_backed_iff (start : StakingState) (watched : Watched) (call : StakeCall)
    (sameBalance : watched.state.balance = start.balance) (backed : Backed start watched) :
    Backed start (watch watched call) ↔ Affordable watched call := by
  cases handled : watched.state.stake call with
  | error reason =>
    have unchanged : watch watched call = watched := by rw [watch, handled]
    rw [unchanged]
    exact iff_of_true backed fun ⟨after, accepted⟩ => nomatch handled.symm.trans accepted
  | ok state =>
    have next : watch watched call =
        ⟨state, watched.accepted ++ [call.transaction]⟩ := by rw [watch, handled]
    obtain ⟨_, manager, _, _, rfl⟩ := StakingState.stake_ok handled
    have room := try_add_grows_iff watched.state.pool call.transaction
    rw [next]
    constructor
    · rintro ⟨covered, pending⟩ _
      have own := covered call.address
      rw [staked_by_append, if_pos rfl] at own
      rw [← List.append_assoc, ← backed.pending] at pending
      exact ⟨sameBalance ▸ own, room.mp pending⟩
    · intro affordable
      obtain ⟨within, fits⟩ := affordable ⟨_, handled⟩
      constructor
      · intro address
        rw [staked_by_append]
        split
        · next own => exact own ▸ sameBalance ▸ within
        · exact backed.covered address
      · rw [← List.append_assoc, ← backed.pending]
        exact room.mpr fits

def watchedFrom (start : StakingState) : Watched := ⟨start, []⟩

theorem run_stake (start : StakingState) (calls : List StakeCall) (address : String) :
    let after := calls.foldl watch (watchedFrom start)
    after.state.manager.stakeOf address =
      start.manager.stakeOf address + UInt64.ofNat (stakedBy address after.accepted) := by
  refine run_keeps (fun watched => watched.state.manager.stakeOf address =
      start.manager.stakeOf address + UInt64.ofNat (stakedBy address watched.accepted))
    (watchedFrom start) calls ?_ (fun watched call tracked => ?_)
  · exact (UInt64.add_zero _).symm
  · unfold watch
    split
    · exact tracked
    · next accepted =>
      obtain ⟨_, manager, _, staked, rfl⟩ := StakingState.stake_ok accepted
      rw [StakingManager.stake_adds staked, staked_by_append, UInt64.ofNat_add, tracked]
      split
      · rw [UInt64.ofNat_toNat, UInt64.add_assoc]
      · exact congrArg (start.manager.stakeOf address + ·) (UInt64.add_zero _).symm

/-- In every sequence of requests, the stakes are backed at each moment exactly
if each request is affordable when it is handled; and the accepted amounts are
what each validator's stake has grown by. -/
theorem stakes_backed_iff (start : StakingState) (calls : List StakeCall) :
    ((∀ count, Backed start ((calls.take count).foldl watch (watchedFrom start))) ↔
      AllMeet watch Affordable (watchedFrom start) calls) ∧
    ∀ address,
      let after := calls.foldl watch (watchedFrom start)
      after.state.manager.stakeOf address =
        start.manager.stakeOf address + UInt64.ofNat (stakedBy address after.accepted) := by
  refine ⟨?_, run_stake start calls⟩
  -- No request changes a balance, so the balances at the start stay in force.
  have balances : ∀ watched call, watched.state.balance = start.balance →
      (watch watched call).state.balance = start.balance := by
    intro watched call same
    funext address
    rw [watch_balance, same]
  have initial : Backed start (watchedFrom start) := by
    refine ⟨fun address => Nat.zero_le _, ?_⟩
    exact (List.append_nil _).symm
  exact prefixes_hold_given_iff (fun watched : Watched => watched.state.balance = start.balance)
    (Backed start) balances (watch_backed_iff start) (watchedFrom start) calls rfl initial

def holderState (pool : TransactionPool) : StakingState where
  defaultStore := some ⟨0, fun _ => [⟨"mint", 0, 1, "genesis", "holder", 1000, "confirmed"⟩]⟩
  wallets := ∅
  manager := StakingManager.new none none none
  pool

def holderCall (txId : String) : StakeCall := ⟨"holder", 1000, .ok (), 5, 5, txId⟩

def fullPool : TransactionPool :=
  { TransactionPool.new with
    transactions := (List.range 1000).map fun number =>
      ⟨toString number, 0, 1, "other", "else", 1, "pending"⟩ }

/-- The whole balance is staked twice, and with a full pool a stake has no
transaction. -/
theorem stake_unbacked :
    let twice := [holderCall "first", holderCall "second"].foldl watch
      (watchedFrom (holderState TransactionPool.new))
    let crowded := [holderCall "first"].foldl watch (watchedFrom (holderState fullPool))
    (holderState TransactionPool.new).balance "holder" = 1000 ∧
      twice.state.manager.stakeOf "holder" = 2000 ∧
      crowded.state.manager.stakeOf "holder" = 1000 ∧
      crowded.state.pool.transactions.all (fun tx => tx.outputRecipient != "STAKING") := by
  decide +kernel

end CeruleanLedger.StakeBacking
