import CeruleanLedger.BlockExecutor
import CeruleanLedger.CutQueues
import CeruleanLedger.GatewaySubmit

/-!
`commit_block_parallel` of `gateway/mod.rs` with the solo ordering service. The
transactions that are executed are the arguments of the call; the block is cut
from the shared queue after they were appended to it. The two agree exactly when
the queue was empty and the batch limit admits all of them.
-/

namespace CeruleanLedger.ParallelCommit

open ByteCodec BlockStore OrderingLayer VersionedState Mvcc BlockExecutor CutQueues GatewaySubmit

section Model

structure BatchTxResult where
  blockHeight : UInt64
  committedCount : Nat
  conflictCount : Nat
  waveCount : Nat
  parallelismRatio : Float
  outcomes : List (String × TxOutcome)

/-- What the call sees of its surroundings: the clock at the cut, and the faults
of the height read and of the block write. -/
structure Surroundings where
  now : UInt64
  heightFault : Option String
  writeFault : Option String

structure Committed where
  shared : Shared
  events : List BlockEvent
  result : Except GatewayError BatchTxResult

def refusedBy (shared : Shared) (reason : GatewayError) : Committed := ⟨shared, [], .error reason⟩

def commitEvents (channelId : String) (height : UInt64) (txCount : Nat)
    (outcomes : List (String × TxOutcome)) : List BlockEvent :=
  .blockCommitted channelId height txCount :: outcomes.map fun (txId, outcome) =>
    .transactionCommitted channelId txId height (outcome == .committed)

def submitAll (ordering : OrderingService) (endorsedTxs : List EndorsedTransaction) :
    OrderingService :=
  endorsedTxs.foldl (fun ordering endorsed => ordering.submitTx endorsed.tx) ordering

variable (crypto : Crypto) (clock : Clock) (eventBus : Bool)

/-- Steps 4 and 5, on the block that is stored; `none` is a panic of the executor. -/
def executeStored (state : WorldState) (shared : Shared) (channelId : String)
    (endorsedTxs : List EndorsedTransaction) (blockHeight : UInt64) : Option Committed := do
  let (executed, after) ← executeBlockParallel clock endorsedTxs state
  return {
    shared := { shared with world := some after }
    events := if eventBus then
      commitEvents channelId blockHeight endorsedTxs.length executed.outcomes else []
    result := .ok {
      blockHeight
      committedCount := executed.committedCount
      conflictCount := executed.conflictCount
      waveCount := executed.schedule.waveCount
      parallelismRatio := executed.schedule.parallelismRatio
      outcomes := executed.outcomes } }

def commitBlockParallel (around : Surroundings) (shared : Shared) (channelId : String)
    (endorsedTxs : List EndorsedTransaction) : Option Committed :=
  match shared.world with
  | none => some (refusedBy shared (.ordering "world_state required for parallel commit"))
  | some state =>
    let submitted := submitAll shared.ordering endorsedTxs
    let nextHeight := latestHeightOr around.heightFault shared.store + 1
    match submitted.cutBlock crypto around.now nextHeight "gateway" with
    | (ordering, none) =>
      some (refusedBy { shared with ordering } (.ordering "cut_block returned no block"))
    | (ordering, some block) =>
      match shared.store.writeBlock around.writeFault block with
      | .error reason => some (refusedBy { shared with ordering } (.storage reason.display))
      | .ok store =>
        executeStored clock eventBus state { shared with ordering, store } channelId endorsedTxs
          block.height

end Model

section Outcome

variable {crypto : Crypto} {clock : Clock} {eventBus : Bool} {around : Surroundings}
  {shared : Shared} {channelId : String} {endorsedTxs : List EndorsedTransaction}

theorem submit_all_eq (ordering : OrderingService) (endorsedTxs : List EndorsedTransaction) :
    submitAll ordering endorsedTxs = { ordering with
      pendingTxs := ordering.pendingTxs ++ endorsedTxs.map EndorsedTransaction.tx } := by
  induction endorsedTxs generalizing ordering with
  | nil => simp [submitAll]
  | cons endorsed rest ih =>
    have later := ih (ordering.submitTx endorsed.tx)
    simpa [submitAll, OrderingService.submitTx] using later

def queued (shared : Shared) (endorsedTxs : List EndorsedTransaction) : List Transaction :=
  shared.ordering.pendingTxs ++ endorsedTxs.map EndorsedTransaction.tx

theorem commit_ok {committed : Committed} {result : BatchTxResult}
    (ran : commitBlockParallel crypto clock eventBus around shared channelId endorsedTxs =
      some committed) (accepted : committed.result = .ok result) :
    (∃ block, committed.shared.store.blocks[result.blockHeight]? = some block ∧
      block.transactions = ((queued shared endorsedTxs).take shared.ordering.maxBatchSize).map
        Transaction.id) ∧
    committed.shared.ordering.pendingTxs =
      (queued shared endorsedTxs).drop shared.ordering.maxBatchSize := by
  unfold commitBlockParallel at ran
  split at ran
  · cases ran
    cases accepted
  · dsimp only at ran
    split at ran
    · cases ran
      cases accepted
    · next ordering block cut =>
      split at ran
      · cases ran
        cases accepted
      · next store written =>
        rw [executeStored, execute_block_parallel_eq] at ran
        cases ran
        cases accepted
        obtain ⟨listed, rest, _⟩ := OrderingService.cut_block_some crypto cut
        rw [submit_all_eq] at listed rest
        refine ⟨⟨block, ?_, listed⟩, rest⟩
        rw [(Store.write_block_ok written).1, Std.ExtTreeMap.getElem?_insert_self]

end Outcome

section Runs

variable (crypto : Crypto) (clock : Clock) (eventBus : Bool)

/-- A call, with the queue and the store as others left them. -/
structure Batch where
  around : Surroundings
  ordering : OrderingService
  store : Store
  channelId : String
  endorsedTxs : List EndorsedTransaction

def Batch.commit (batch : Batch) (world : Option WorldState) : Option Committed :=
  commitBlockParallel crypto clock eventBus batch.around ⟨world, batch.ordering, batch.store⟩
    batch.channelId batch.endorsedTxs

/-- The executor never panics, so the call returns; it leaves what the serial loop leaves. -/
theorem commit_returns (batch : Batch) (state : WorldState) :
    ∃ committed, batch.commit crypto clock eventBus (some state) = some committed ∧
      committed.shared.world = some (commitBlock clock
        (if committed.result.isOk then batch.endorsedTxs else []) state).2 := by
  unfold Batch.commit commitBlockParallel
  dsimp only
  split
  · exact ⟨_, rfl, rfl⟩
  · split
    · exact ⟨_, rfl, rfl⟩
    · rw [executeStored, execute_block_parallel_eq]
      exact ⟨_, rfl, congrArg some (commit_block_eq clock batch.endorsedTxs state).1.symm⟩

theorem commit_block_append (first rest : List EndorsedTransaction) (state : WorldState) :
    (commitBlock clock (first ++ rest) state).2 =
      (commitBlock clock rest (commitBlock clock first state).2).2 := by
  induction first generalizing state with
  | nil => rfl
  | cons endorsed first ih =>
    rw [List.cons_append, commitBlock, commitBlock]
    cases validateRwset endorsed.rwset state <;> exact ih _

/-- The world state after all calls, and the transactions of those that succeeded. -/
def commitAll : List Batch → Option WorldState →
    Option (Option WorldState × List EndorsedTransaction)
  | [], world => some (world, [])
  | batch :: rest, world => do
    let committed ← batch.commit crypto clock eventBus world
    let (after, later) ← commitAll rest committed.shared.world
    return (after, (if committed.result.isOk then batch.endorsedTxs else []) ++ later)

/-- Any number of calls is one serial pass over the transactions of those that succeeded. -/
theorem batches_replay_serially (batches : List Batch) (world : WorldState) :
    ∃ done, commitAll crypto clock eventBus batches (some world) =
      some (some (commitBlock clock done world).2, done) := by
  induction batches generalizing world with
  | nil => exact ⟨[], rfl⟩
  | cons batch rest ih =>
    obtain ⟨committed, returned, after⟩ := commit_returns crypto clock eventBus batch world
    generalize own : (if committed.result.isOk then batch.endorsedTxs else []) = txs at after
    obtain ⟨later, ran⟩ := ih (commitBlock clock txs world).2
    exact ⟨txs ++ later, by simp [commitAll, returned, after, ran, own, commit_block_append]⟩

end Runs

/-- The stored block lists the executed transactions in order, and none of them
is left in the queue. -/
def ExecutesWhatItOrders (endorsedTxs : List EndorsedTransaction) (committed : Committed)
    (result : BatchTxResult) : Prop :=
  (∃ block, committed.shared.store.blocks[result.blockHeight]? = some block ∧
    block.transactions = endorsedTxs.map fun endorsed => endorsed.tx.id) ∧
  ∀ endorsed ∈ endorsedTxs,
    endorsed.tx.id ∉ committed.shared.ordering.pendingTxs.map Transaction.id

/-- An accepted call executes what it orders exactly when the queue was empty and
the batch limit admits all transactions, or nothing is executed and the limit is
zero. -/
theorem executes_what_it_orders_iff (crypto : Crypto) (clock : Clock) (eventBus : Bool)
    (around : Surroundings) (shared : Shared) (channelId : String)
    (endorsedTxs : List EndorsedTransaction) (committed : Committed) (result : BatchTxResult)
    (ran : commitBlockParallel crypto clock eventBus around shared channelId endorsedTxs =
      some committed) (accepted : committed.result = .ok result) :
    ExecutesWhatItOrders endorsedTxs committed result ↔
      (shared.ordering.pendingTxs = [] ∧ endorsedTxs.length ≤ shared.ordering.maxBatchSize) ∨
        (endorsedTxs = [] ∧ shared.ordering.maxBatchSize = 0) := by
  obtain ⟨⟨block, stored, listed⟩, rest⟩ := commit_ok ran accepted
  have cut := cut_added_iff Transaction.id shared.ordering.pendingTxs
    (endorsedTxs.map EndorsedTransaction.tx) shared.ordering.maxBatchSize
  rw [List.length_map, List.map_eq_nil_iff] at cut
  rw [← cut, ExecutesWhatItOrders, stored, rest]
  simp only [Option.some.injEq, exists_eq_left', listed, queued, List.forall_mem_map,
    List.map_map, Function.comp_def]

def endorsedTx (id : String) : EndorsedTransaction := ⟨sampleTx id, ⟨[], []⟩⟩

def commitOn (backlog : List String) (limit : Nat) (ids : List String) : Option Committed :=
  commitBlockParallel paddingCrypto (fun _ _ => 0) false ⟨0, none, none⟩
    ⟨some .new, ⟨backlog.map sampleTx, limit, none, none⟩, .memory .new⟩ "channel"
    (ids.map endorsedTx)

def listing (committed : Committed) : Option (UInt64 × Option (List String)) × List String :=
  (committed.result.toOption.map fun result =>
      (result.blockHeight, (committed.shared.store.blocks[result.blockHeight]?).map
        Block.transactions),
    committed.shared.ordering.pendingTxs.map Transaction.id)

theorem empty_queue_commits :
    ∃ committed result, commitOn [] 2 ["tx1", "tx2"] = some committed ∧
      committed.result = .ok result ∧
      ExecutesWhatItOrders (["tx1", "tx2"].map endorsedTx) committed result :=
  ⟨_, _, rfl, rfl, (executes_what_it_orders_iff paddingCrypto (fun _ _ => 0) false ⟨0, none, none⟩
    ⟨some .new, ⟨[], 2, none, none⟩, .memory .new⟩ "channel" (["tx1", "tx2"].map endorsedTx)
    _ _ rfl rfl).mpr (Or.inl ⟨rfl, by decide⟩)⟩

/-- A transaction that waited is in the block and was not executed; one beyond
the limit was executed and is still in the queue. -/
theorem executed_and_ordered_differ :
    (commitOn ["tx0"] 100 ["tx1"]).map listing = some (some (1, some ["tx0", "tx1"]), []) ∧
    (commitOn [] 1 ["tx1", "tx2"]).map listing = some (some (1, some ["tx1"]), ["tx2"]) :=
  ⟨rfl, rfl⟩

end CeruleanLedger.ParallelCommit
