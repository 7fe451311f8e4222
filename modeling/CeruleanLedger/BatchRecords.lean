import CeruleanLedger.SubmitPlacement
import CeruleanLedger.SubmitSerializability

/-!
The records and the events of `Gateway::submit`. The client that cuts a block writes one record
and publishes one `TransactionCommitted` for every id in it, with the fields and the verdict
that it holds itself. The events of one client are taken as published together with its return.
-/

namespace CeruleanLedger.BatchRecords

open BlockStore GatewaySubmit GuardedRun Mvcc OrderingLayer
open SubmitPlacement hiding twoRequests

section Model

/-- Step 4 of `submit`: every id of the block with the client's own verdict. -/
def commitEvents (channelId : String) (block : Block) (valid : Bool) : List BlockEvent :=
  .blockCommitted channelId block.height block.transactions.length ::
    block.transactions.map fun id => .transactionCommitted channelId id block.height valid

def returning : Stage → Option Block
  | .indexing _ block [] => some block
  | .applying block [] => some block
  | _ => none

def published (channelId : String) (stage next : Stage) : List BlockEvent :=
  match returning stage, next with
  | some block, .finished (.ok result) => commitEvents channelId block result.valid
  | _, _ => []

variable {count : Nat}

structure Announced (count : Nat) where
  system : System count
  events : List BlockEvent

def stepAnnounced (node : Node) (requests : Fin count → Request) (channels : Fin count → String)
    (state : Announced count) (input : Fin count × Moment) : Announced count :=
  let next := stepClient node requests state.system input
  ⟨next, state.events ++
    published (channels input.1) (state.system.stages input.1) (next.stages input.1)⟩

def runAnnounced (node : Node) (requests : Fin count → Request) (channels : Fin count → String)
    (shared : Shared) (inputs : List (Fin count × Moment)) : Announced count :=
  inputs.foldl (stepAnnounced node requests channels) ⟨startOf count shared, []⟩

end Model

section Property

variable (requests : Fin count → Request)

def Carries (tx record : Transaction) : Prop :=
  record.inputDid = tx.inputDid ∧ record.outputRecipient = tx.outputRecipient ∧
    record.amount = tx.amount

def Recorded (tx : Transaction) (store : Store) : Prop :=
  ∃ record, store.readTransaction tx.id = some record ∧ Carries tx record

def Committed (before after : Store) (id : String) : Prop :=
  ∃ (height : UInt64) (block : Block), after.blocks[height]? = some block ∧
    before.blocks[height]? ≠ some block ∧ id ∈ block.transactions

/-- Every transaction of the backlog and of the clients that was committed has
the record of what was submitted. -/
def RecordsKept (shared : Shared) (final : Store) : Prop :=
  ∀ tx, (tx ∈ shared.ordering.pendingTxs ∨ ∃ client, tx = (requests client).tx) →
    Committed shared.store final tx.id → Recorded tx final

/-- Every event announces the verdict that the transaction's own client reached. -/
def VerdictsOwn (state : Announced count) : Prop :=
  ∀ channelId txId height valid,
    BlockEvent.transactionCommitted channelId txId height valid ∈ state.events →
      ∃ client result, idOf requests client = txId ∧
        state.system.stages client = .finished (.ok result) ∧ result.valid = valid

/-- Every client has an id of its own, and none is in the backlog. -/
def UniqueIds (backlog : List Transaction) : Prop :=
  Function.Injective (idOf requests) ∧ ∀ tx ∈ backlog, ∀ client, tx.id ≠ idOf requests client

def aboutToIndex : Stage → Bool
  | .indexing _ _ (_ :: _) => true
  | _ => false

/-- A client that cuts takes its own transaction and nothing else, and the write
of a record does not fail. -/
def CutsAlone (state : Announced count) (input : Fin count × Moment) : Prop :=
  (aboutToCut (state.system.stages input.1) = true →
    batchIds state.system = [idOf requests input.1]) ∧
  (aboutToIndex (state.system.stages input.1) = true →
    overwrites state.system.shared.store = true → input.2.fault = none)
  deriving Decidable

end Property

section Records

def Kept (tx : Transaction) (store : Store) : Stage → Prop
  | .cut _ block => block.transactions = [tx.id]
  | .indexing _ block rest => block.transactions = [tx.id] ∧
      (rest = [tx.id] ∨ rest = [] ∧ Recorded tx store)
  | .applying block _ => block.transactions = [tx.id] ∧ Recorded tx store
  | .finished (.ok _) => Recorded tx store
  | _ => True

theorem index_reads_other (fault : Option String) (tx : Transaction) (store : Store) {id : String}
    (apart : tx.id ≠ id) :
    (indexTransaction fault tx store).readTransaction id = store.readTransaction id := by
  cases store with
  | memory inner =>
    simp only [indexTransaction, Store.writeTransaction, Store.readTransaction,
      OrderedMap.get_insert, if_neg apart]
  | rocksDb inner =>
    simp only [indexTransaction]
    split
    · rfl
    · simp only [Store.writeTransaction, Store.readTransaction, OrderedMap.get_insert,
        if_neg apart]

theorem index_reads_own {fault : Option String} (tx : Transaction) {store : Store}
    (works : overwrites store = true → fault = none) :
    (indexTransaction fault tx store).readTransaction tx.id = some tx := by
  cases store with
  | memory inner =>
    simp only [indexTransaction, Store.writeTransaction, Store.readTransaction,
      OrderedMap.get_insert, if_true]
  | rocksDb inner =>
    rw [works rfl]
    simp only [indexTransaction, Option.isSome_none, Bool.false_eq_true, if_false,
      Store.writeTransaction, Store.readTransaction, OrderedMap.get_insert, if_true]

theorem indexed_carries (tx : Transaction) (block : Block) :
    (indexedTx tx block tx.id).id = tx.id ∧ Carries tx (indexedTx tx block tx.id) := by
  unfold indexedTx
  rw [if_pos rfl]
  exact ⟨rfl, rfl, rfl, rfl⟩

theorem kept_congr {tx : Transaction} {before after : Store}
    (same : after.readTransaction tx.id = before.readTransaction tx.id) (stage : Stage)
    (kept : Kept tx before stage) : Kept tx after stage := by
  have recorded : Recorded tx before → Recorded tx after := by
    rintro ⟨record, found, carries⟩
    exact ⟨record, same.trans found, carries⟩
  cases stage with
  | cut rwset block => exact kept
  | indexing rwset block rest => exact ⟨kept.1, kept.2.imp id (And.imp id recorded)⟩
  | applying block rest => exact ⟨kept.1, recorded kept.2⟩
  | finished result =>
    cases result with
    | ok result => exact recorded kept
    | error reason => trivial
  | _ => trivial

variable {node : Node} {request : Request} {moment : Moment} {shared : Shared} {stage : Stage}
  {moved : Stage × Shared}

theorem kept_own (transition : Transition node request moment shared stage moved)
    (alone : aboutToCut stage = true →
      shared.ordering.batch.map Transaction.id = [request.tx.id])
    (works : aboutToIndex stage = true → overwrites shared.store = true → moment.fault = none)
    (kept : Kept request.tx shared.store stage) : Kept request.tx moved.2.store moved.1 := by
  cases transition with
  | blockCut rwset height ordering block cut =>
    exact (OrderingService.cut_block_some _ cut).1.trans (alone rfl)
  | blockWritten rwset block store written => exact ⟨kept, Or.inl kept⟩
  | indexed rwset block id rest =>
    obtain ⟨own, pending | ⟨impossible, -⟩⟩ := kept
    · obtain ⟨rfl, rfl⟩ := List.cons.inj pending
      obtain ⟨named, carries⟩ := indexed_carries request.tx block
      have read := index_reads_own (indexedTx request.tx block request.tx.id) (works rfl)
      rw [named] at read
      exact ⟨own, Or.inr ⟨rfl, _, read, carries⟩⟩
    · cases impossible
  | unchecked rwset block absent =>
    obtain ⟨-, impossible | ⟨-, recorded⟩⟩ := kept
    · cases impossible
    · exact recorded
  | validated rwset block state present valid =>
    obtain ⟨own, impossible | ⟨-, recorded⟩⟩ := kept
    · cases impossible
    · exact ⟨own, recorded⟩
  | conflicted rwset block state conflict present invalid =>
    obtain ⟨-, impossible | ⟨-, recorded⟩⟩ := kept
    · cases impossible
    · exact recorded
  | put block write rest => exact kept
  | applied block => exact kept.2
  | rested result => exact kept
  | _ => trivial

/-- A client whose block holds its own id leaves all other records alone. -/
theorem reads_other (transition : Transition node request moment shared stage moved)
    (kept : Kept request.tx shared.store stage) {id : String} (apart : request.tx.id ≠ id) :
    moved.2.store.readTransaction id = shared.store.readTransaction id := by
  cases transition with
  | indexed rwset block written rest =>
    obtain ⟨-, pending | ⟨impossible, -⟩⟩ := kept
    · obtain ⟨rfl, -⟩ := List.cons.inj pending
      apply index_reads_other
      rw [(indexed_carries request.tx block).1]
      exact apart
    · cases impossible
  | blockWritten rwset block store written => exact Store.write_block_reads written id
  | _ => rfl

theorem blocks_own (transition : Transition node request moment shared stage moved)
    (kept : Kept request.tx shared.store stage) {height : UInt64} {block : Block}
    (present : moved.2.store.blocks[height]? = some block) :
    shared.store.blocks[height]? = some block ∨ block.transactions = [request.tx.id] := by
  cases transition with
  | indexed rwset cut id rest =>
    rw [index_transaction_blocks] at present
    exact Or.inl present
  | blockWritten rwset cut store written =>
    simp only [(Store.write_block_ok written).1, OrderedMap.get_insert] at present
    split at present
    · cases present
      exact Or.inr kept
    · exact Or.inl present
  | _ => exact Or.inl present

theorem returning_own {tx : Transaction} {store : Store} {block : Block}
    (kept : Kept tx store stage) (returns : returning stage = some block) :
    block.transactions = [tx.id] := by
  cases stage with
  | indexing rwset cut rest =>
    cases rest with
    | nil =>
      cases returns
      exact kept.1
    | cons id rest => cases returns
  | applying cut rest =>
    cases rest with
    | nil =>
      cases returns
      exact kept.1
    | cons write rest => cases returns
  | _ => cases returns

theorem published_own {tx : Transaction} {store : Store} {channelId channel txId : String}
    {next : Stage} {height : UInt64} {valid : Bool} (kept : Kept tx store stage)
    (announced : BlockEvent.transactionCommitted channel txId height valid ∈
      published channelId stage next) :
    tx.id = txId ∧ ∃ result, next = .finished (.ok result) ∧ result.valid = valid := by
  unfold published at announced
  split at announced
  · next block result returns =>
    simp only [commitEvents, returning_own kept returns, List.map_cons, List.map_nil,
      List.mem_cons, List.not_mem_nil, or_false, reduceCtorEq, false_or,
      BlockEvent.transactionCommitted.injEq] at announced
    obtain ⟨-, rfl, -, rfl⟩ := announced
    exact ⟨rfl, result, rfl, rfl⟩
  · cases announced

end Records

variable (node : Node) (requests : Fin count → Request) (channels : Fin count → String)

/-- Every client has its own block and record, every block that is new is some
client's own, and the events are right so far. -/
structure Orderly (before : Store) (state : Announced count) : Prop where
  kept : ∀ client,
    Kept (requests client).tx state.system.shared.store (state.system.stages client)
  blocks : ∀ (height : UInt64) (block : Block),
    state.system.shared.store.blocks[height]? = some block →
      before.blocks[height]? = some block ∨
        ∃ client, block.transactions = [idOf requests client]
  events : VerdictsOwn requests state

variable {node requests channels}

theorem step_orderly {before : Store} {state : Announced count} {input : Fin count × Moment}
    (distinct : Function.Injective (idOf requests)) (orderly : Orderly requests before state)
    (alone : CutsAlone requests state input) :
    Orderly requests before (stepAnnounced node requests channels state input) := by
  have transition := advance_transition node (requests input.1) input.2 state.system.shared
    (state.system.stages input.1)
  have mine := orderly.kept input.1
  have self : (stepClient node requests state.system input).stages input.1 =
    (advance node (requests input.1) input.2 state.system.shared
      (state.system.stages input.1)).1 := Function.update_self ..
  have others : ∀ client, client ≠ input.1 →
      (stepClient node requests state.system input).stages client = state.system.stages client :=
    fun client apart => Function.update_of_ne apart ..
  constructor
  · intro client
    change Kept _ _ ((stepClient node requests state.system input).stages client)
    by_cases same : client = input.1
    · rw [same, self]
      exact kept_own transition alone.1 alone.2 mine
    · rw [others client same]
      refine kept_congr ?_ _ (orderly.kept client)
      exact reads_other transition mine fun equal => same (distinct equal).symm
  · intro height block present
    rcases blocks_own transition mine present with old | own
    · exact orderly.blocks height block old
    · exact Or.inr ⟨input.1, own⟩
  · intro channel txId height valid announced
    rcases List.mem_append.mp announced with earlier | new
    · obtain ⟨client, result, named, finished, verdict⟩ :=
        orderly.events channel txId height valid earlier
      refine ⟨client, result, named, ?_, verdict⟩
      change (stepClient node requests state.system input).stages client = _
      by_cases same : client = input.1
      · subst same
        rw [self, finished]
        rfl
      · rw [others client same]
        exact finished
    · obtain ⟨named, result, returned, verdict⟩ := published_own mine new
      exact ⟨input.1, result, named, returned, verdict⟩

theorem start_orderly (requests : Fin count → Request) (shared : Shared) :
    Orderly requests shared.store ⟨startOf count shared, []⟩ := by
  constructor
  · intro client
    trivial
  · intro height block present
    exact Or.inl present
  · intro channel txId height valid announced
    cases announced

/-- In every run whose steps meet `CutsAlone`, once all clients have returned,
every committed transaction has its own record and every event its own verdict. -/
theorem batch_records_kept (node : Node) (requests : Fin count → Request)
    (channels : Fin count → String) (shared : Shared) (inputs : List (Fin count × Moment))
    (unique : UniqueIds requests shared.ordering.pendingTxs)
    (alone : AllMeet (stepAnnounced node requests channels) (CutsAlone requests)
      ⟨startOf count shared, []⟩ inputs)
    (returned : ∀ client, ∃ result,
      (runAnnounced node requests channels shared inputs).system.stages client =
        .finished (.ok result)) :
    RecordsKept requests shared
        (runAnnounced node requests channels shared inputs).system.shared.store ∧
      VerdictsOwn requests (runAnnounced node requests channels shared inputs) := by
  have orderly : Orderly requests shared.store
      (runAnnounced node requests channels shared inputs) :=
    run_invariant_plain (Orderly requests shared.store) _ inputs (start_orderly requests shared)
      (fun _ _ => step_orderly unique.1) alone
  refine ⟨?_, orderly.events⟩
  rintro tx submitted ⟨height, block, present, new, member⟩
  rcases orderly.blocks height block present with old | ⟨client, own⟩
  · exact absurd old new
  · rw [own, List.mem_singleton] at member
    -- The id belongs to this client alone.
    have same : tx = (requests client).tx := by
      rcases submitted with waiting | ⟨other, rfl⟩
      · exact absurd member (unique.2 tx waiting client)
      · rw [unique.1 member]
    subst same
    obtain ⟨result, finished⟩ := returned client
    have kept := orderly.kept client
    rw [finished] at kept
    exact kept

open SubmitSerializability (counterNode counterShared twoRequests)

def aloneTurns (first second : Fin count) : List (Fin count × Moment) :=
  turns ([first, second] ++ List.replicate 4 first ++ List.replicate 4 second ++
    [first, second, first, second, first, second, first, second])

theorem own_cuts_keep_records :
    RecordsKept twoRequests counterShared (runAnnounced counterNode twoRequests (fun _ => "main")
        counterShared (aloneTurns 0 1)).system.shared.store ∧
      VerdictsOwn twoRequests
        (runAnnounced counterNode twoRequests (fun _ => "main") counterShared (aloneTurns 0 1)) := by
  apply batch_records_kept counterNode twoRequests (fun _ => "main") counterShared (aloneTurns 0 1)
  · exact ⟨by decide, fun tx waiting => absurd waiting List.not_mem_nil⟩
  · decide +kernel
  · intro client
    fin_cases client
    · exact ⟨⟨"a", 1, true⟩, by decide +kernel⟩
    · exact ⟨⟨"b", 2, true⟩, by decide +kernel⟩

/-- Both endorse and enqueue, the second one first; then the first cuts the block
of the second and the second that of the first, and puts before the first
validates. -/
def crossedTurns (first second : Fin count) : List (Fin count × Moment) :=
  turns ([first, second, second, first] ++ List.replicate 4 first ++ List.replicate 7 second ++
    [first])

/-- Both clients return. Both records are blank, and each transaction is announced
with the verdict of the other. -/
theorem crossed_cuts_lose_records :
    let final := runAnnounced counterNode twoRequests (fun _ => "main") counterShared
      (crossedTurns 0 1)
    final.system.stages 0 = .finished (.ok ⟨"a", 1, false⟩) ∧
      final.system.stages 1 = .finished (.ok ⟨"b", 2, true⟩) ∧
      final.events = [.blockCommitted "main" 2 1, .transactionCommitted "main" "a" 2 true,
        .blockCommitted "main" 1 1, .transactionCommitted "main" "b" 1 false] ∧
      ((twoRequests 0).tx.inputDid, (twoRequests 0).tx.amount) = ("did:bc:alice", 1) ∧
      (final.system.shared.store.readTransaction "a").map
        (fun record => (record.inputDid, record.outputRecipient, record.amount)) =
          some ("", "", 0) ∧
      ¬ RecordsKept twoRequests counterShared final.system.shared.store ∧
      ¬ VerdictsOwn twoRequests final := by
  intro final
  have second : final.system.stages 1 = .finished (.ok ⟨"b", 2, true⟩) := by decide +kernel
  have blank : (final.system.shared.store.readTransaction "a").map Transaction.inputDid =
    some "" := by decide +kernel
  refine ⟨by decide +kernel, second, by decide +kernel, by decide +kernel, by decide +kernel, ?_, ?_⟩
  · intro kept
    have stored : holdsTx final.system.shared.store 2 "a" = true := by decide +kernel
    obtain ⟨block, present, member⟩ := (holds_tx_iff _ _ _).mp stored
    have unused : counterShared.store.blocks[(2 : UInt64)]? = none := by decide +kernel
    have new : counterShared.store.blocks[(2 : UInt64)]? ≠ some block := by
      rw [unused]
      exact Option.some_ne_none block ∘ Eq.symm
    obtain ⟨record, found, carries⟩ := kept (twoRequests 0).tx (Or.inr ⟨0, rfl⟩)
      ⟨2, block, present, new, member⟩
    have read : final.system.shared.store.readTransaction "a" = some record := found
    rw [read, Option.map_some, carries.1] at blank
    exact absurd blank (by decide)
  · intro own
    obtain ⟨client, result, named, finished, verdict⟩ := own "main" "b" 1 false (by decide +kernel)
    have only : ∀ client, idOf twoRequests client = "b" → client = 1 := by decide
    rw [only client named, second] at finished
    cases finished
    cases verdict

end CeruleanLedger.BatchRecords
