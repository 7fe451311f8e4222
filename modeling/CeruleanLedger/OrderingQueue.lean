import CeruleanLedger.CutQueues
import CeruleanLedger.GatewaySubmit

/-!
The solo ordering queue with all that cut it: any number of clients inside `Gateway::submit` and
the loop `run_batch_loop` of `ordering/service.rs`, which counts heights of its own. The history
beside the state is read by no step.
-/

namespace CeruleanLedger.OrderingQueue

open ByteCodec BlockStore OrderingLayer GatewaySubmit CutQueues

section Model

/-- Where `run_batch_loop` is; the height is its local counter. -/
inductive LoopStage where
  | starting
  | waiting (height : UInt64)
  | holding (height : UInt64) (block : Block)

def advanceLoop (crypto : Crypto) (moment : Moment) (shared : Shared) :
    LoopStage → LoopStage × Shared
  | .starting => (.waiting (latestHeightOr moment.fault shared.store + 1), shared)
  | .waiting height =>
    match shared.ordering.cutBlock crypto moment.now height "orderer" with
    | (ordering, none) => (.waiting height, { shared with ordering })
    | (ordering, some block) => (.holding (height + 1) block, { shared with ordering })
  -- A failed write is printed and forgotten.
  | .holding height block =>
    match shared.store.writeBlock moment.fault block with
    | .error _ => (.waiting height, shared)
    | .ok store => (.waiting height, { shared with store })

abbrev History := Journal String Block

def noteCut (history : History) : Option Block → History
  | none => history
  | some block => history.cut block

def noteWrite (history : History) (block : Block) : Except StorageError Store → History
  | .ok _ => history.write block
  | .error _ => history.fail block

def noteClient (node : Node) (request : Request) (moment : Moment) (shared : Shared)
    (history : History) : Stage → History
  | .endorsed _ => history.submit request.tx.id
  | .atHeight _ height =>
    noteCut history (shared.ordering.cutBlock node.crypto moment.now height "gateway").2
  | .cut _ block => noteWrite history block (shared.store.writeBlock moment.fault block)
  | _ => history

def noteLoop (crypto : Crypto) (moment : Moment) (shared : Shared) (history : History) :
    LoopStage → History
  | .starting => history
  | .waiting height =>
    noteCut history (shared.ordering.cutBlock crypto moment.now height "orderer").2
  | .holding _ block => noteWrite history block (shared.store.writeBlock moment.fault block)

structure Cutters (count : Nat) where
  stages : Fin count → Stage
  loop : LoopStage
  shared : Shared
  history : History

def Cutters.start (count : Nat) (shared : Shared) : Cutters count :=
  ⟨fun _ => .start, .starting, shared, .start⟩

inductive Turn (count : Nat) where
  | submit (tx : Transaction)
  | client (index : Fin count) (moment : Moment)
  | loop (moment : Moment)

variable {count : Nat}

variable (node : Node) (requests : Fin count → Request)

def takeTurn (cutters : Cutters count) : Turn count → Cutters count
  | .submit tx =>
    { cutters with
      shared := { cutters.shared with ordering := cutters.shared.ordering.submitTx tx }
      history := cutters.history.submit tx.id }
  | .client index moment =>
    let stage := cutters.stages index
    let moved := advance node (requests index) moment cutters.shared stage
    { cutters with
      stages := Function.update cutters.stages index moved.1
      shared := moved.2
      history := noteClient node (requests index) moment cutters.shared cutters.history stage }
  | .loop moment =>
    let moved := advanceLoop node.crypto moment cutters.shared cutters.loop
    { cutters with
      loop := moved.1
      shared := moved.2
      history := noteLoop node.crypto moment cutters.shared cutters.history cutters.loop }

def takeTurns (cutters : Cutters count) (turns : List (Turn count)) : Cutters count :=
  turns.foldl (takeTurn node requests) cutters

def heldBy : Stage → Multiset Block
  | .cut _ block => {block}
  | _ => 0

def heldByLoop : LoopStage → Multiset Block
  | .holding _ block => {block}
  | _ => 0

def Cutters.held (cutters : Cutters count) : Multiset Block :=
  heldByLoop cutters.loop + ∑ index, heldBy (cutters.stages index)

end Model

section Tracking

variable {history : History} {shared : Shared} {held : Multiset Block}

structure Tracks (history : History) (shared : Shared) (held : Multiset Block) : Prop where
  accounted : Accounted Block.transactions history
    (shared.ordering.pendingTxs.map Transaction.id) held
  stored : shared.store.blocks = placedAt compare Block.height history.written
  limit : 1 ≤ shared.ordering.maxBatchSize

theorem Tracks.submit (tracks : Tracks history shared held) (tx : Transaction) :
    Tracks (history.submit tx.id) { shared with ordering := shared.ordering.submitTx tx } held := by
  refine ⟨?_, tracks.stored, tracks.limit⟩
  have longer := tracks.accounted.submit tx.id
  simpa [OrderingService.submitTx] using longer

theorem Tracks.noteCut (tracks : Tracks history shared held) {crypto : Crypto}
    {now height : UInt64} {proposer : String} {ordering : OrderingService} {outcome : Option Block}
    (cut : shared.ordering.cutBlock crypto now height proposer = (ordering, outcome)) :
    Tracks (noteCut history outcome) { shared with ordering }
      (outcome.elim held (· ::ₘ held)) := by
  cases outcome with
  | none =>
    have same : ordering = shared.ordering := by
      unfold OrderingService.cutBlock at cut
      split at cut
      · exact (Prod.mk.inj cut).1.symm
      · cases cut
    subst same
    exact tracks
  | some block =>
    obtain ⟨listed, rest, limit⟩ := OrderingService.cut_block_some crypto cut
    have line : shared.ordering.pendingTxs.map Transaction.id =
        block.transactions ++ ordering.pendingTxs.map Transaction.id := by
      rw [listed, rest, OrderingService.batch, ← List.map_append, List.take_append_drop]
    have nonempty : block.transactions ≠ [] := by
      have positive := tracks.limit
      have waiting : shared.ordering.pendingTxs ≠ [] := by
        intro empty
        unfold OrderingService.cutBlock at cut
        rw [empty] at cut
        cases cut
      have length := List.length_pos_iff.mpr waiting
      rw [listed, OrderingService.batch, ← List.length_pos_iff, List.length_map, List.length_take]
      omega
    have accounted := tracks.accounted
    rw [line] at accounted
    exact ⟨accounted.cut nonempty, tracks.stored, limit ▸ tracks.limit⟩

theorem Tracks.written {block : Block} (tracks : Tracks history shared (block ::ₘ held))
    {fault : Option String} {store : Store}
    (written : shared.store.writeBlock fault block = .ok store) :
    Tracks (history.write block) { shared with store } held := by
  refine ⟨tracks.accounted.write, ?_, tracks.limit⟩
  rw [(Store.write_block_ok written).1, tracks.stored]
  exact (placed_at_append history.written block).symm

theorem Tracks.lost {block : Block} (tracks : Tracks history shared (block ::ₘ held)) :
    Tracks (history.fail block) shared held :=
  ⟨tracks.accounted.fail, tracks.stored, tracks.limit⟩

theorem Tracks.other (tracks : Tracks history shared held) {after : Shared}
    (ordering : after.ordering = shared.ordering)
    (blocks : after.store.blocks = shared.store.blocks) : Tracks history after held :=
  ⟨ordering ▸ tracks.accounted, blocks.trans tracks.stored, ordering ▸ tracks.limit⟩

theorem advance_tracks (node : Node) (request : Request) (moment : Moment) {stage : Stage}
    (tracks : Tracks history shared (heldBy stage + held)) :
    Tracks (noteClient node request moment shared history stage)
      (advance node request moment shared stage).2
      (heldBy (advance node request moment shared stage).1 + held) := by
  have transition := advance_transition node request moment shared stage
  generalize advance node request moment shared stage = moved at transition ⊢
  cases transition with
  | enqueued rwset => exact tracks.submit request.tx
  | nothingCut rwset height ordering cut =>
    have noted := tracks.noteCut cut
    simp only [noteClient, cut]
    exact noted
  | blockCut rwset height ordering block cut =>
    have noted := tracks.noteCut cut
    simp only [noteClient, cut]
    simpa [heldBy] using noted
  | writeFailed rwset block reason failed =>
    have lost : Tracks (history.fail block) shared held := tracks.lost
    simpa [noteClient, failed, noteWrite, heldBy] using lost
  | blockWritten rwset block store written =>
    have kept : Tracks (history.write block) { shared with store } held :=
      tracks.written written
    simpa [noteClient, written, noteWrite, heldBy] using kept
  | indexed rwset block id rest => exact tracks.other rfl (index_transaction_blocks _ _ _)
  | put block write rest => exact tracks.other rfl rfl
  | _ => exact tracks

theorem advance_loop_tracks (crypto : Crypto) (moment : Moment) {stage : LoopStage}
    (tracks : Tracks history shared (heldByLoop stage + held)) :
    Tracks (noteLoop crypto moment shared history stage)
      (advanceLoop crypto moment shared stage).2
      (heldByLoop (advanceLoop crypto moment shared stage).1 + held) := by
  cases stage with
  | starting => exact tracks
  | waiting height =>
    cases cut : shared.ordering.cutBlock crypto moment.now height "orderer" with
    | mk ordering outcome =>
      have noted := tracks.noteCut cut
      simp only [noteLoop, advanceLoop, cut]
      cases outcome with
      | none => exact noted
      | some block => simpa [heldByLoop] using noted
  | holding height block =>
    cases written : shared.store.writeBlock moment.fault block with
    | error reason =>
      have lost : Tracks (history.fail block) shared held := tracks.lost
      simpa [noteLoop, advanceLoop, written, noteWrite, heldByLoop] using lost
    | ok store =>
      have kept : Tracks (history.write block) { shared with store } held :=
        tracks.written written
      simpa [noteLoop, advanceLoop, written, noteWrite, heldByLoop] using kept

variable (node : Node) (requests : Fin count → Request)

theorem take_turn_tracks {cutters : Cutters count} (turn : Turn count)
    (tracks : Tracks cutters.history cutters.shared cutters.held) :
    Tracks (takeTurn node requests cutters turn).history
      (takeTurn node requests cutters turn).shared
      (takeTurn node requests cutters turn).held := by
  cases turn with
  | submit tx => exact tracks.submit tx
  | client index moment =>
    obtain ⟨rest, before, after⟩ := sum_split heldBy cutters.stages index
    rw [Cutters.held, before, add_left_comm] at tracks
    have moved := advance_tracks node (requests index) moment tracks
    simp only [takeTurn, Cutters.held]
    rw [after, add_left_comm]
    exact moved
  | loop moment => exact advance_loop_tracks node.crypto moment tracks

theorem start_tracks {shared : Shared} (idle : shared.ordering.pendingTxs = [])
    (fresh : shared.store.blocks = ∅) (limit : 1 ≤ shared.ordering.maxBatchSize) :
    Tracks (Cutters.start count shared).history (Cutters.start count shared).shared
      (Cutters.start count shared).held := by
  have none : (Cutters.start count shared).held = 0 := by
    simp [Cutters.held, Cutters.start, heldByLoop, heldBy]
  rw [none]
  refine ⟨?_, fresh, limit⟩
  simp only [Cutters.start, idle]
  exact .start

end Tracking

section Order

/-- Every submitted transaction is in the queue or in exactly one stored block,
and the blocks in the order of their heights list a front of the submissions. -/
def FifoExactlyOnce (cutters : Cutters count) : Prop :=
  FifoOnce Block.transactions (inOrder cutters.shared.store.blocks)
    (cutters.shared.ordering.pendingTxs.map Transaction.id) cutters.history.submitted

/-- No write failed, and each cut has a greater height than the cuts before it. -/
def CutsRise (cutters : Cutters count) : Prop :=
  cutters.history.failed = [] ∧ Increasing compare Block.height cutters.history.cuts

instance (cutters : Cutters count) : Decidable (CutsRise cutters) :=
  inferInstanceAs (Decidable (_ ∧ List.Pairwise _ _))

end Order

/-- The queue is kept in order if no block is between its cut and its write, no write
has failed and the heights rise from cut to cut, and for distinct transactions in
no other case. -/
theorem fifo_exactly_once_iff {count : Nat} (node : Node) (requests : Fin count → Request)
    (shared : Shared) (turns : List (Turn count)) (final : Cutters count)
    (idle : shared.ordering.pendingTxs = []) (fresh : shared.store.blocks = ∅)
    (limit : 1 ≤ shared.ordering.maxBatchSize)
    (ran : takeTurns node requests (.start count shared) turns = final) :
    (final.held = 0 ∧ CutsRise final → FifoExactlyOnce final) ∧
      (final.history.submitted.Nodup → FifoExactlyOnce final →
        final.held = 0 ∧ CutsRise final) := by
  have tracks : Tracks final.history final.shared final.held := ran ▸
    List.foldlRecOn turns (takeTurn node requests)
      (motive := fun cutters => Tracks cutters.history cutters.shared cutters.held)
      (start_tracks idle fresh limit) fun _ tracks turn _ => take_turn_tracks node requests turn tracks
  rw [FifoExactlyOnce, tracks.stored]
  refine ⟨?_, increasing_of_fifo_once tracks.accounted⟩
  rintro ⟨landed, kept, rising⟩
  have accounted := tracks.accounted
  rw [landed] at accounted
  exact fifo_once_of_increasing accounted kept rising

def emptyShared (store : Store) : Shared := ⟨none, ⟨[], 2, none, none⟩, store⟩

def plainNode : Node := ⟨paddingCrypto, fun _ _ => 0, none⟩

def plainMoment : Moment := ⟨0, none, .asStored⟩

/-- The loop reads its height, a client stores its block there, and the loop cuts
the next transaction at the same height. -/
def sameHeightTurns (client : Fin count) : List (Turn count) :=
  .loop plainMoment :: List.replicate 5 (.client client plainMoment) ++
    [.submit (sampleTx "tx2"), .loop plainMoment, .loop plainMoment]

def loopTurns : List (Turn count) :=
  [.loop plainMoment, .submit (sampleTx "tx1"), .submit (sampleTx "tx2"),
    .submit (sampleTx "tx3"), .loop plainMoment, .loop plainMoment, .loop plainMoment,
    .submit (sampleTx "tx4"), .loop plainMoment]

def runSample (store : Store) (turns : List (Turn count)) : Cutters count :=
  takeTurns plainNode (fun _ => plainRequest "tx1") (.start count (emptyShared store)) turns

def storedIds (cutters : Cutters count) : List String :=
  (inOrder cutters.shared.store.blocks).flatMap Block.transactions

theorem loop_alone_in_order :
    FifoExactlyOnce (runSample (.memory .new) (loopTurns : List (Turn 1))) :=
  (fifo_exactly_once_iff plainNode (fun _ => plainRequest "tx1") (emptyShared (.memory .new))
    loopTurns _ rfl (by decide +kernel) (by decide) rfl).1 (by decide +kernel)

/-- The memory store refuses the second block, the database puts it in the place
of the first: either way a submitted transaction is gone. -/
theorem transaction_lost :
    ((runSample (.memory .new) (sameHeightTurns (0 : Fin 1))).held = 0 ∧
      storedIds (runSample (.memory .new) (sameHeightTurns (0 : Fin 1))) = ["tx1"] ∧
      ¬ FifoExactlyOnce (runSample (.memory .new) (sameHeightTurns (0 : Fin 1)))) ∧
    (runSample (.rocksDb .new) (sameHeightTurns (0 : Fin 1))).held = 0 ∧
      storedIds (runSample (.rocksDb .new) (sameHeightTurns (0 : Fin 1))) = ["tx2"] ∧
      ¬ FifoExactlyOnce (runSample (.rocksDb .new) (sameHeightTurns (0 : Fin 1))) := by
  refine ⟨⟨by decide +kernel, by decide +kernel, ?_⟩, by decide +kernel, by decide +kernel, ?_⟩
  · intro fifo
    have counted := fifo.1 "tx2"
    revert counted
    decide +kernel
  · intro fifo
    have counted := fifo.1 "tx1"
    revert counted
    decide +kernel

end CeruleanLedger.OrderingQueue
