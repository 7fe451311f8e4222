import CeruleanLedger.GatewaySubmit

/-!
Where a submitted transaction ends up. The abstract model keeps, for each client, only whether
its transaction is not ordered yet, waiting in the queue, in a block that is cut but not stored,
or in a stored block, together with the queue and the stored blocks.
-/

namespace CeruleanLedger.SubmitPlacement

open BlockStore Mvcc OrderingLayer GatewaySubmit GuardedRun

inductive Standing where
  | fresh
  | waiting
  | cut (block : Block)
  | placed (height : UInt64)
  deriving DecidableEq

structure Placement (count : Nat) where
  standing : Fin count → Standing
  pending : List String
  blocks : Std.ExtTreeMap UInt64 Block

variable {count : Nat}

namespace Placement

def InCut (placement : Placement count) (client : Fin count) (id : String) : Prop :=
  ∃ block, placement.standing client = .cut block ∧ id ∈ block.transactions

def Stored (placement : Placement count) (id : String) : Prop :=
  ∃ (height : UInt64) (block : Block),
    placement.blocks[height]? = some block ∧ id ∈ block.transactions

def move (placement : Placement count) (client : Fin count) (standing : Standing) :
    Fin count → Standing :=
  Function.update placement.standing client standing

def enqueued (placement : Placement count) (client : Fin count) (id : String) :
    Placement count :=
  { placement with
    standing := placement.move client .waiting, pending := placement.pending ++ [id] }

def afterCut (placement : Placement count) (client : Fin count) (limit : Nat) (block : Block) :
    Placement count :=
  { placement with
    standing := placement.move client (.cut block), pending := placement.pending.drop limit }

def afterStore (placement : Placement count) (client : Fin count) (block : Block) :
    Placement count :=
  { placement with
    standing := placement.move client (.placed block.height)
    blocks := placement.blocks.insert block.height block }

def afterLoss (placement : Placement count) (client : Fin count) : Placement count :=
  { placement with standing := placement.move client .fresh }

/-- A step of one client. A cut takes a queue front that holds the client's own
id and no id of another waiting client; a block is stored at a free height. -/
inductive Step (ids : Fin count → String) (client : Fin count) (placement : Placement count) :
    Placement count → Prop where
  | quiet : Step ids client placement placement
  | enqueue (fresh : placement.standing client = .fresh) :
      Step ids client placement (placement.enqueued client (ids client))
  | cut (limit : Nat) (block : Block) (waiting : placement.standing client = .waiting)
      (batch : block.transactions = placement.pending.take limit)
      (own : ids client ∈ block.transactions)
      (others : ∀ other, other ≠ client → placement.standing other = .waiting →
        ids other ∉ block.transactions) :
      Step ids client placement (placement.afterCut client limit block)
  | store (block : Block) (cut : placement.standing client = .cut block)
      (free : placement.blocks[block.height]? = none) :
      Step ids client placement (placement.afterStore client block)
  | storeFailed (block : Block) (cut : placement.standing client = .cut block) :
      Step ids client placement (placement.afterLoss client)

/-- A client's id is in exactly the place its standing names. -/
def Located (ids : Fin count → String) (placement : Placement count) (client : Fin count) :
    Prop :=
  match placement.standing client with
  | .fresh => placement.pending.count (ids client) = 0 ∧
      (∀ other, ¬ placement.InCut other (ids client)) ∧ ¬ placement.Stored (ids client)
  | .waiting => placement.pending.count (ids client) = 1 ∧
      (∀ other, ¬ placement.InCut other (ids client)) ∧ ¬ placement.Stored (ids client)
  | .cut block => placement.pending.count (ids client) = 0 ∧ ids client ∈ block.transactions ∧
      (∀ other, other ≠ client → ¬ placement.InCut other (ids client)) ∧
      ¬ placement.Stored (ids client)
  | .placed height => placement.pending.count (ids client) = 0 ∧
      (∀ other, ¬ placement.InCut other (ids client)) ∧
      ∃ block, placement.blocks[height]? = some block ∧ ids client ∈ block.transactions

theorem move_self (placement : Placement count) (client : Fin count) (standing : Standing) :
    placement.move client standing client = standing :=
  Function.update_self ..

theorem move_other (placement : Placement count) {client other : Fin count}
    (standing : Standing) (apart : other ≠ client) :
    placement.move client standing other = placement.standing other :=
  Function.update_of_ne apart ..

variable {ids : Fin count → String} {before after : Placement count} {client other : Fin count}

theorem not_in_other_cut (located : Located ids before other) (apart : client ≠ other) :
    ¬ before.InCut client (ids other) := by
  unfold Located at located
  split at located
  · exact located.2.1 client
  · exact located.2.1 client
  · exact located.2.2.1 client apart
  · exact located.2.1 client

theorem located_frame (located : Located ids before other)
    (standing : after.standing other = before.standing other)
    (pending : after.pending.count (ids other) = before.pending.count (ids other))
    (cuts : ∀ client, after.InCut client (ids other) → before.InCut client (ids other))
    (stored : after.Stored (ids other) → before.Stored (ids other))
    (kept : ∀ (height : UInt64) block, before.blocks[height]? = some block →
      after.blocks[height]? = some block) :
    Located ids after other := by
  unfold Located at located ⊢
  rw [standing, pending]
  split at located
  · exact ⟨located.1, fun client inCut => located.2.1 client (cuts client inCut),
      fun present => located.2.2 (stored present)⟩
  · exact ⟨located.1, fun client inCut => located.2.1 client (cuts client inCut),
      fun present => located.2.2 (stored present)⟩
  · exact ⟨located.1, located.2.1,
      fun client apart inCut => located.2.2.1 client apart (cuts client inCut),
      fun present => located.2.2.2 (stored present)⟩
  · obtain ⟨absent, outside, block, present, member⟩ := located
    exact ⟨absent, fun client inCut => outside client (cuts client inCut), block,
      kept _ _ present, member⟩

theorem in_cut_of_move {standing : Standing} {id : String}
    (moved : after.standing = before.move client standing)
    (inCut : after.InCut other id) :
    (other = client ∧ ∃ block, standing = .cut block ∧ id ∈ block.transactions) ∨
      (other ≠ client ∧ before.InCut other id) := by
  obtain ⟨block, cut, member⟩ := inCut
  rw [moved] at cut
  by_cases same : other = client
  · subst same
    rw [move_self] at cut
    exact Or.inl ⟨rfl, block, cut, member⟩
  · rw [move_other _ _ same] at cut
    exact Or.inr ⟨same, block, cut, member⟩

theorem in_cut_of_uncut_move {standing : Standing} {id : String}
    (moved : after.standing = before.move client standing)
    (uncut : ∀ block, standing ≠ .cut block) (inCut : after.InCut other id) :
    other ≠ client ∧ before.InCut other id := by
  rcases in_cut_of_move moved inCut with ⟨_, block, isCut, _⟩ | earlier
  · exact absurd isCut (uncut block)
  · exact earlier

theorem not_in_cut_of_move {standing : Standing}
    (moved : after.standing = before.move client standing)
    (uncut : ∀ block, standing ≠ .cut block) (mine : Located ids before client) :
    ¬ after.InCut other (ids client) := by
  intro inCut
  obtain ⟨apart, earlier⟩ := in_cut_of_uncut_move moved uncut inCut
  exact not_in_other_cut mine apart earlier

variable (mine : Located ids before client) (located : Located ids before other)
include mine located

theorem located_enqueue (distinct : ids client ≠ ids other ∨ other = client)
    (fresh : before.standing client = .fresh) :
    Located ids (before.enqueued client (ids client)) other := by
  by_cases same : other = client
  · subst same
    simp only [Located, fresh] at mine
    simp only [Located, enqueued, move_self]
    exact ⟨by simp [mine.1], fun _ => not_in_cut_of_move rfl (by nofun) located, mine.2.2⟩
  · have apart : ids client ≠ ids other := distinct.resolve_right same
    refine located_frame located (move_other _ _ same) ?_
      (fun _ inCut => (in_cut_of_uncut_move rfl (by nofun) inCut).2) id fun _ _ present => present
    simp [enqueued, apart]

theorem located_cut (limit : Nat) (block : Block) (waiting : before.standing client = .waiting)
    (batch : block.transactions = before.pending.take limit)
    (own : ids client ∈ block.transactions)
    (others : other ≠ client → before.standing other = .waiting →
      ids other ∉ block.transactions) :
    Located ids (before.afterCut client limit block) other := by
  have splitCount : ∀ id, (before.pending.drop limit).count id + block.transactions.count id =
      before.pending.count id := by
    intro id
    rw [batch, Nat.add_comm, ← List.count_append, List.take_append_drop]
  by_cases same : other = client
  · subst same
    simp only [Located, waiting] at mine
    have taken : 0 < block.transactions.count (ids other) := List.count_pos_iff.mpr own
    have total := splitCount (ids other)
    simp only [Located, afterCut, move_self]
    refine ⟨by omega, own, ?_, mine.2.2⟩
    intro place apart inCut
    rcases in_cut_of_move rfl inCut with ⟨isSelf, _⟩ | ⟨_, earlier⟩
    · exact apart isSelf
    · exact mine.2.1 place earlier
  · -- No other client's id is in the batch: waiting ones by the guard, the
    -- rest because they are not in the queue.
    have outside : ids other ∉ block.transactions := by
      by_cases otherWaiting : before.standing other = .waiting
      · exact others same otherWaiting
      · have absent : before.pending.count (ids other) = 0 := by
          unfold Located at located
          split at located
          · exact located.1
          · exact absurd ‹_› otherWaiting
          · exact located.1
          · exact located.1
        rw [batch]
        intro member
        exact List.count_eq_zero.mp absent (List.mem_of_mem_take member)
    refine located_frame located (move_other _ _ same) ?_ ?_ id fun _ _ present => present
    · have total := splitCount (ids other)
      rw [List.count_eq_zero.mpr outside] at total
      exact total
    · intro place inCut
      rcases in_cut_of_move rfl inCut with ⟨_, found, isBlock, member⟩ | ⟨_, earlier⟩
      · cases isBlock
        exact absurd member outside
      · exact earlier

theorem located_store (block : Block) (cut : before.standing client = .cut block)
    (free : before.blocks[block.height]? = none) :
    Located ids (before.afterStore client block) other := by
  have lookup : ∀ height : UInt64, (before.afterStore client block).blocks[height]? =
      if block.height = height then some block else before.blocks[height]? := by
    intro height
    rw [afterStore, OrderedMap.get_insert]
  by_cases same : other = client
  · subst same
    simp only [Located, cut] at mine
    simp only [Located, afterStore, move_self]
    exact ⟨mine.1, fun _ => not_in_cut_of_move rfl (by nofun) located, block, by simp, mine.2.1⟩
  · have outside : ids other ∉ block.transactions := fun member =>
      not_in_other_cut located (Ne.symm same) ⟨block, cut, member⟩
    refine located_frame located (move_other _ _ same) rfl
      (fun _ inCut => (in_cut_of_uncut_move rfl (by nofun) inCut).2) ?_ ?_
    · rintro ⟨height, found, present, member⟩
      rw [lookup] at present
      split at present
      · cases present
        exact absurd member outside
      · exact ⟨height, found, present, member⟩
    · intro height found present
      rw [lookup, if_neg]
      · exact present
      · intro taken
        rw [← taken, free] at present
        cases present

theorem located_store_failed (block : Block) (cut : before.standing client = .cut block) :
    Located ids (before.afterLoss client) other := by
  by_cases same : other = client
  · subst same
    simp only [Located, cut] at mine
    simp only [Located, afterLoss, move_self]
    exact ⟨mine.1, fun _ => not_in_cut_of_move rfl (by nofun) located, mine.2.2.2⟩
  · exact located_frame located (move_other _ _ same) rfl
      (fun _ inCut => (in_cut_of_uncut_move rfl (by nofun) inCut).2) id fun _ _ present => present

omit mine located in
theorem step_located (distinct : Function.Injective ids)
    (step : Step ids client before after) (located : ∀ other, Located ids before other) :
    ∀ other, Located ids after other := by
  intro other
  cases step with
  | quiet => exact located other
  | enqueue fresh =>
    refine located_enqueue (located client) (located other) ?_ fresh
    by_cases same : other = client
    · exact Or.inr same
    · exact Or.inl fun equal => same (distinct equal).symm
  | cut limit block waiting batch own others =>
    exact located_cut (located client) (located other) limit block waiting batch own (others other)
  | store block cut free => exact located_store (located client) (located other) block cut free
  | storeFailed block cut =>
    exact located_store_failed (located client) (located other) block cut

end Placement

section Refinement

def standing : Stage → Standing
  | .start => .fresh
  | .endorsed _ => .fresh
  | .queued _ => .waiting
  | .atHeight _ _ => .waiting
  | .cut _ block => .cut block
  | .indexing _ block _ => .placed block.height
  | .applying block _ => .placed block.height
  | .finished (.ok result) => .placed result.blockHeight
  | .finished (.error _) => .fresh

def placementOf (system : System count) : Placement count :=
  ⟨fun client => standing (system.stages client),
    system.shared.ordering.pendingTxs.map Transaction.id, system.shared.store.blocks⟩

def aboutToCut : Stage → Bool
  | .atHeight _ _ => true
  | _ => false

def toStore : Stage → Option Block
  | .cut _ block => some block
  | _ => none

def overwrites : Store → Bool
  | .memory _ => false
  | .rocksDb _ => true

variable (node : Node) (requests : Fin count → Request)

def idOf (client : Fin count) : String := (requests client).tx.id

def batchIds (system : System count) : List String :=
  (system.shared.ordering.batch).map Transaction.id

/-- A client that cuts takes its own transaction and none of a client that has
enqueued and not cut; a store that overwrites is written at free heights only. -/
def CutsOwn (system : System count) (input : Fin count × Moment) : Prop :=
  (aboutToCut (system.stages input.1) = true →
    idOf requests input.1 ∈ batchIds system ∧
    ∀ other, other ≠ input.1 → standing (system.stages other) = .waiting →
      idOf requests other ∉ batchIds system) ∧
  (overwrites system.shared.store = true →
    (toStore (system.stages input.1)).all
      (fun block => (system.shared.store.blocks[block.height]?).isNone) = true)
  deriving Decidable

variable {system : System count} {input : Fin count × Moment} {moved : Stage × Shared}

theorem standing_at {client : Fin count} {stage : Stage} (same : system.stages client = stage) :
    (placementOf system).standing client = standing stage := by
  rw [← same]
  rfl

theorem placement_of_step
    (step : advance node (requests input.1) input.2 system.shared (system.stages input.1) =
      moved) :
    placementOf (stepClient node requests system input) =
      ⟨(placementOf system).move input.1 (standing moved.1),
        moved.2.ordering.pendingTxs.map Transaction.id, moved.2.store.blocks⟩ := by
  subst step
  simp only [placementOf, stepClient, Placement.move, Placement.mk.injEq, and_true]
  funext client
  by_cases same : client = input.1
  · subst same
    simp
  · simp [Function.update_of_ne same]

theorem quiet_step {client : Fin count} {stage : Stage}
    (same : standing stage = standing (system.stages client))
    {blocks : Std.ExtTreeMap UInt64 Block} (kept : blocks = system.shared.store.blocks) :
    Placement.Step (idOf requests) client (placementOf system)
      { placementOf system with
        standing := (placementOf system).move client (standing stage), blocks } := by
  have still : (placementOf system).move client (standing stage) =
      (placementOf system).standing := by
    rw [same]
    exact Function.update_eq_self _ _
  rw [still, kept]
  exact .quiet

/-- Every step that meets the condition is a step of the abstract model. -/
theorem step_refines (meets : CutsOwn requests system input) :
    Placement.Step (idOf requests) input.1 (placementOf system)
      (placementOf (stepClient node requests system input)) := by
  have transition := advance_transition node (requests input.1) input.2 system.shared
    (system.stages input.1)
  rw [placement_of_step node requests rfl]
  generalize advance node (requests input.1) input.2 system.shared (system.stages input.1) = moved
    at transition
  generalize stage : system.stages input.1 = current at transition
  cases transition with
  | enqueued rwset =>
    simp only [OrderingService.submitTx, List.map_append]
    exact .enqueue (standing_at stage)
  | blockCut rwset height ordering block cut =>
    obtain ⟨own, others⟩ := meets.1 (by rw [stage]; rfl)
    obtain ⟨transactions, rest, _⟩ := OrderingService.cut_block_some _ cut
    have sameBatch : block.transactions = batchIds system := transactions
    simp only [rest, List.map_drop]
    refine .cut _ block (standing_at stage) ?_ (sameBatch ▸ own) fun other apart waiting =>
      sameBatch ▸ others other apart waiting
    rw [transactions, OrderingService.batch, List.map_take]
    rfl
  | nothingCut rwset height ordering cut =>
    -- An empty queue holds no transaction, not even the client's own.
    obtain ⟨own, _⟩ := meets.1 (by rw [stage]; rfl)
    simp [batchIds, OrderingService.batch, OrderingService.cut_block_none _ cut] at own
  | blockWritten rwset block store written =>
    obtain ⟨inserted, unused⟩ := Store.write_block_ok written
    simp only [inserted]
    refine .store block (standing_at stage) ?_
    -- The memory store refuses a taken height by itself.
    cases kind : system.shared.store with
    | memory inner => exact unused ⟨inner, kind⟩
    | rocksDb inner =>
      have guarded := meets.2 (by rw [kind]; rfl)
      rw [stage] at guarded
      exact Option.isNone_iff_eq_none.mp guarded
  | writeFailed rwset block reason failed => exact .storeFailed block (standing_at stage)
  | indexed rwset block id rest =>
    exact quiet_step requests (stage ▸ rfl) (index_transaction_blocks ..)
  | _ => exact quiet_step requests (stage ▸ rfl) rfl

end Refinement

section Reports

variable (node : Node) (requests : Fin count → Request)

/-- What a stage says about the puts its client has made so far. -/
def Tracked (id : String) (stage : Stage) (applied : List KVWrite) : Prop :=
  match stage with
  | .applying _ _ => True
  | .finished (.ok result) => result.txId = id
  | _ => applied = []

theorem advance_tracked (request : Request) (moment : Moment) (shared : Shared) (stage : Stage)
    (applied : List KVWrite) (tracked : Tracked request.tx.id stage applied) :
    Tracked request.tx.id (advance node request moment shared stage).1
      (applied ++ stage.nextPut) := by
  have transition := advance_transition node request moment shared stage
  generalize advance node request moment shared stage = moved at transition ⊢
  cases transition with
  | put block write rest => trivial
  | applied block => rfl
  | validated rwset block state present valid => trivial
  | unchecked rwset block absent => rfl
  | conflicted rwset block state conflict present invalid => rfl
  | rested result =>
    cases result with
    | ok result => exact tracked
    | error reason => exact (List.append_nil applied).trans tracked
  | _ => exact (List.append_nil applied).trans tracked

theorem step_tracked (system : System count) (input : Fin count × Moment) (client : Fin count)
    (tracked : Tracked (idOf requests client) (system.stages client) (system.applied client)) :
    Tracked (idOf requests client) ((stepClient node requests system input).stages client)
      ((stepClient node requests system input).applied client) := by
  by_cases same : client = input.1
  · subst same
    simp only [stepClient, Function.update_self]
    exact advance_tracked node _ _ _ _ _ tracked
  · simpa only [stepClient, Function.update_of_ne same] using tracked

def holdsTx (store : Store) (height : UInt64) (id : String) : Bool :=
  (store.blocks[height]?).any fun block => block.transactions.contains id

def PlacedAsReported (system : System count) (client : Fin count) : Prop :=
  match system.stages client with
  | .finished (.ok result) => result.txId = idOf requests client ∧
      holdsTx system.shared.store result.blockHeight result.txId = true
  | .finished (.error _) =>
    (∀ height, holdsTx system.shared.store height (idOf requests client) = false) ∧
      system.applied client = []
  | _ => True

theorem holds_tx_iff (store : Store) (height : UInt64) (id : String) :
    holdsTx store height id = true ↔
      ∃ block, store.blocks[height]? = some block ∧ id ∈ block.transactions := by
  simp [holdsTx, Option.any_eq_true]

theorem reported_of_located {system : System count} {client : Fin count}
    (located : Placement.Located (idOf requests) (placementOf system) client)
    (tracked : Tracked (idOf requests client) (system.stages client) (system.applied client)) :
    PlacedAsReported requests system client := by
  have here : (placementOf system).standing client = standing (system.stages client) := rfl
  unfold PlacedAsReported
  unfold Placement.Located at located
  rw [here] at located
  split
  · next result stage =>
    rw [stage] at located tracked
    have named : result.txId = idOf requests client := tracked
    refine ⟨named, (holds_tx_iff _ _ _).mpr ?_⟩
    rw [named]
    exact located.2.2
  · next reason stage =>
    rw [stage] at located tracked
    refine ⟨fun height => ?_, tracked⟩
    rw [Bool.eq_false_iff]
    intro held
    obtain ⟨block, present, member⟩ := (holds_tx_iff _ _ _).mp held
    exact located.2.2 ⟨height, block, present, member⟩
  · trivial

theorem start_located (shared : Shared)
    (unqueued : ∀ client, idOf requests client ∉ shared.ordering.pendingTxs.map Transaction.id)
    (unstored : ∀ client height, holdsTx shared.store height (idOf requests client) = false)
    (client : Fin count) :
    Placement.Located (idOf requests) (placementOf (startOf count shared)) client := by
  refine ⟨List.count_eq_zero.mpr (unqueued client), ?_, ?_⟩
  · rintro other ⟨block, impossible, _⟩
    cases impossible
  · rintro ⟨height, block, present, member⟩
    have held := (holds_tx_iff shared.store height (idOf requests client)).mpr
      ⟨block, present, member⟩
    rw [unstored client height] at held
    cases held

/-- In every run whose steps meet `CutsOwn`, what `submit` returns is where the
transaction is. -/
theorem submit_places (shared : Shared) (inputs : List (Fin count × Moment))
    (distinct : Function.Injective (idOf requests))
    (unqueued : ∀ client, idOf requests client ∉ shared.ordering.pendingTxs.map Transaction.id)
    (unstored : ∀ client height, holdsTx shared.store height (idOf requests client) = false)
    (meets : AllMeet (stepClient node requests) (CutsOwn requests) (startOf count shared) inputs)
    (client : Fin count) :
    PlacedAsReported requests (runClients node requests (startOf count shared) inputs) client := by
  have invariant := run_invariant_plain
    (fun system => (∀ client, Placement.Located (idOf requests) (placementOf system) client) ∧
      ∀ client, Tracked (idOf requests client) (system.stages client) (system.applied client))
    (startOf count shared) inputs
    ⟨start_located requests shared unqueued unstored, fun _ => rfl⟩
    (fun system input holds guarded =>
      ⟨Placement.step_located distinct (step_refines node requests guarded) holds.1,
        fun client => step_tracked node requests system input client (holds.2 client)⟩) meets
  exact reported_of_located requests (invariant.1 client) (invariant.2 client)

end Reports

def plainNode : Node := ⟨paddingCrypto, fun _ _ => 0, none⟩

def queueOf (ids : List String) (maxBatchSize : Nat) : Shared :=
  { world := none
    ordering := ⟨ids.map sampleTx, maxBatchSize, none, none⟩
    store := .memory MemoryStore.new }

def twoRequests : Fin 2 → Request := ![plainRequest "first", plainRequest "second"]

/-- Both clients enqueue before the first cuts; batches hold one transaction. -/
def pairTurns (first second : Fin count) : List (Fin count × Moment) :=
  turns [first, first, second, second, first, first, first, second, second, second, first, first,
    second, second]

theorem interleaved_pair_placed :
    PlacedAsReported twoRequests
      (runClients plainNode twoRequests (startOf 2 (queueOf [] 1)) (pairTurns 0 1)) 0 ∧
    PlacedAsReported twoRequests
      (runClients plainNode twoRequests (startOf 2 (queueOf [] 1)) (pairTurns 0 1)) 1 := by
  constructor
  · exact submit_places plainNode twoRequests (queueOf [] 1) (pairTurns 0 1) (by decide) (by decide)
      (fun _ _ => rfl) (by decide) 0
  · exact submit_places plainNode twoRequests (queueOf [] 1) (pairTurns 0 1) (by decide) (by decide)
      (fun _ _ => rfl) (by decide) 1

/-- Behind a backlog, `submit` returns the height of a block without its
transaction; drained by another client, it returns an error although its
transaction is stored. -/
theorem submit_misreports :
    ¬ PlacedAsReported ![plainRequest "mine"] (runClients plainNode ![plainRequest "mine"]
      (startOf 1 (queueOf ["backlog"] 1)) (turns [0, 0, 0, 0, 0, 0, 0])) 0 ∧
    ¬ PlacedAsReported twoRequests (runClients plainNode twoRequests
      (startOf 2 (queueOf [] 2)) (turns [0, 0, 1, 1, 1, 1, 1, 0, 0])) 0 := by
  constructor
  · intro placed
    exact absurd placed.2 (by decide)
  · intro placed
    exact absurd (placed.1 1) (by decide)

end CeruleanLedger.SubmitPlacement
