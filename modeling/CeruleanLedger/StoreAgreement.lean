import CeruleanLedger.BlockStore
import CeruleanLedger.GuardedRun
import CeruleanLedger.OrderedMap

/-!
The two block stores fed the same writes. Database operations are taken to
succeed. Errors of a read name the missing key in a form of each store's own,
so reads are compared by the block they return.
-/

namespace CeruleanLedger.StoreAgreement

open BlockStore GuardedRun OrderedMap

inductive WriteCall where
  | block (block : Block)
  | batch (blocks : List Block) (txs : List Transaction)
  deriving DecidableEq

def WriteCall.blocks : WriteCall → List Block
  | .block single => [single]
  | .batch blocks _ => blocks

def MemoryStore.apply (store : MemoryStore) : WriteCall → MemoryStore × Except StorageError Unit
  | .block block =>
    match store.writeBlock block with
    | .error reason => (store, .error reason)
    | .ok store => (store, .ok ())
  | .batch blocks txs => store.writeBatch blocks txs

def RocksDbBlockStore.apply (store : RocksDbBlockStore) (call : WriteCall) :
    RocksDbBlockStore × Except StorageError Unit :=
  let outcome := match call with
    | .block block => store.writeBlock none block
    | .batch blocks txs => store.writeBatch none blocks txs
  match outcome with
  | .error reason => (store, .error reason)
  | .ok store => (store, .ok ())

structure Stores where
  memory : MemoryStore
  rocksDb : RocksDbBlockStore

def Stores.new : Stores := ⟨MemoryStore.new, RocksDbBlockStore.new⟩

def Stores.step (stores : Stores) (call : WriteCall) : Stores :=
  ⟨(MemoryStore.apply stores.memory call).1, (RocksDbBlockStore.apply stores.rocksDb call).1⟩

def after (calls : List WriteCall) : Stores := calls.foldl Stores.step Stores.new

def SameAnswer (stores : Stores) (call : WriteCall) : Prop :=
  (MemoryStore.apply stores.memory call).2.isOk = (RocksDbBlockStore.apply stores.rocksDb call).2.isOk

def SameReads (stores : Stores) : Prop :=
  (∀ height, (stores.memory.readBlock height).toOption =
      (stores.rocksDb.readBlock height).toOption ∧
    stores.memory.blockExists height = stores.rocksDb.blockExists height) ∧
  stores.memory.latestHeight = stores.rocksDb.getLatestHeight

/-- A block that either store returned is returned in every later state. -/
def Kept (earlier later : Stores) : Prop :=
  ∀ height block,
    (earlier.memory.readBlock height = .ok block → later.memory.readBlock height = .ok block) ∧
    (earlier.rocksDb.readBlock height = .ok block → later.rocksDb.readBlock height = .ok block)

structure Agreed (calls : List WriteCall) : Prop where
  immutable : ∀ earlier later, calls = earlier ++ later → Kept (after earlier) (after calls)
  answers : ∀ earlier call later, calls = earlier ++ call :: later →
    SameAnswer (after earlier) call
  reads : ∀ earlier later, calls = earlier ++ later → SameReads (after earlier)

/-- The call writes pairwise different heights, none of them present. -/
def Fresh (stores : Stores) (call : WriteCall) : Prop :=
  (call.blocks.map Block.height).Nodup ∧
    ∀ block ∈ call.blocks, stores.memory.blockExists block.height = false
  deriving Decidable

structure Alike (stores : Stores) : Prop where
  blocks : stores.memory.blocks = stores.rocksDb.blocks
  latest : stores.memory.latestHeight = stores.rocksDb.getLatestHeight

def putBlock (stored : Std.ExtTreeMap UInt64 Block) (block : Block) :
    Std.ExtTreeMap UInt64 Block :=
  stored.insert block.height block

section Memory

variable {store : MemoryStore}

theorem write_block_fresh {block : Block} (free : store.blockExists block.height = false) :
    store.writeBlock block = .ok { store with
      latestHeight := RocksDbBlockStore.newLatest store.latestHeight [block]
      blocks := putBlock store.blocks block } := by
  have absent : store.blocks.contains block.height = false := free
  rw [MemoryStore.writeBlock, absent]
  rfl

theorem write_block_taken {block : Block} (taken : store.blockExists block.height = true) :
    ∃ reason, store.writeBlock block = .error reason := by
  have present : store.blocks.contains block.height = true := taken
  rw [MemoryStore.writeBlock, present]
  exact ⟨_, rfl⟩

theorem write_blocks_fresh {blocks : List Block} (distinct : (blocks.map Block.height).Nodup)
    (free : ∀ block ∈ blocks, store.blockExists block.height = false) :
    store.writeBlocks blocks = ({ store with
      latestHeight := RocksDbBlockStore.newLatest store.latestHeight blocks
      blocks := blocks.foldl putBlock store.blocks }, .ok ()) := by
  induction blocks generalizing store with
  | nil => rfl
  | cons block rest ih =>
    obtain ⟨here, others⟩ := List.forall_mem_cons.mp free
    obtain ⟨apart, distinctRest⟩ := List.nodup_cons.mp distinct
    rw [MemoryStore.writeBlocks, write_block_fresh here]
    dsimp only
    rw [ih distinctRest]
    · rfl
    · intro other member
      have differ : block.height ≠ other.height := by
        intro same
        exact apart (List.mem_map.mpr ⟨other, member, same.symm⟩)
      simpa [MemoryStore.blockExists, putBlock, differ] using others other member

theorem write_blocks_refused {blocks : List Block} (repeated : ¬ ((blocks.map Block.height).Nodup ∧
      ∀ block ∈ blocks, store.blockExists block.height = false)) :
    (store.writeBlocks blocks).2.isOk = false := by
  induction blocks generalizing store with
  | nil => exact absurd ⟨List.nodup_nil, nofun⟩ repeated
  | cons block rest ih =>
    rw [MemoryStore.writeBlocks]
    cases here : store.blockExists block.height with
    | true =>
      obtain ⟨reason, refused⟩ := write_block_taken here
      rw [refused]
      rfl
    | false =>
      -- The block is written, so what repeats or is taken lies further on.
      rw [write_block_fresh here]
      apply ih
      rintro ⟨distinct, free⟩
      apply repeated
      constructor
      · rw [List.map_cons, List.nodup_cons]
        refine ⟨?_, distinct⟩
        intro member
        obtain ⟨other, inside, same⟩ := List.mem_map.mp member
        have absent := free other inside
        simp [MemoryStore.blockExists, putBlock, same] at absent
      · rw [List.forall_mem_cons]
        refine ⟨here, ?_⟩
        intro other inside
        have absent := free other inside
        simp only [MemoryStore.blockExists, putBlock, Std.ExtTreeMap.contains_insert,
          Bool.or_eq_false_iff] at absent
        exact absent.2

end Memory

theorem new_latest_ge (latest : UInt64) (blocks : List Block) :
    latest ≤ RocksDbBlockStore.newLatest latest blocks := by
  induction blocks generalizing latest with
  | nil => exact UInt64.le_refl latest
  | cons block rest ih =>
    have later := ih (if block.height > latest then block.height else latest)
    refine UInt64.le_trans ?_ later
    split
    · rename_i above
      exact UInt64.le_of_lt above
    · exact UInt64.le_refl latest

theorem latest_after_block (store : RocksDbBlockStore) (block : Block) :
    (if block.height ≥ store.latestHeight.getD 0 then some block.height
      else store.latestHeight).getD 0 =
        RocksDbBlockStore.newLatest store.getLatestHeight [block] := by
  simp only [RocksDbBlockStore.newLatest, RocksDbBlockStore.getLatestHeight, List.foldl_cons,
    List.foldl_nil]
  by_cases above : store.latestHeight.getD 0 < block.height
  · rw [if_pos (UInt64.le_of_lt above), if_pos above]
    rfl
  · rw [if_neg above]
    split
    · rename_i same
      exact UInt64.le_antisymm (UInt64.not_lt.mp above) same
    · rfl

/-- A batch without blocks and transactions, refused by both stores. -/
def WriteCall.Empty : WriteCall → Prop
  | .block _ => False
  | .batch blocks txs => blocks = [] ∧ txs = []

section Steps

variable {call : WriteCall}

theorem is_empty_iff (blocks : List Block) (txs : List Transaction) :
    (blocks.isEmpty && txs.isEmpty) = true ↔ (WriteCall.batch blocks txs).Empty := by
  simp [WriteCall.Empty]

theorem empty_refused (memory : MemoryStore) (rocksDb : RocksDbBlockStore) (empty : call.Empty) :
    MemoryStore.apply memory call = (memory, .error (.batchOperationFailed "Empty batch")) ∧
      RocksDbBlockStore.apply rocksDb call =
        (rocksDb, .error (.batchOperationFailed "Empty batch")) := by
  cases call with
  | block single => cases empty
  | batch blocks txs =>
    obtain ⟨noBlocks, noTxs⟩ := empty
    subst noBlocks
    subst noTxs
    exact ⟨rfl, rfl⟩

theorem write_transactions_frame (txs : List Transaction) (store : MemoryStore) :
    (txs.foldl MemoryStore.writeTransaction store).blocks = store.blocks ∧
      (txs.foldl MemoryStore.writeTransaction store).latestHeight = store.latestHeight := by
  induction txs generalizing store with
  | nil => exact ⟨rfl, rfl⟩
  | cons tx rest ih => exact ih (store.writeTransaction tx)

theorem memory_apply_fresh (store : MemoryStore) (filled : ¬ call.Empty)
    (distinct : (call.blocks.map Block.height).Nodup)
    (free : ∀ block ∈ call.blocks, store.blockExists block.height = false) :
    (MemoryStore.apply store call).2 = .ok () ∧
      (MemoryStore.apply store call).1.blocks = call.blocks.foldl putBlock store.blocks ∧
      (MemoryStore.apply store call).1.latestHeight =
        RocksDbBlockStore.newLatest store.latestHeight call.blocks := by
  cases call with
  | block single =>
    rw [MemoryStore.apply, write_block_fresh (free single (List.mem_singleton_self _))]
    exact ⟨rfl, rfl, rfl⟩
  | batch blocks txs =>
    have written : store.writeBlocks blocks = _ := write_blocks_fresh distinct free
    rw [← is_empty_iff] at filled
    rw [MemoryStore.apply, MemoryStore.writeBatch, if_neg filled, written]
    obtain ⟨sameBlocks, sameLatest⟩ := write_transactions_frame txs { store with
      latestHeight := RocksDbBlockStore.newLatest store.latestHeight blocks
      blocks := blocks.foldl putBlock store.blocks }
    exact ⟨rfl, sameBlocks, sameLatest⟩

theorem memory_apply_refused (store : MemoryStore) (repeated : ¬ (
    (call.blocks.map Block.height).Nodup ∧
      ∀ block ∈ call.blocks, store.blockExists block.height = false)) :
    (MemoryStore.apply store call).2.isOk = false := by
  cases call with
  | block single =>
    have taken : store.blockExists single.height = true := by
      by_contra other
      apply repeated
      simpa [WriteCall.blocks] using other
    obtain ⟨reason, refused⟩ := write_block_taken taken
    rw [MemoryStore.apply, refused]
    rfl
  | batch blocks txs =>
    rw [MemoryStore.apply, MemoryStore.writeBatch]
    split
    · rfl
    · have refused : (store.writeBlocks blocks).2.isOk = false := write_blocks_refused repeated
      cases written : store.writeBlocks blocks with
      | mk left answer =>
        cases answer with
        | error reason => rfl
        | ok value =>
          rw [written] at refused
          cases refused

theorem rocks_db_apply (store : RocksDbBlockStore) (filled : ¬ call.Empty) :
    (RocksDbBlockStore.apply store call).2 = .ok () ∧
      (RocksDbBlockStore.apply store call).1.blocks = call.blocks.foldl putBlock store.blocks ∧
      (RocksDbBlockStore.apply store call).1.getLatestHeight =
        RocksDbBlockStore.newLatest store.getLatestHeight call.blocks := by
  cases call with
  | block single => exact ⟨rfl, rfl, latest_after_block store single⟩
  | batch blocks txs =>
    rw [← is_empty_iff] at filled
    rw [RocksDbBlockStore.apply, RocksDbBlockStore.writeBatch, if_neg filled]
    -- The meta entry is only written when it grows, and reads the same either way.
    refine ⟨rfl, rfl, ?_⟩
    rw [RocksDbBlockStore.getLatestHeight]
    dsimp only
    split
    · rfl
    · rename_i below
      exact UInt64.le_antisymm (new_latest_ge _ _) (UInt64.not_lt.mp below)

variable {stores : Stores}

theorem fresh_of_empty (empty : call.Empty) : Fresh stores call := by
  cases call with
  | block single => cases empty
  | batch blocks txs =>
    obtain ⟨noBlocks, _⟩ := empty
    subst noBlocks
    exact ⟨List.nodup_nil, nofun⟩

/-- The memory store refuses what is not fresh; the database never does. -/
theorem fresh_of_same_answer (same : SameAnswer stores call) : Fresh stores call := by
  by_cases empty : call.Empty
  · exact fresh_of_empty empty
  · by_contra stale
    rw [SameAnswer, memory_apply_refused stores.memory stale,
      (rocks_db_apply stores.rocksDb empty).1] at same
    cases same

theorem same_answer_of_fresh (fresh : Fresh stores call) : SameAnswer stores call := by
  by_cases empty : call.Empty
  · obtain ⟨memory, rocksDb⟩ := empty_refused stores.memory stores.rocksDb empty
    rw [SameAnswer, memory, rocksDb]
  · rw [SameAnswer, (memory_apply_fresh stores.memory empty fresh.1 fresh.2).1,
      (rocks_db_apply stores.rocksDb empty).1]

theorem step_alike (alike : Alike stores) (fresh : Fresh stores call) :
    Alike (stores.step call) := by
  by_cases empty : call.Empty
  · obtain ⟨memory, rocksDb⟩ := empty_refused stores.memory stores.rocksDb empty
    rw [Stores.step, memory, rocksDb]
    exact alike
  · obtain ⟨_, memoryBlocks, memoryLatest⟩ :=
      memory_apply_fresh stores.memory empty fresh.1 fresh.2
    obtain ⟨_, rocksBlocks, rocksLatest⟩ := rocks_db_apply stores.rocksDb empty
    constructor
    · rw [Stores.step, memoryBlocks, rocksBlocks, alike.blocks]
    · rw [Stores.step, memoryLatest, rocksLatest, alike.latest]

theorem put_blocks_elsewhere {blocks : List Block} {stored : Std.ExtTreeMap UInt64 Block}
    {height : UInt64} (elsewhere : ∀ block ∈ blocks, block.height ≠ height) :
    (blocks.foldl putBlock stored)[height]? = stored[height]? := by
  induction blocks generalizing stored with
  | nil => rfl
  | cons block rest ih =>
    obtain ⟨here, others⟩ := List.forall_mem_cons.mp elsewhere
    rw [List.foldl_cons, ih others]
    rw [putBlock, get_insert, if_neg here]

theorem read_memory_iff (store : MemoryStore) (height : UInt64) (block : Block) :
    store.readBlock height = .ok block ↔ store.blocks[height]? = some block := by
  unfold MemoryStore.readBlock
  cases store.blocks[height]? <;> simp

theorem read_rocks_db_iff (store : RocksDbBlockStore) (height : UInt64) (block : Block) :
    store.readBlock height = .ok block ↔ store.blocks[height]? = some block := by
  unfold RocksDbBlockStore.readBlock
  cases store.blocks[height]? <;> simp

theorem step_kept (alike : Alike stores) (fresh : Fresh stores call) :
    Kept stores (stores.step call) := by
  have still : ∀ (height : UInt64) (block : Block), stores.memory.blocks[height]? = some block →
      (stores.step call).memory.blocks[height]? = some block := by
    intro height block present
    by_cases empty : call.Empty
    · rw [Stores.step, (empty_refused stores.memory stores.rocksDb empty).1]
      exact present
    · rw [Stores.step, (memory_apply_fresh stores.memory empty fresh.1 fresh.2).2.1,
        put_blocks_elsewhere]
      · exact present
      · intro other member same
        -- The height of a present block is not free.
        have absent := fresh.2 other member
        rw [same] at absent
        simp [MemoryStore.blockExists, Std.ExtTreeMap.contains_eq_isSome_getElem?, present] at absent
  intro height block
  rw [read_memory_iff, read_memory_iff, read_rocks_db_iff, read_rocks_db_iff,
    ← alike.blocks, ← (step_alike alike fresh).blocks]
  exact ⟨still height block, still height block⟩

theorem same_reads (alike : Alike stores) : SameReads stores := by
  refine ⟨?_, alike.latest⟩
  intro height
  constructor
  · simp only [MemoryStore.readBlock, RocksDbBlockStore.readBlock, alike.blocks]
    cases stores.rocksDb.blocks[height]? <;> rfl
  · rw [MemoryStore.blockExists, RocksDbBlockStore.blockExists, alike.blocks]

end Steps

theorem new_alike : Alike Stores.new := ⟨rfl, rfl⟩

theorem all_fresh_of_answers {start : Stores} (alike : Alike start) (calls : List WriteCall)
    (answers : ∀ earlier call later, calls = earlier ++ call :: later →
      SameAnswer (earlier.foldl Stores.step start) call) :
    AllMeet Stores.step Fresh start calls := by
  induction calls generalizing start with
  | nil => trivial
  | cons call rest ih =>
    have fresh := fresh_of_same_answer (answers [] call rest rfl)
    refine ⟨fresh, ih (step_alike alike fresh) ?_⟩
    intro earlier next later split
    exact answers (call :: earlier) next later (by rw [split]; rfl)

theorem kept_trans {first second third : Stores} (early : Kept first second)
    (late : Kept second third) : Kept first third := by
  intro height block
  exact ⟨fun read => (late height block).1 ((early height block).1 read),
    fun read => (late height block).2 ((early height block).2 read)⟩

theorem fresh_run {start : Stores} (alike : Alike start) (calls : List WriteCall)
    (fresh : AllMeet Stores.step Fresh start calls) :
    Alike (calls.foldl Stores.step start) ∧ Kept start (calls.foldl Stores.step start) := by
  induction calls generalizing start with
  | nil => exact ⟨alike, fun _ _ => ⟨id, id⟩⟩
  | cons call rest ih =>
    obtain ⟨here, others⟩ := fresh
    obtain ⟨final, kept⟩ := ih (step_alike alike here) others
    exact ⟨final, kept_trans (step_kept alike here) kept⟩

/-- The stores keep their blocks and agree exactly along the runs in which
every call writes different heights that are still free. -/
theorem agreed_iff (calls : List WriteCall) :
    Agreed calls ↔ AllMeet Stores.step Fresh Stores.new calls := by
  constructor
  · intro agreed
    -- The answers alone force every call to be fresh.
    exact all_fresh_of_answers new_alike calls agreed.answers
  · intro fresh
    have alikeAfter : ∀ earlier later, calls = earlier ++ later →
        Alike (after earlier) ∧ AllMeet Stores.step Fresh (after earlier) later := by
      intro earlier later split
      rw [split, all_meet_append] at fresh
      exact ⟨(fresh_run new_alike earlier fresh.1).1, fresh.2⟩
    constructor
    · intro earlier later split
      obtain ⟨alike, rest⟩ := alikeAfter earlier later split
      have joined : after (earlier ++ later) = later.foldl Stores.step (after earlier) :=
        List.foldl_append
      rw [split, joined]
      exact (fresh_run alike later rest).2
    · intro earlier call later split
      exact same_answer_of_fresh (alikeAfter earlier (call :: later) split).2.1
    · intro earlier later split
      exact same_reads (alikeAfter earlier later split).1

def blockBy (height : UInt64) (proposer : String) : Block :=
  { height, timestamp := 0, parentHash := ByteCodec.zeroHash, merkleRoot := ByteCodec.zeroHash
    transactions := [], proposer, signature := [], signatureAlgorithm := .ed25519
    endorsements := [], secondarySignature := none, secondarySignatureAlgorithm := none
    hashAlgorithm := .sha256, ordererSignature := none }

example : AllMeet Stores.step Fresh Stores.new
    [.block (blockBy 1 "alice"), .batch [blockBy 0 "bob", blockBy 2 "bob"] []] := by
  decide

/-- A second block at a committed height replaces the first in the database,
while the memory store refuses it. -/
theorem committed_block_replaced :
    ∃ (calls : List WriteCall) (height : UInt64) (first second : Block), first ≠ second ∧
      (after (calls.take 1)).rocksDb.readBlock height = .ok first ∧
      (after calls).rocksDb.readBlock height = .ok second ∧
      (after calls).memory.readBlock height = .ok first ∧
      ∃ call ∈ calls, ¬ SameAnswer (after (calls.take 1)) call := by
  refine ⟨[.block (blockBy 0 "alice"), .block (blockBy 0 "bob")], 0, blockBy 0 "alice",
    blockBy 0 "bob", by decide, by decide, by decide, by decide,
    .block (blockBy 0 "bob"), by decide, ?_⟩
  unfold SameAnswer
  decide

end CeruleanLedger.StoreAgreement
