import CeruleanLedger.EndorsementCheck

/-!
The block part of `storage/traits.rs` with its two implementations:
`MemoryStore` of `storage/memory.rs` and `RocksDbBlockStore` of
`storage/adapters.rs`. JSON coding of a block is taken to round-trip, so a
column family is a map from heights to blocks. A RocksDB operation may also
fail for reasons outside the program; such a fault is an argument here.
-/

namespace CeruleanLedger.BlockStore

open ByteCodec EndorsementCheck

inductive HashAlgorithm where
  | sha256
  | sha3
  deriving DecidableEq, Repr

structure Block where
  height : UInt64
  timestamp : UInt64
  parentHash : Hash32
  merkleRoot : Hash32
  transactions : List String
  proposer : String
  signature : Bytes
  signatureAlgorithm : SigningAlgorithm
  endorsements : List Endorsement
  secondarySignature : Option Bytes
  secondarySignatureAlgorithm : Option SigningAlgorithm
  hashAlgorithm : HashAlgorithm
  ordererSignature : Option Bytes
  deriving DecidableEq

structure Transaction where
  id : String
  blockHeight : UInt64
  timestamp : UInt64
  inputDid : String
  outputRecipient : String
  amount : UInt64
  state : String
  deriving DecidableEq

inductive StorageError where
  | rocksDbError (reason : String)
  | keyNotFound (key : String)
  | batchOperationFailed (reason : String)
  | other (reason : String)
  deriving DecidableEq

def StorageError.display : StorageError → String
  | .rocksDbError reason => "RocksDB error: " ++ reason
  | .keyNotFound key => "Key not found: " ++ key
  | .batchOperationFailed reason => "Batch operation failed: " ++ reason
  | .other reason => "Storage error: " ++ reason

structure MemoryStore where
  blocks : Std.ExtTreeMap UInt64 Block
  transactions : Std.ExtTreeMap String Transaction
  latestHeight : UInt64
  deriving DecidableEq

def MemoryStore.new : MemoryStore := ⟨∅, ∅, 0⟩

def MemoryStore.writeBlock (store : MemoryStore) (block : Block) :
    Except StorageError MemoryStore :=
  if store.blocks.contains block.height then
    .error (.other ("block at height " ++ toString block.height ++ " already committed"))
  else
    .ok { store with
      latestHeight :=
        if block.height > store.latestHeight then block.height else store.latestHeight
      blocks := store.blocks.insert block.height block }

namespace MemoryStore

def readBlock (store : MemoryStore) (height : UInt64) : Except StorageError Block :=
  match store.blocks[height]? with
  | some block => .ok block
  | none => .error (.keyNotFound ("BLK:" ++ zeroPadded 12 height))

def blockExists (store : MemoryStore) (height : UInt64) : Bool := store.blocks.contains height

def writeTransaction (store : MemoryStore) (tx : Transaction) : MemoryStore :=
  { store with transactions := store.transactions.insert tx.id tx }

/-- The block loop of `write_batch`: what was written before a refused block
stays written. -/
def writeBlocks (store : MemoryStore) : List Block → MemoryStore × Except StorageError Unit
  | [] => (store, .ok ())
  | block :: rest =>
    match store.writeBlock block with
    | .error reason => (store, .error reason)
    | .ok store => writeBlocks store rest

def writeBatch (store : MemoryStore) (blocks : List Block) (txs : List Transaction) :
    MemoryStore × Except StorageError Unit :=
  if blocks.isEmpty && txs.isEmpty then (store, .error (.batchOperationFailed "Empty batch"))
  else match store.writeBlocks blocks with
    | (store, .error reason) => (store, .error reason)
    | (store, .ok ()) => (txs.foldl writeTransaction store, .ok ())

end MemoryStore

structure RocksDbBlockStore where
  blocks : Std.ExtTreeMap UInt64 Block
  transactions : Std.ExtTreeMap String Transaction
  /-- `META_LATEST_HEIGHT`, absent in a fresh database. -/
  latestHeight : Option UInt64
  deriving DecidableEq

def RocksDbBlockStore.new : RocksDbBlockStore := ⟨∅, ∅, none⟩

/-- The batch puts the block whether or not the height was present. -/
def RocksDbBlockStore.writeBlock (store : RocksDbBlockStore) (fault : Option String)
    (block : Block) : Except StorageError RocksDbBlockStore :=
  match fault with
  | some reason => .error (.rocksDbError reason)
  | none =>
    .ok { store with
      latestHeight :=
        if block.height ≥ store.latestHeight.getD 0 then some block.height
        else store.latestHeight
      blocks := store.blocks.insert block.height block }

namespace RocksDbBlockStore

def readBlock (store : RocksDbBlockStore) (height : UInt64) : Except StorageError Block :=
  match store.blocks[height]? with
  | some block => .ok block
  | none => .error (.keyNotFound ("block:" ++ toString height))

def blockExists (store : RocksDbBlockStore) (height : UInt64) : Bool :=
  store.blocks.contains height

def getLatestHeight (store : RocksDbBlockStore) : UInt64 := store.latestHeight.getD 0

def newLatest (latest : UInt64) (blocks : List Block) : UInt64 :=
  blocks.foldl (fun latest block => if block.height > latest then block.height else latest) latest

/-- One database batch: all puts are applied or none is. -/
def writeBatch (store : RocksDbBlockStore) (fault : Option String) (blocks : List Block)
    (txs : List Transaction) : Except StorageError RocksDbBlockStore :=
  if blocks.isEmpty && txs.isEmpty then .error (.batchOperationFailed "Empty batch")
  else match fault with
    | some reason => .error (.rocksDbError reason)
    | none =>
      .ok {
        blocks := blocks.foldl (fun stored block => stored.insert block.height block) store.blocks
        transactions :=
          txs.foldl (fun stored tx => stored.insert tx.id tx) store.transactions
        latestHeight :=
          if newLatest store.getLatestHeight blocks > store.getLatestHeight then
            some (newLatest store.getLatestHeight blocks)
          else store.latestHeight }

end RocksDbBlockStore

inductive Store where
  | memory (store : MemoryStore)
  | rocksDb (store : RocksDbBlockStore)
  deriving DecidableEq

namespace Store

def blocks : Store → Std.ExtTreeMap UInt64 Block
  | .memory store => store.blocks
  | .rocksDb store => store.blocks

def writeBlock (fault : Option String) : Store → Block → Except StorageError Store
  | .memory store, block =>
    match store.writeBlock block with
    | .error reason => .error reason
    | .ok store => .ok (.memory store)
  | .rocksDb store, block =>
    match store.writeBlock fault block with
    | .error reason => .error reason
    | .ok store => .ok (.rocksDb store)

def getLatestHeight : Store → UInt64
  | .memory store => store.latestHeight
  | .rocksDb store => store.latestHeight.getD 0

def writeTransaction : Store → Transaction → Store
  | .memory store, tx =>
    .memory { store with transactions := store.transactions.insert tx.id tx }
  | .rocksDb store, tx =>
    .rocksDb { store with transactions := store.transactions.insert tx.id tx }

def readTransaction : Store → String → Option Transaction
  | .memory store, id => store.transactions[id]?
  | .rocksDb store, id => store.transactions[id]?

inductive Written (block : Block) : Store → Store → Prop where
  | memory (inner : MemoryStore) (latestHeight : UInt64)
      (free : inner.blocks[block.height]? = none) :
      Written block (.memory inner) (.memory { inner with
        blocks := inner.blocks.insert block.height block, latestHeight })
  | rocksDb (inner : RocksDbBlockStore) (latestHeight : Option UInt64) :
      Written block (.rocksDb inner) (.rocksDb { inner with
        blocks := inner.blocks.insert block.height block, latestHeight })

variable {fault : Option String} {store after : Store} {block : Block}

theorem write_block_written (written : store.writeBlock fault block = .ok after) :
    Written block store after := by
  cases store with
  | memory inner =>
    simp only [writeBlock, MemoryStore.writeBlock] at written
    by_cases present : inner.blocks.contains block.height
    · simp [present] at written
    · simp only [present, Bool.false_eq_true, ↓reduceIte, Except.ok.injEq] at written
      subst written
      exact .memory inner _ (by simpa using present)
  | rocksDb inner =>
    cases fault with
    | some reason => simp [writeBlock, RocksDbBlockStore.writeBlock] at written
    | none =>
      simp only [writeBlock, RocksDbBlockStore.writeBlock, Except.ok.injEq] at written
      subst written
      exact .rocksDb inner _

/-- A successful write adds exactly the given block, and the memory store
accepts it only at a free height. -/
theorem write_block_ok (written : store.writeBlock fault block = .ok after) :
    after.blocks = store.blocks.insert block.height block ∧
      ((∃ inner, store = .memory inner) → store.blocks[block.height]? = none) := by
  cases write_block_written written with
  | memory inner latestHeight free => exact ⟨rfl, fun _ => free⟩
  | rocksDb inner latestHeight => exact ⟨rfl, by rintro ⟨_, same⟩; cases same⟩

theorem write_block_reads (written : store.writeBlock fault block = .ok after) (id : String) :
    after.readTransaction id = store.readTransaction id := by
  cases write_block_written written with
  | memory => rfl
  | rocksDb => rfl

end Store

end CeruleanLedger.BlockStore
