import CeruleanLedger.PaddedNumerals

/-!
The Raft log as an ordering node keeps it: in memory, where the consensus core
reads it, and in a database from which a restarted node recovers it. A node
hands every batch of the core to both. The consensus core itself is not part of
the model: what it makes ready arrives as an argument. Database operations
succeed, and records are decoded as they were encoded.
-/

namespace CeruleanLedger.RaftStorage

open ByteCodec
open PaddedNumerals

structure Entry where
  term : UInt64
  index : UInt64
  data : List UInt8 := []
  deriving DecidableEq, Repr

structure HardState where
  term : UInt64 := 0
  vote : UInt64 := 0
  commit : UInt64 := 0
  deriving DecidableEq, Repr

structure ConfState where
  voters : List UInt64 := []
  deriving DecidableEq, Repr

inductive Record
  | hardState (state : HardState)
  | confState (state : ConfState)
  | entry (entry : Entry)
  deriving DecidableEq, Repr

abbrev Database := Std.ExtTreeMap String Record

inductive StorageError
  | compacted
  deriving DecidableEq, Repr

def keyHardState : String := "hardstate"

def keyConfState : String := "confstate"

def entryKey (index : UInt64) : String := "entry:" ++ zeroPadded 20 index

def indexOfKey (key : String) : Option UInt64 :=
  if "entry:".toList.isPrefixOf key.toList then
    parseU64 (String.ofList (key.toList.drop "entry:".toList.length))
  else none

structure RocksDbRaftStorage where
  db : Database
  firstIndex : UInt64

namespace RocksDbRaftStorage

def new (db : Database) : RocksDbRaftStorage where
  db := db
  firstIndex := (db.toList.findSome? fun record => indexOfKey record.1).getD 1

def putHardState (storage : RocksDbRaftStorage) (state : HardState) : RocksDbRaftStorage :=
  { storage with db := storage.db.insert keyHardState (.hardState state) }

def putConfState (storage : RocksDbRaftStorage) (state : ConfState) : RocksDbRaftStorage :=
  { storage with db := storage.db.insert keyConfState (.confState state) }

def getHardState (storage : RocksDbRaftStorage) : HardState :=
  match storage.db[keyHardState]? with
  | some (.hardState state) => state
  | _ => {}

def getConfState (storage : RocksDbRaftStorage) : ConfState :=
  match storage.db[keyConfState]? with
  | some (.confState state) => state
  | _ => {}

def initializeWith (storage : RocksDbRaftStorage) (state : ConfState) : RocksDbRaftStorage :=
  if storage.db[keyHardState]?.isSome then storage
  else (storage.putHardState {}).putConfState state

/-- One write batch; nothing is deleted, also behind the batch. -/
def appendEntries (storage : RocksDbRaftStorage) (entries : List Entry) : RocksDbRaftStorage :=
  { storage with
    db := entries.foldl (fun db entry => db.insert (entryKey entry.index) (.entry entry))
      storage.db }

def setHardstate (storage : RocksDbRaftStorage) (state : HardState) : RocksDbRaftStorage :=
  storage.putHardState state

/-- Only entries are stored under entry keys, so decoding has no error path. -/
def getEntry (storage : RocksDbRaftStorage) (index : UInt64) : Option Entry :=
  match storage.db[entryKey index]? with
  | some (.entry entry) => some entry
  | _ => none

def lastIndexInner (storage : RocksDbRaftStorage) : UInt64 :=
  (storage.db.toList.reverse.findSome? fun record => indexOfKey record.1).getD 0

def lastIndex (storage : RocksDbRaftStorage) : UInt64 :=
  let last := storage.lastIndexInner
  if last = 0 then
    if storage.firstIndex > 0 then storage.firstIndex - 1 else 0
  else last

variable (encodedLen : Entry → Nat)

/-- The loop of `entries`: up to `count` entries from `index` on, ending at the
first gap and once the limit on their encoded size is reached. -/
def readFrom (storage : RocksDbRaftStorage) (limit : Option UInt64) :
    Nat → UInt64 → Nat → List Entry
  | 0, _, _ => []
  | count + 1, index, size =>
    match storage.getEntry index with
    | none => []
    | some entry =>
      let size := size + encodedLen entry
      -- Without a limit the source takes `u64::MAX`, more than any memory holds.
      if limit.any fun max => max.toNat ≤ size then [entry]
      else entry :: storage.readFrom limit count (index + 1) size

def entries (storage : RocksDbRaftStorage) (low high : UInt64) (maxSize : Option UInt64) :
    Except StorageError (List Entry) :=
  if low < storage.firstIndex then .error .compacted
  else .ok (storage.readFrom encodedLen maxSize (high.toNat - low.toNat) low 0)

end RocksDbRaftStorage

structure MemStorage where
  entries : List Entry := []
  hardState : HardState := {}
  confState : ConfState := {}
  deriving DecidableEq, Repr

namespace MemStorage

def newWithConfState (state : ConfState) : MemStorage := { confState := state }

def setHardstate (storage : MemStorage) (state : HardState) : MemStorage :=
  { storage with hardState := state }

def firstIndex (storage : MemStorage) : UInt64 :=
  match storage.entries.head? with
  | some entry => entry.index
  | none => 1

def lastIndex (storage : MemStorage) : UInt64 :=
  match storage.entries.getLast? with
  | some entry => entry.index
  | none => 0

/-- A batch that would leave a gap or starts before the log panics; any other
one replaces everything from its first index on. -/
def append (storage : MemStorage) : List Entry → Option MemStorage
  | [] => some storage
  | first :: rest =>
    if first.index < storage.firstIndex then none
    else if storage.lastIndex.toNat + 1 < first.index.toNat then none
    else
      let diff := (first.index - storage.firstIndex).toNat
      some { storage with entries := storage.entries.take diff ++ first :: rest }

def slice (storage : MemStorage) (low high : UInt64) : List Entry :=
  let offset := storage.firstIndex.toNat
  (storage.entries.drop (low.toNat - offset)).take (high.toNat - low.toNat)

end MemStorage

/-- What the core hands to one call of `advance`: the new entries, a changed hard
state, the hard state with the commit index the light ready moved, and the
core's hard state at the end. -/
structure Ready where
  entries : List Entry
  hs : Option HardState
  light : Option HardState
  hardState : HardState
  deriving DecidableEq, Repr

structure RaftNode where
  store : MemStorage
  persistentStorage : RocksDbRaftStorage

namespace RaftNode

/-- Recovery of the log and the states a database holds; a new database is
initialised with the peers as voters. Nothing on an error or a panic. -/
def newPersistent (encodedLen : Entry → Nat) (peers : List UInt64) (db : Database) :
    Option RaftNode :=
  let persistent := (RocksDbRaftStorage.new db).initializeWith { voters := peers }
  let mem := (MemStorage.newWithConfState persistent.getConfState).setHardstate
    persistent.getHardState
  let first := persistent.firstIndex
  let last := persistent.lastIndex
  if first ≤ last then
    match persistent.entries encodedLen first (last + 1) none with
    | .error _ => none
    | .ok entries => (mem.append entries).map fun store => ⟨store, persistent⟩
  else some ⟨mem, persistent⟩

def advance (node : RaftNode) (ready : Ready) : Option RaftNode :=
  (node.store.append ready.entries).map fun store =>
    let store := (ready.hs.map store.setHardstate).getD store
    let store := (ready.light.map store.setHardstate).getD store
    let persistent := node.persistentStorage.appendEntries ready.entries
    ⟨store, persistent.setHardstate ready.hardState⟩

def run (node : RaftNode) : List Ready → Option RaftNode
  | [] => some node
  | ready :: rest => (node.advance ready).bind fun next => next.run rest

end RaftNode

/-- The storage reads back the log of the memory: its bounds, and every range of
entries between them. -/
structure SameLog (encodedLen : Entry → Nat) (storage : RocksDbRaftStorage)
    (mem : MemStorage) : Prop where
  first : storage.firstIndex = mem.firstIndex
  last : storage.lastIndex = mem.lastIndex
  entries : ∀ low high : UInt64, mem.firstIndex ≤ low → low ≤ high →
    high.toNat ≤ mem.lastIndex.toNat + 1 →
    storage.entries encodedLen low high none = .ok (mem.slice low high)

theorem index_of_entry_key (index : UInt64) : indexOfKey (entryKey index) = some index := by
  have split : (entryKey index).toList = "entry:".toList ++ (zeroPadded 20 index).toList :=
    String.toList_append
  rw [indexOfKey, split, if_pos (List.isPrefixOf_iff_prefix.mpr (List.prefix_append _ _)),
    List.drop_left, String.ofList_toList, parse_padded]

theorem entry_key_injective : Function.Injective entryKey := by
  intro left right same
  have indices := congrArg indexOfKey same
  rw [index_of_entry_key, index_of_entry_key] at indices
  exact Option.some.inj indices

theorem entry_key_lt_iff (left right : UInt64) :
    entryKey left < entryKey right ↔ left < right := by
  rw [← padded_lt_iff, String.lt_iff_toList_lt, String.lt_iff_toList_lt, entryKey, entryKey,
    String.toList_append, String.toList_append]
  simp

theorem index_of_hard_state_key : indexOfKey keyHardState = none := by decide

theorem index_of_conf_state_key : indexOfKey keyConfState = none := by decide

theorem entry_key_ne {key : String} (other : indexOfKey key = none) (index : UInt64) :
    entryKey index ≠ key := by
  rintro rfl
  rw [index_of_entry_key] at other
  cases other

end CeruleanLedger.RaftStorage
