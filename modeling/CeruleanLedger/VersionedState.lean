import CeruleanLedger.ByteCodec
import CeruleanLedger.OrderedMap

/-!
The versioned world state of `storage/world_state.rs` in its two
implementations: the in-memory map with its history, and the RocksDB column
family of `storage/adapters.rs`. Versions are `u64` and wrap. A put or delete
is one atomic step; the database is taken to answer, so nothing here fails.
History timestamps come from a clock read for a key and an entry number.
-/

namespace CeruleanLedger.VersionedState

open ByteCodec
open OrderedMap

structure VersionedValue where
  version : UInt64
  data : Bytes
  deriving DecidableEq

structure HistoryEntry where
  version : UInt64
  data : Bytes
  txId : String
  timestamp : UInt64
  isDelete : Bool
  deriving DecidableEq

structure MemoryWorldState where
  inner : Std.ExtTreeMap String VersionedValue
  history : Std.ExtTreeMap String (List HistoryEntry)

/-- `keyHistory` is what the key-history column family answers for a key;
neither `world_state_put` nor `delete` writes to it. -/
structure RocksDbWorldState where
  inner : Std.ExtTreeMap String VersionedValue
  keyHistory : String → List HistoryEntry

inductive WorldState where
  | memory (state : MemoryWorldState)
  | rocksDb (state : RocksDbWorldState)

abbrev Clock := String → Nat → UInt64

def nextVersion (inner : Std.ExtTreeMap String VersionedValue) (key : String) : UInt64 :=
  (inner[key]?.map fun value => value.version + 1).getD 1

def MemoryWorldState.record (clock : Clock) (state : MemoryWorldState) (key : String)
    (data : Bytes) (isDelete : Bool) : Std.ExtTreeMap String (List HistoryEntry) :=
  let entries := (state.history[key]?).getD []
  state.history.insert key (entries ++ [{
    version := nextVersion state.inner key, data, txId := ""
    timestamp := clock key entries.length, isDelete }])

def MemoryWorldState.put (clock : Clock) (state : MemoryWorldState) (key : String)
    (data : Bytes) : MemoryWorldState :=
  { inner := state.inner.insert key ⟨nextVersion state.inner key, data⟩
    history := state.record clock key data false }

def MemoryWorldState.delete (clock : Clock) (state : MemoryWorldState) (key : String) :
    MemoryWorldState :=
  { inner := state.inner.erase key, history := state.record clock key [] true }

def RocksDbWorldState.worldStatePut (state : RocksDbWorldState) (key : String)
    (data : Bytes) : RocksDbWorldState :=
  { state with inner := state.inner.insert key ⟨nextVersion state.inner key, data⟩ }

def RocksDbWorldState.delete (state : RocksDbWorldState) (key : String) : RocksDbWorldState :=
  { state with inner := state.inner.erase key }

/-- Keys are ordered as their UTF-8 bytes, which is the order of `String`. -/
def inRange (start stop key : String) : Bool := !decide (key < start) && decide (key < stop)

/-- `BTreeMap::range` panics on a start beyond the end, which is `none`. -/
def MemoryWorldState.getRange (state : MemoryWorldState) (start stop : String) :
    Option (List (String × VersionedValue)) :=
  if stop < start then none
  else some (state.inner.toList.filter fun entry => inRange start stop entry.1)

/-- The iterator starts at the first key from `start` and stops before `stop`. -/
def RocksDbWorldState.getRange (state : RocksDbWorldState) (start stop : String) :
    List (String × VersionedValue) :=
  (state.inner.toList.filter fun entry => !decide (entry.1 < start)).takeWhile fun entry =>
    decide (entry.1 < stop)

namespace WorldState

variable (clock : Clock)

def new : WorldState := .memory ⟨∅, ∅⟩

def inner : WorldState → Std.ExtTreeMap String VersionedValue
  | .memory state => state.inner
  | .rocksDb state => state.inner

def get (state : WorldState) (key : String) : Option VersionedValue := state.inner[key]?

def put : WorldState → String → Bytes → WorldState
  | .memory state, key, data => .memory (state.put clock key data)
  | .rocksDb state, key, data => .rocksDb (state.worldStatePut key data)

def delete : WorldState → String → WorldState
  | .memory state, key => .memory (state.delete clock key)
  | .rocksDb state, key => .rocksDb (state.delete key)

def getHistory : WorldState → String → List HistoryEntry
  | .memory state, key => (state.history[key]?).getD []
  | .rocksDb state, key => state.keyHistory key

def getRange : WorldState → String → String → Option (List (String × VersionedValue))
  | .memory state, start, stop => state.getRange start stop
  | .rocksDb state, start, stop => some (state.getRange start stop)

def versionOf (state : WorldState) (key : String) : UInt64 :=
  ((state.get key).map VersionedValue.version).getD 0

def dataOf (state : WorldState) (key : String) : Option Bytes :=
  (state.get key).map VersionedValue.data

variable (state : WorldState) (key : String)

@[simp] theorem inner_put (data : Bytes) :
    (state.put clock key data).inner =
      state.inner.insert key ⟨nextVersion state.inner key, data⟩ := by
  cases state <;> rfl

@[simp] theorem inner_delete : (state.delete clock key).inner = state.inner.erase key := by
  cases state <;> rfl

theorem next_version_eq : nextVersion state.inner key = state.versionOf key + 1 := by
  unfold nextVersion versionOf get
  cases state.inner[key]? with
  | none => rfl
  | some value => rfl

theorem get_put (other : String) (data : Bytes) :
    (state.put clock key data).get other =
      if key = other then some ⟨state.versionOf key + 1, data⟩ else state.get other := by
  simp only [get, inner_put, get_insert, next_version_eq]

theorem get_put_of_ne {key other : String} (data : Bytes) (apart : key ≠ other) :
    (state.put clock key data).get other = state.get other := by
  rw [get_put, if_neg apart]

theorem get_delete (other : String) :
    (state.delete clock key).get other = if key = other then none else state.get other := by
  simp only [get, inner_delete, get_erase]

end WorldState

theorem next_version_insert_of_ne (inner : Std.ExtTreeMap String VersionedValue)
    {key other : String} (value : VersionedValue) (apart : key ≠ other) :
    nextVersion (inner.insert key value) other = nextVersion inner other := by
  simp [nextVersion, Std.ExtTreeMap.getElem?_insert, apart]

theorem insert_comm {Value : Type} (inner : Std.ExtTreeMap String Value) {key other : String}
    (value value' : Value) (apart : key ≠ other) :
    (inner.insert key value).insert other value' =
      (inner.insert other value').insert key value := by
  apply Std.ExtTreeMap.ext_getElem?
  intro probe
  simp only [get_insert]
  by_cases first : key = probe
  · have second : other ≠ probe := fun same => apart (first.trans same.symm)
    simp [first, second]
  · simp [first]

theorem put_comm (clock : Clock) (state : WorldState) {key other : String}
    (data data' : Bytes) (apart : key ≠ other) :
    (state.put clock key data).put clock other data' =
      (state.put clock other data').put clock key data := by
  have inners := insert_comm state.inner ⟨nextVersion state.inner key, data⟩
    ⟨nextVersion state.inner other, data'⟩ apart
  have keyKept := next_version_insert_of_ne state.inner
    ⟨nextVersion state.inner other, data'⟩ apart.symm
  have otherKept := next_version_insert_of_ne state.inner
    ⟨nextVersion state.inner key, data⟩ apart
  cases state with
  | rocksDb inside =>
    simp only [WorldState.inner] at inners keyKept otherKept
    simp only [WorldState.put, RocksDbWorldState.worldStatePut, keyKept, otherKept, inners]
  | memory inside =>
    simp only [WorldState.inner] at inners keyKept otherKept
    simp only [WorldState.put, MemoryWorldState.put, MemoryWorldState.record, keyKept,
      otherKept, inners, get_insert, apart, apart.symm, ↓reduceIte]
    rw [insert_comm _ _ _ apart]

end CeruleanLedger.VersionedState
