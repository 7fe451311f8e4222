import CeruleanLedger.ByteCodec
import CeruleanLedger.OrderedMap

/-!
The private data kept in memory (`private_data/mod.rs`): values and lifetimes lie in two maps,
and a write without a lifetime leaves the one on record. Heights are `u64` and wrap, as in a
release build; the locks are never poisoned.
-/

namespace CeruleanLedger.PrivateData

open ByteCodec OrderedMap

abbrev Key := String × String

structure MemoryPrivateDataStore where
  data : Std.ExtTreeMap Key Bytes comparePair
  ttl : Std.ExtTreeMap Key (UInt64 × UInt64) comparePair

namespace MemoryPrivateDataStore

def new : MemoryPrivateDataStore := ⟨∅, ∅⟩

variable (sha256 : Bytes → Hash32)

def putPrivateData (store : MemoryPrivateDataStore) (collection key : String) (value : Bytes) :
    MemoryPrivateDataStore × Hash32 :=
  ({ store with data := store.data.insert (collection, key) value }, sha256 value)

def putPrivateDataAt (store : MemoryPrivateDataStore) (collection key : String) (value : Bytes)
    (writtenAt blocksToLive : UInt64) : MemoryPrivateDataStore × Hash32 :=
  let (written, hash) := store.putPrivateData sha256 collection key value
  if 0 < blocksToLive then
    ({ written with ttl := written.ttl.insert (collection, key) (writtenAt, blocksToLive) }, hash)
  else (written, hash)

def getPrivateData (store : MemoryPrivateDataStore) (collection key : String) : Option Bytes :=
  store.data[(collection, key)]?

def expired (store : MemoryPrivateDataStore) (currentHeight : UInt64) : List Key :=
  (store.ttl.toList.filter fun (_, writtenAt, blocksToLive) =>
    writtenAt + blocksToLive ≤ currentHeight).map Prod.fst

def purgeExpired (store : MemoryPrivateDataStore) (currentHeight : UInt64) :
    MemoryPrivateDataStore :=
  let expired := store.expired currentHeight
  if expired.isEmpty then store
  else ⟨expired.foldl (·.erase ·) store.data, expired.foldl (·.erase ·) store.ttl⟩

end MemoryPrivateDataStore

inductive Operation where
  | put (collection key : String) (value : Bytes)
  | putAt (collection key : String) (value : Bytes) (writtenAt blocksToLive : UInt64)
  | purge (height : UInt64)

namespace Operation

def target : Operation → Option Key
  | .put collection key _ => some (collection, key)
  | .putAt collection key .. => some (collection, key)
  | .purge _ => none

/-- A purge at this height or a later one, which no arithmetic of the store decides. -/
def reaches (expiry : Nat) : Operation → Bool
  | .purge height => expiry ≤ height.toNat
  | _ => false

/-- A purge that takes a key with this record. -/
def purges (record : Option (UInt64 × UInt64)) : Operation → Bool
  | .purge height => record.any fun (writtenAt, blocksToLive) => writtenAt + blocksToLive ≤ height
  | _ => false

end Operation

namespace MemoryPrivateDataStore

variable (sha256 : Bytes → Hash32)

def perform (store : MemoryPrivateDataStore) : Operation → MemoryPrivateDataStore
  | .put collection key value => (store.putPrivateData sha256 collection key value).1
  | .putAt collection key value writtenAt blocksToLive =>
    (store.putPrivateDataAt sha256 collection key value writtenAt blocksToLive).1
  | .purge height => store.purgeExpired height

variable {sha256} {store : MemoryPrivateDataStore} {key : Key}

theorem mem_expired {height : UInt64} :
    key ∈ store.expired height ↔ (Operation.purge height).purges store.ttl[key]? = true := by
  rw [Operation.purges, Option.any_eq_true]
  constructor
  · intro member
    obtain ⟨⟨_, record⟩, kept, rfl⟩ := List.mem_map.mp member
    obtain ⟨listed, due⟩ := List.mem_filter.mp kept
    exact ⟨record, Std.ExtTreeMap.mem_toList_iff_getElem?_eq_some.mp listed, due⟩
  · rintro ⟨record, found, due⟩
    exact List.mem_map.mpr ⟨(key, record), List.mem_filter.mpr
      ⟨Std.ExtTreeMap.mem_toList_iff_getElem?_eq_some.mpr found, due⟩, rfl⟩

theorem purge_get (height : UInt64) :
    (store.purgeExpired height).data[key]? =
      (if (Operation.purge height).purges store.ttl[key]? then none else store.data[key]?) ∧
    (store.purgeExpired height).ttl[key]? =
      (if (Operation.purge height).purges store.ttl[key]? then none else store.ttl[key]?) := by
  simp only [← mem_expired]
  by_cases none_due : (store.expired height).isEmpty
  · simp [purgeExpired, List.isEmpty_iff.mp none_due]
  · simp [purgeExpired, none_due, get_erase_all]

variable (sha256) in
/-- Until its next write, a key is lost to the first purge that finds its record expired. -/
theorem later_get (later : List Operation) (unwritten : ∀ operation ∈ later,
    operation.target ≠ some key) (store : MemoryPrivateDataStore) :
    (later.foldl (perform sha256) store).data[key]? =
      if later.any (Operation.purges store.ttl[key]?) then none else store.data[key]? := by
  induction later generalizing store with
  | nil => rfl
  | cons operation rest ih =>
    obtain ⟨here, unwritten⟩ := List.forall_mem_cons.mp unwritten
    rw [List.foldl_cons, ih unwritten, List.any_cons]
    cases operation with
    | put collection name value =>
      have apart : (collection, name) ≠ key := fun same => here (congrArg some same)
      simp [perform, putPrivateData, get_insert, apart, Operation.purges]
    | putAt collection name value writtenAt blocksToLive =>
      have apart : (collection, name) ≠ key := fun same => here (congrArg some same)
      unfold perform putPrivateDataAt
      dsimp only
      split <;> simp [putPrivateData, get_insert, apart, Operation.purges]
    | purge height =>
      obtain ⟨values, records⟩ := @purge_get store key height
      rw [perform, values, records]
      cases (Operation.purge height).purges store.ttl[key]? <;> simp

variable (sha256 store) in
theorem write_get {write : Operation} {collection name : String} {value : Bytes}
    {writtenAt blocksToLive : UInt64}
    (writes : write = .putAt collection name value writtenAt blocksToLive ∨
      write = .put collection name value ∧ blocksToLive = 0) :
    (store.perform sha256 write).data[(collection, name)]? = some value ∧
    (store.perform sha256 write).ttl[(collection, name)]? =
      if 0 < blocksToLive then some (writtenAt, blocksToLive)
      else store.ttl[(collection, name)]? := by
  rcases writes with rfl | ⟨rfl, rfl⟩
  · unfold perform putPrivateDataAt
    dsimp only
    split <;> simp [putPrivateData]
  · simp [perform, putPrivateData]

theorem wrapped_reach (record : UInt64 × UInt64) (later : List Operation)
    (small : record.1.toNat + record.2.toNat < 2 ^ 64) :
    later.any (Operation.purges (some record)) =
      later.any (Operation.reaches (record.1.toNat + record.2.toNat)) := by
  congr 1
  funext operation
  cases operation with
  | purge height =>
    simp only [Operation.purges, Operation.reaches, Option.any_some, UInt64.le_iff_toNat_le,
      UInt64.toNat_add, Nat.mod_eq_of_lt small]
  | _ => rfl

theorem never_reached (expiry : Nat) (later : List Operation) (large : 2 ^ 64 ≤ expiry) :
    later.any (Operation.reaches expiry) = false := by
  rw [List.any_eq_false]
  intro operation _
  cases operation with
  | purge height =>
    have := height.toNat_lt
    simp only [Operation.reaches, decide_eq_true_eq]
    omega
  | _ => simp [Operation.reaches]

/-- The latest write is answered as it asked exactly if, where it sets a lifetime, the end is
below 2^64 or not taken for an earlier one, and, where it sets none, no purge finds the record
of an earlier write expired. -/
theorem lifetime_exact_iff (sha256 : Bytes → Hash32) (earlier later : List Operation)
    (write : Operation) (collection name : String) (value : Bytes)
    (writtenAt blocksToLive : UInt64)
    (writes : write = .putAt collection name value writtenAt blocksToLive ∨
      write = .put collection name value ∧ blocksToLive = 0)
    (latest : ∀ operation ∈ later, operation.target ≠ some (collection, name)) :
    let before := earlier.foldl (perform sha256) new
    let after := (earlier ++ write :: later).foldl (perform sha256) new
    let expiry := writtenAt.toNat + blocksToLive.toNat
    after.getPrivateData collection name =
        (if 0 < blocksToLive ∧ later.any (Operation.reaches expiry) then none else some value) ↔
      if 0 < blocksToLive then
        expiry < 2 ^ 64 ∨ later.any (Operation.purges (some (writtenAt, blocksToLive))) = false
      else later.any (Operation.purges before.ttl[(collection, name)]?) = false := by
  intro before after expiry
  obtain ⟨stored, recorded⟩ := write_get sha256 before writes
  have answer : after.getPrivateData collection name =
      if later.any (Operation.purges (before.perform sha256 write).ttl[(collection, name)]?)
      then none else some value := by
    rw [getPrivateData, ← stored, ← later_get sha256 later latest]
    simp only [after, before, List.foldl_append, List.foldl_cons]
  rw [answer, recorded]
  split
  · next lives =>
    by_cases small : expiry < 2 ^ 64
    · rw [wrapped_reach _ later small]
      exact iff_of_true (by simp [lives, expiry]) (Or.inl small)
    · rw [never_reached expiry later (Nat.not_lt.mp small), or_iff_right small]
      simp
  · next forever => simp [forever]

def sameDigest (_ : Bytes) : Hash32 := Vector.replicate 32 0

theorem rewritten_value_kept :
    ([.putAt "c" "k" [1] 10 5, .putAt "c" "k" [2] 12 9, .purge 15].foldl (perform sameDigest)
      new).getPrivateData "c" "k" = some [2] :=
  (lifetime_exact_iff sameDigest [.putAt "c" "k" [1] 10 5] [.purge 15] _ "c" "k" [2] 12 9
    (Or.inl rfl) (by decide)).mpr (by decide +kernel)

/-- A value written for good dies with the lifetime of the one before it, and a lifetime past
the largest height has ended at once. -/
theorem stale_lifetime_purged :
    ([.putAt "c" "k" [1] 10 5, .put "c" "k" [2], .purge 15].foldl (perform sameDigest)
      new).getPrivateData "c" "k" = none ∧
    ([.putAt "c" "k" [1] 10 18446744073709551610, .purge 11].foldl (perform sameDigest)
      new).getPrivateData "c" "k" = none := by
  decide +kernel

end MemoryPrivateDataStore

end CeruleanLedger.PrivateData
