import CeruleanLedger.BlockStore
import CeruleanLedger.IterationOrder
import CeruleanLedger.KeyPrefixes
import CeruleanLedger.OrderedMap
import CeruleanLedger.PaddedNumerals

/-!
The index of transactions by block height in `storage/adapters.rs`. A write puts the transaction
at its id and an index row at its height; the row of an earlier write with another height stays.
Rows are in the order of their keys.
-/

namespace CeruleanLedger.HeightIndex

open BlockStore ByteCodec IterationOrder KeyPrefixes OrderedMap PaddedNumerals

/-- The store with the column family of the index; its values are empty. -/
structure IndexedStore extends RocksDbBlockStore where
  txByBlock : Std.ExtTreeMap String Unit

def IndexedStore.new : IndexedStore := ⟨.new, ∅⟩

def txBlockPrefix (height : UInt64) : String := zeroPadded 12 height ++ ":"

def txBlockIndexKey (height : UInt64) (txId : String) : String :=
  zeroPadded 12 height ++ ":" ++ txId

def indexedId (height : UInt64) (key : String) : String :=
  String.ofList (key.toList.drop (txBlockPrefix height).toList.length)

def indexed (rows : Std.ExtTreeMap String Unit) (tx : Transaction) : Std.ExtTreeMap String Unit :=
  rows.insert (txBlockIndexKey tx.blockHeight tx.id) ()

namespace IndexedStore

/-- Both puts are in one database batch. -/
def writeTransaction (store : IndexedStore) (fault : Option String) (tx : Transaction) :
    Except StorageError IndexedStore :=
  match fault with
  | some reason => .error (.rocksDbError reason)
  | none => .ok { store with
      transactions := store.transactions.insert tx.id tx
      txByBlock := indexed store.txByBlock tx }

def writeBatch (store : IndexedStore) (fault : Option String) (blocks : List Block)
    (txs : List Transaction) : Except StorageError IndexedStore :=
  match store.toRocksDbBlockStore.writeBatch fault blocks txs with
  | .error reason => .error reason
  | .ok after => .ok { after with txByBlock := txs.foldl indexed store.txByBlock }

def readIndexed (store : IndexedStore) (height : UInt64) (row : String × Unit) :
    Except StorageError Transaction :=
  let txId := indexedId height row.1
  match store.transactions[txId]? with
  | some tx => .ok tx
  | none => .error (.keyNotFound ("tx:" ++ txId))

def transactionsByBlockHeight (store : IndexedStore) (height : UInt64) :
    Except StorageError (List Transaction) :=
  (scan (txBlockPrefix height) store.txByBlock.toList).mapM (store.readIndexed height)

end IndexedStore

/-- The query of `MemoryStore`, which filters the transactions themselves. -/
def memoryTransactionsByBlockHeight (store : MemoryStore) (order : Arrangement Transaction)
    (height : UInt64) : List Transaction :=
  (order.arrange (store.transactions.toList.map Prod.snd)).filter (·.blockHeight = height)

/-- The query returns each of the stored transactions of the height once, as
`MemoryStore` does with the same transactions. -/
def Exact (store : IndexedStore) (height : UInt64) : Prop :=
  ∃ found, store.transactionsByBlockHeight height = .ok found ∧
    ∀ (memory : MemoryStore) (order : Arrangement Transaction),
      memory.transactions = store.transactions →
      found.Perm (memoryTransactionsByBlockHeight memory order height)

inductive WriteCall where
  | transaction (fault : Option String) (tx : Transaction)
  | batch (fault : Option String) (blocks : List Block) (txs : List Transaction)

def perform (store : IndexedStore) : WriteCall → Except StorageError IndexedStore
  | .transaction fault tx => store.writeTransaction fault tx
  | .batch fault blocks txs => store.writeBatch fault blocks txs

def apply (store : IndexedStore) (call : WriteCall) : IndexedStore :=
  match perform store call with
  | .ok after => after
  | .error _ => store

def written : WriteCall → List Transaction
  | .transaction none tx => [tx]
  | .batch none _ txs => txs
  | .transaction (some _) _ => []
  | .batch (some _) _ _ => []

structure Recorded (transactions : Std.ExtTreeMap String Transaction)
    (rows : Std.ExtTreeMap String Unit) (writes : List Transaction) : Prop where
  stored : ∀ id tx, transactions[id]? = some tx → tx ∈ writes ∧ tx.id = id
  present : ∀ tx ∈ writes, ∃ now, transactions[tx.id]? = some now
  listed : ∀ key, key ∈ rows ↔ ∃ tx ∈ writes, txBlockIndexKey tx.blockHeight tx.id = key

section Writes

variable {transactions : Std.ExtTreeMap String Transaction} {rows : Std.ExtTreeMap String Unit}
variable {writes : List Transaction}

theorem recorded_write (recorded : Recorded transactions rows writes) (tx : Transaction) :
    Recorded (transactions.insert tx.id tx) (indexed rows tx) (writes ++ [tx]) where
  stored := by
    intro id now found
    rw [get_insert] at found
    split at found
    · next same =>
      cases found
      exact ⟨List.mem_append_right _ List.mem_cons_self, same⟩
    · obtain ⟨member, same⟩ := recorded.stored id now found
      exact ⟨List.mem_append_left _ member, same⟩
  present := by
    intro other member
    rw [get_insert]
    split
    · exact ⟨tx, rfl⟩
    · next different =>
      rcases List.mem_append.mp member with earlier | last
      · exact recorded.present other earlier
      · rw [List.mem_singleton.mp last] at different
        exact absurd rfl different
  listed := by
    intro key
    simp only [indexed, Std.ExtTreeMap.mem_insert, Std.LawfulEqCmp.compare_eq_iff_eq,
      recorded.listed key, List.mem_append, List.mem_singleton, or_and_right, exists_or,
      exists_eq_left]
    exact or_comm

theorem recorded_writes (recorded : Recorded transactions rows writes)
    (txs : List Transaction) :
    Recorded (txs.foldl (fun stored tx => stored.insert tx.id tx) transactions)
      (txs.foldl indexed rows) (writes ++ txs) := by
  induction txs generalizing transactions rows writes with
  | nil => simpa using recorded
  | cons tx rest ih => simpa using ih (recorded_write recorded tx)

theorem recorded_call {store : IndexedStore}
    (recorded : Recorded store.transactions store.txByBlock writes) (call : WriteCall) :
    Recorded (apply store call).transactions (apply store call).txByBlock
      (writes ++ written call) := by
  have unchanged : Recorded store.transactions store.txByBlock (writes ++ []) := by
    simpa using recorded
  cases call with
  | transaction fault tx =>
    cases fault with
    | some reason => exact unchanged
    | none => exact recorded_write recorded tx
  | batch fault blocks txs =>
    by_cases empty : (blocks.isEmpty && txs.isEmpty) = true
    · have nothing : written (.batch fault blocks txs) = [] := by
        rw [Bool.and_eq_true, List.isEmpty_iff, List.isEmpty_iff] at empty
        cases fault with
        | some reason => rfl
        | none => exact empty.2
      rw [nothing]
      simp only [apply, perform, IndexedStore.writeBatch, RocksDbBlockStore.writeBatch,
        if_pos empty]
      exact unchanged
    · simp only [apply, perform, IndexedStore.writeBatch, RocksDbBlockStore.writeBatch,
        if_neg empty]
      cases fault with
      | some reason => exact unchanged
      | none => exact recorded_writes recorded txs

theorem recorded_run (calls : List WriteCall) :
    Recorded (calls.foldl apply .new).transactions (calls.foldl apply .new).txByBlock
      (calls.flatMap written) := by
  have along : ∀ (store : IndexedStore) (writes : List Transaction),
      Recorded store.transactions store.txByBlock writes →
      Recorded (calls.foldl apply store).transactions (calls.foldl apply store).txByBlock
        (writes ++ calls.flatMap written) := by
    induction calls with
    | nil =>
      intro store writes recorded
      simpa using recorded
    | cons call rest ih =>
      intro store writes recorded
      simpa using ih _ _ (recorded_call recorded call)
  apply along .new []
  exact
    { stored := fun id tx found => by simp [IndexedStore.new, RocksDbBlockStore.new] at found
      present := List.forall_mem_nil _
      listed := fun key => by simp [IndexedStore.new] }

end Writes

theorem colon_not_digit (height : UInt64) : ':' ∉ (zeroPadded 12 height).toList := by
  intro member
  exact absurd (padded_digits 12 height ':' member) (by decide)

theorem index_prefix_iff {height other : UInt64} {txId : String} :
    (txBlockPrefix height).toList <+: (txBlockIndexKey other txId).toList ↔ height = other := by
  have fields := @field_prefix_iff Char ':' (zeroPadded 12 height).toList
    (zeroPadded 12 other).toList [] txId.toList (colon_not_digit height) (colon_not_digit other)
  have padded : (zeroPadded 12 height).toList = (zeroPadded 12 other).toList ↔ height = other := by
    rw [String.toList_inj]
    constructor
    · intro same
      have parsed := congrArg parseU64 same
      rw [parse_padded, parse_padded] at parsed
      exact Option.some.inj parsed
    · rintro rfl
      rfl
  rw [padded] at fields
  simpa [txBlockPrefix, txBlockIndexKey] using fields

theorem indexed_id_key (height : UInt64) (txId : String) :
    indexedId height (txBlockIndexKey height txId) = txId := by
  have joined : (txBlockIndexKey height txId).toList =
      (txBlockPrefix height).toList ++ txId.toList := by
    simp [txBlockIndexKey, txBlockPrefix]
  rw [indexedId, joined, List.drop_left, String.ofList_toList]

variable {store : IndexedStore} {writes : List Transaction}

theorem scanned_iff (recorded : Recorded store.transactions store.txByBlock writes)
    (height : UInt64) (row : String × Unit) :
    row ∈ scan (txBlockPrefix height) store.txByBlock.toList ↔
      ∃ tx ∈ writes, tx.blockHeight = height ∧ txBlockIndexKey height tx.id = row.1 := by
  have entered : store.txByBlock[row.1]? = some row.2 ↔ row.1 ∈ store.txByBlock := by
    rw [Std.ExtTreeMap.mem_iff_isSome_getElem?]
    cases store.txByBlock[row.1]? with
    | none => simp
    | some value => simp
  rw [scan_eq_filter _ _ (entries_sorted store.txByBlock), List.mem_filter,
    Std.ExtTreeMap.mem_toList_iff_getElem?_eq_some, List.isPrefixOf_iff_prefix, entered,
    recorded.listed]
  constructor
  · rintro ⟨⟨tx, member, key⟩, starts⟩
    rw [← key, index_prefix_iff] at starts
    rw [← starts] at key
    exact ⟨tx, member, starts.symm, key⟩
  · rintro ⟨tx, member, rfl, key⟩
    rw [← key]
    exact ⟨⟨tx, member, rfl⟩, index_prefix_iff.mpr rfl⟩

/-- A query answers with the ids that were ever written at the height, as they are
stored now. -/
theorem query_ids (recorded : Recorded store.transactions store.txByBlock writes)
    (height : UInt64) :
    ∃ ids : List String, ids.Nodup ∧
      (∀ id, id ∈ ids ↔ ∃ tx ∈ writes, tx.blockHeight = height ∧ tx.id = id) ∧
      store.transactionsByBlockHeight height =
        .ok (ids.filterMap fun id => store.transactions[id]?) := by
  have visited := scanned_iff recorded height
  have distinct : ((scan (txBlockPrefix height) store.txByBlock.toList).map Prod.fst).Nodup := by
    rw [scan_eq_filter _ _ (entries_sorted store.txByBlock)]
    exact (keys_nodup store.txByBlock).sublist (List.filter_sublist.map _)
  refine ⟨(scan (txBlockPrefix height) store.txByBlock.toList).map
    fun row => indexedId height row.1, ?_, ?_, ?_⟩
  · -- The key can be rebuilt from the id.
    apply List.Nodup.of_map (txBlockIndexKey height)
    rw [List.map_map]
    convert distinct using 1
    apply List.map_congr_left
    intro row member
    obtain ⟨tx, _, _, key⟩ := (visited row).mp member
    rw [Function.comp_apply, ← key, indexed_id_key]
  · intro id
    rw [List.mem_map]
    constructor
    · rintro ⟨row, member, rfl⟩
      obtain ⟨tx, inside, reached, key⟩ := (visited row).mp member
      exact ⟨tx, inside, reached, by rw [← key, indexed_id_key]⟩
    · rintro ⟨tx, inside, reached, rfl⟩
      exact ⟨(txBlockIndexKey height tx.id, ()), (visited _).mpr ⟨tx, inside, reached, rfl⟩,
        indexed_id_key height tx.id⟩
  · rw [IndexedStore.transactionsByBlockHeight, List.filterMap_map]
    apply collect_ok
    intro row member
    obtain ⟨tx, inside, _, key⟩ := (visited row).mp member
    obtain ⟨now, found⟩ := recorded.present tx inside
    refine ⟨now, ?_, ?_⟩
    · rw [Function.comp_apply, ← key, indexed_id_key, found]
    · simp only [IndexedStore.readIndexed, ← key, indexed_id_key, found]

/-- The index is exact at every height if and only if no transaction was written
again with another height. -/
theorem height_index_exact_iff (calls : List WriteCall) :
    (∀ height, Exact (calls.foldl apply .new) height) ↔
      ∀ tx ∈ calls.flatMap written, ∀ other ∈ calls.flatMap written,
        tx.id = other.id → tx.blockHeight = other.blockHeight := by
  have recorded := recorded_run calls
  generalize calls.foldl apply .new = store at recorded ⊢
  generalize calls.flatMap written = writes at recorded ⊢
  constructor
  · intro exact
    -- What is found at a written height has that height now.
    have current : ∀ tx ∈ writes, ∀ now, store.transactions[tx.id]? = some now →
        now.blockHeight = tx.blockHeight := by
      intro tx member now found
      obtain ⟨answer, answered, same⟩ := exact tx.blockHeight
      obtain ⟨ids, _, listed, query⟩ := query_ids recorded tx.blockHeight
      rw [query] at answered
      cases answered
      have returned : now ∈ ids.filterMap fun id => store.transactions[id]? :=
        List.mem_filterMap.mpr ⟨tx.id, (listed _).mpr ⟨tx, member, rfl, rfl⟩, found⟩
      have filtered := ((same ⟨∅, store.transactions, 0⟩ .asStored rfl).mem_iff).mp returned
      exact of_decide_eq_true (List.mem_filter.mp filtered).2
    intro tx member other member' same
    obtain ⟨now, found⟩ := recorded.present tx member
    rw [← current tx member now found, ← current other member' now (same ▸ found)]
  · intro consistent height
    obtain ⟨ids, distinct, listed, query⟩ := query_ids recorded height
    refine ⟨_, query, ?_⟩
    intro memory order same
    have keyed := fun id tx found => (recorded.stored id tx found).2
    rw [memoryTransactionsByBlockHeight, same]
    refine List.Perm.trans ?_ ((order.perm _).filter _).symm
    apply (List.perm_ext_iff_of_nodup ?_ ((values_nodup keyed).filter _)).mpr
    · intro tx
      rw [List.mem_filterMap, List.mem_filter, mem_values_iff keyed, decide_eq_true_eq]
      constructor
      · rintro ⟨id, member, found⟩
        obtain ⟨inside, rfl⟩ := recorded.stored id tx found
        obtain ⟨earlier, wrote, reached, sameId⟩ := (listed _).mp member
        exact ⟨found, (consistent tx inside earlier wrote sameId.symm).trans reached⟩
      · rintro ⟨found, reached⟩
        have inside := (recorded.stored _ tx found).1
        exact ⟨tx.id, (listed _).mpr ⟨tx, inside, reached, rfl⟩, found⟩
    · apply distinct.filterMap
      intro id other tx found found'
      rw [← (recorded.stored id tx found).2, (recorded.stored other tx found').2]

def sampleTx (id : String) (blockHeight : UInt64) : Transaction :=
  ⟨id, blockHeight, 0, "did:alice", "bob", 5, "pending"⟩

/-- A transaction moved from height 1 to height 2 is still found at height 1. -/
theorem moved_transaction_found :
    ([WriteCall.transaction none (sampleTx "t1" 1),
        .batch none [] [sampleTx "t1" 2]].foldl apply .new).transactionsByBlockHeight 1 =
      .ok [sampleTx "t1" 2] := by
  decide +kernel

end CeruleanLedger.HeightIndex
