import CeruleanLedger.OrderedMap
import CeruleanLedger.SplicedLog
import CeruleanLedger.RaftStorage

/-!
Whether a reopened database holds the log its node held in memory. The database
never deletes: it is the table of the entries last written, while the memory
splices every batch into its log. So the database agrees up to the end of the
log in memory, and it keeps what a shorter batch has cut off behind it.
-/

namespace CeruleanLedger.RaftLogAgreement

open OrderedMap
open RaftStorage
open SplicedLog RocksDbRaftStorage

def position (entry : Entry) : Nat := entry.index.toNat

/-- A batch as the core makes it ready for a log that ends at `last`: of
consecutive indices, from one within the log or the one after its end. -/
def Fits (last : Nat) : List Entry → Prop
  | [] => True
  | first :: others =>
    (1 ≤ position first ∧ position first ≤ last + 1) ∧
      Consecutive position (position first) (first :: others)

def endAfter (last : Nat) : List Entry → Nat
  | [] => last
  | first :: others => position first + others.length

def Handed : Nat → List Ready → Prop
  | _, [] => True
  | last, ready :: rest =>
    Fits last ready.entries ∧ Handed (endAfter last ready.entries) rest

def Written (readies : List Ready) (wanted : Nat) : Prop :=
  ∃ ready ∈ readies, ∃ entry ∈ ready.entries, position entry = wanted

def table (storage : RocksDbRaftStorage) (wanted : Nat) : Option Entry :=
  if wanted < 2 ^ 64 then storage.getEntry (UInt64.ofNat wanted) else none

def Keyed (db : Database) : Prop :=
  ∀ key record, db[key]? = some record →
    indexOfKey key = none ∨ ∃ entry, key = entryKey entry.index ∧ record = .entry entry

def indices (db : Database) : List UInt64 :=
  db.toList.filterMap fun record => indexOfKey record.1

/-- The database stands behind the log in memory. What it holds beyond that log
is not bounded: only that it starts at one, and not before the log does. -/
structure Backed (node : RaftNode) : Prop where
  covers : Covers position (table node.persistentStorage) node.store.entries
  keyed : Keyed node.persistentStorage.db
  rooted : ∀ wanted, (table node.persistentStorage wanted).isSome = true →
    1 ≤ wanted ∧ node.store.entries ≠ []

section Table

variable (storage : RocksDbRaftStorage)

theorem get_entry_eq (index : UInt64) : storage.getEntry index = table storage index.toNat := by
  rw [table, if_pos index.toNat_lt, UInt64.ofNat_toNat]

theorem table_put_other {key : String} (other : indexOfKey key = none) (record : Record) :
    table { storage with db := storage.db.insert key record } = table storage := by
  funext wanted
  have apart : key ≠ entryKey (UInt64.ofNat wanted) := (entry_key_ne other _).symm
  simp only [table, getEntry, get_insert, if_neg apart]

theorem table_put_entry (entry : Entry) :
    table { storage with db := storage.db.insert (entryKey entry.index) (.entry entry) } =
      record position (table storage) entry := by
  funext wanted
  simp only [record, Function.update_apply, table, getEntry, get_insert,
    entry_key_injective.eq_iff]
  by_cases below : wanted < 2 ^ 64
  · have same : entry.index = UInt64.ofNat wanted ↔ wanted = position entry := by
      rw [position, ← UInt64.toNat_inj, UInt64.toNat_ofNat_of_lt' below]
      exact eq_comm
    simp only [if_pos below, same]
    by_cases here : wanted = position entry
    · simp only [if_pos here]
    · simp only [if_neg here]
  · have apart : wanted ≠ position entry := by
      have bound := entry.index.toNat_lt
      rw [position]
      omega
    rw [if_neg below, if_neg below, if_neg apart]

theorem table_append (batch : List Entry) :
    table (storage.appendEntries batch) = recordAll position (table storage) batch := by
  induction batch generalizing storage with
  | nil => rfl
  | cons entry rest ih =>
    have later := ih { storage with db := storage.db.insert (entryKey entry.index) (.entry entry) }
    rw [table_put_entry] at later
    exact later

end Table

section Keys

theorem keyed_put {db : Database} (keyed : Keyed db) {key : String} {record : Record}
    (own : indexOfKey key = none ∨ ∃ entry, key = entryKey entry.index ∧ record = .entry entry) :
    Keyed (db.insert key record) := by
  intro other found present
  rw [get_insert] at present
  by_cases same : key = other
  · subst same
    rw [if_pos rfl] at present
    cases present
    exact own
  · rw [if_neg same] at present
    exact keyed other found present

variable {storage : RocksDbRaftStorage}

theorem keyed_append (keyed : Keyed storage.db) (batch : List Entry) :
    Keyed (storage.appendEntries batch).db := by
  induction batch generalizing storage with
  | nil => exact keyed
  | cons entry rest ih =>
    have put := keyed_put keyed (Or.inr ⟨entry, rfl, rfl⟩)
    exact @ih { storage with db := storage.db.insert (entryKey entry.index) (.entry entry) } put

theorem mem_indices (keyed : Keyed storage.db) (index : UInt64) :
    index ∈ indices storage.db ↔ (storage.getEntry index).isSome = true := by
  rw [indices, List.mem_filterMap]
  constructor
  · rintro ⟨⟨key, record⟩, listed, parsed⟩
    have present := Std.ExtTreeMap.mem_toList_iff_getElem?_eq_some.mp listed
    rcases keyed key record present with other | ⟨entry, rfl, rfl⟩
    · rw [other] at parsed
      cases parsed
    · rw [index_of_entry_key] at parsed
      cases parsed
      rw [getEntry, present]
      rfl
  · intro known
    rw [getEntry] at known
    split at known
    · next entry present =>
      exact ⟨(entryKey index, .entry entry),
        Std.ExtTreeMap.mem_toList_iff_getElem?_eq_some.mpr present, index_of_entry_key index⟩
    · cases known

theorem indices_sorted {db : Database} (keyed : Keyed db) : (indices db).Pairwise (· < ·) := by
  have ordered : db.toList.Pairwise fun left right =>
      left ∈ db.toList ∧ right ∈ db.toList ∧ left.1 < right.1 :=
    List.Pairwise.and_mem.mp (entries_sorted db)
  apply List.Pairwise.filterMap _ _ ordered
  rintro ⟨left, leftRecord⟩ ⟨right, rightRecord⟩ ⟨leftMem, rightMem, less⟩ low lowKey high highKey
  have leftKey := keyed left leftRecord (Std.ExtTreeMap.mem_toList_iff_getElem?_eq_some.mp leftMem)
  have rightKey :=
    keyed right rightRecord (Std.ExtTreeMap.mem_toList_iff_getElem?_eq_some.mp rightMem)
  -- Keys without an index are not listed, so both are entry keys.
  rcases leftKey with other | ⟨leftEntry, rfl, -⟩
  · rw [other] at lowKey
    cases lowKey
  rcases rightKey with other | ⟨rightEntry, rfl, -⟩
  · rw [other] at highKey
    cases highKey
  rw [index_of_entry_key] at lowKey highKey
  cases lowKey
  cases highKey
  exact (entry_key_lt_iff _ _).mp less

theorem indices_empty (keyed : Keyed storage.db) (nothing : ∀ wanted, table storage wanted = none) :
    indices storage.db = [] := by
  rw [List.eq_nil_iff_forall_not_mem]
  intro index member
  rw [mem_indices keyed, get_entry_eq, nothing] at member
  cases member

theorem head_of_extreme {α : Type*} {before : α → α → Prop} {list : List α} {extreme : α}
    (ordered : list.Pairwise before) (member : extreme ∈ list)
    (unpreceded : ∀ other ∈ list, ¬ before other extreme) : list.head? = some extreme := by
  cases list with
  | nil => cases member
  | cons head rest =>
    rcases List.mem_cons.mp member with here | later
    · rw [here, List.head?_cons]
    · have precedes := (List.pairwise_cons.mp ordered).1 extreme later
      exact absurd precedes (unpreceded head List.mem_cons_self)

theorem new_first (db : Database) :
    (new db).firstIndex = (indices db).head?.getD 1 := by
  rw [new, indices, List.head?_filterMap]

theorem last_inner (storage : RocksDbRaftStorage) :
    storage.lastIndexInner = (indices storage.db).reverse.head?.getD 0 := by
  rw [lastIndexInner, indices, List.head?_reverse, List.getLast?_filterMap]

theorem le_last_inner (keyed : Keyed storage.db) {index : UInt64}
    (member : index ∈ indices storage.db) : index ≤ storage.lastIndexInner := by
  have ordered := List.pairwise_reverse.mpr (indices_sorted keyed)
  have listed := List.mem_reverse.mpr member
  rw [last_inner]
  cases reversed : (indices storage.db).reverse with
  | nil =>
    rw [reversed] at listed
    cases listed
  | cons last rest =>
    rw [reversed] at ordered listed
    rcases List.mem_cons.mp listed with here | earlier
    · rw [here]
      exact UInt64.le_refl last
    · exact UInt64.le_of_lt ((List.pairwise_cons.mp ordered).1 index earlier)

end Keys

section Memory

variable {mem : MemStorage}

theorem mem_first (consecutive : Consecutive position 1 mem.entries) : mem.firstIndex = 1 := by
  rw [MemStorage.firstIndex]
  cases logged : mem.entries with
  | nil => rfl
  | cons first rest =>
    rw [logged] at consecutive
    exact UInt64.toNat_inj.mp consecutive.1

theorem mem_last (consecutive : Consecutive position 1 mem.entries) :
    mem.lastIndex.toNat = mem.entries.length := by
  rw [MemStorage.lastIndex]
  cases final : mem.entries.getLast? with
  | none =>
    rw [List.getLast?_eq_none_iff.mp final]
    rfl
  | some last =>
    have nonempty : mem.entries ≠ [] := by
      intro empty
      rw [empty] at final
      cases final
    have positive := List.length_pos_of_ne_nil nonempty
    rw [List.getLast?_eq_getElem?] at final
    have index := index_of_position consecutive final
    rw [position] at index
    dsimp only
    omega

theorem append_fits (consecutive : Consecutive position 1 mem.entries) (first : Entry)
    (others : List Entry) (fits : Fits mem.entries.length (first :: others)) :
    mem.append (first :: others) =
      some { mem with entries := splice mem.entries (position first) (first :: others) } := by
  obtain ⟨⟨positive, reaches⟩, -⟩ := fits
  rw [position] at positive reaches
  have notBefore : ¬ first.index < 1 := by
    rw [UInt64.lt_iff_toNat_lt]
    exact Nat.not_lt.mpr positive
  have noGap : ¬ mem.lastIndex.toNat + 1 < first.index.toNat := by
    rw [mem_last consecutive]
    omega
  have diff : (first.index - 1).toNat = position first - 1 :=
    UInt64.toNat_sub_of_le _ _ (UInt64.not_lt.mp notBefore)
  rw [MemStorage.append, mem_first consecutive, if_neg notBefore, if_neg noGap, diff, splice]

end Memory

theorem length_lt {log : List Entry} (consecutive : Consecutive position 1 log) :
    log.length < 2 ^ 64 := by
  have last := @mem_last { entries := log } consecutive
  dsimp only at last
  rw [← last]
  exact UInt64.toNat_lt _

theorem read_covered (encodedLen : Entry → Nat) {storage : RocksDbRaftStorage} {log : List Entry}
    (covers : Covers position (table storage) log) (count start size : Nat) (positive : 1 ≤ start)
    (within : start + count ≤ log.length + 1) :
    storage.readFrom encodedLen none count (UInt64.ofNat start) size =
      (log.drop (start - 1)).take count := by
  induction count generalizing start size with
  | zero => rw [readFrom, List.take_zero]
  | succ count ih =>
    have bound := length_lt covers.consecutive
    have inside : start - 1 < log.length := by omega
    have held : storage.getEntry (UInt64.ofNat start) = some log[start - 1] := by
      have answer := covers.answers (start - 1) _ (List.getElem?_eq_getElem inside)
      rw [Nat.sub_add_cancel positive, table, if_pos (by omega)] at answer
      exact answer
    -- The index may wrap after the last entry, where it is not used any more.
    have next : UInt64.ofNat start + 1 = UInt64.ofNat (start + 1) :=
      (UInt64.ofNat_add start 1).symm
    have shifted : start + 1 - 1 = start - 1 + 1 := by omega
    rw [readFrom, held, List.drop_eq_getElem_cons inside, List.take_succ_cons,
      next]
    dsimp only [Option.any_none]
    rw [if_neg Bool.false_ne_true, ih (start + 1) _ (by omega) (by omega), shifted]

section Steps

theorem advance_returns {node : RaftNode} {ready : Ready} {store : MemStorage}
    (appended : node.store.append ready.entries = some store) :
    ∃ next, node.advance ready = some next ∧ next.store.entries = store.entries ∧
      next.persistentStorage =
        (node.persistentStorage.appendEntries ready.entries).setHardstate ready.hardState := by
  rw [RaftNode.advance, appended]
  refine ⟨_, rfl, ?_, rfl⟩
  cases ready.hs <;> cases ready.light <;> rfl

theorem advanced_table (storage : RocksDbRaftStorage) (batch : List Entry) (state : HardState) :
    table ((storage.appendEntries batch).setHardstate state) =
      recordAll position (table storage) batch := by
  rw [← table_append]
  exact table_put_other _ index_of_hard_state_key _

theorem batch_positive {last : Nat} {batch : List Entry} (fits : Fits last batch) {entry : Entry}
    (member : entry ∈ batch) : 1 ≤ position entry := by
  cases batch with
  | nil => cases member
  | cons first others =>
    obtain ⟨place, found⟩ := List.getElem?_of_mem member
    have index := index_of_position fits.2 found
    have positive := fits.1.1
    omega

/-- One call returns, keeps the database behind the log, and adds to what the
database answers exactly what the batch writes. -/
theorem advance_backed {node : RaftNode} {ready : Ready} (backed : Backed node)
    (fits : Fits node.store.entries.length ready.entries) :
    ∃ next, node.advance ready = some next ∧ Backed next ∧
      next.store.entries.length = endAfter node.store.entries.length ready.entries ∧
      ∀ wanted, (table next.persistentStorage wanted).isSome = true ↔
        (table node.persistentStorage wanted).isSome = true ∨
          ∃ entry ∈ ready.entries, position entry = wanted := by
  have keyed : Keyed ((node.persistentStorage.appendEntries ready.entries).setHardstate
      ready.hardState).db :=
    keyed_put (keyed_append backed.keyed ready.entries) (Or.inl index_of_hard_state_key)
  have answered := @record_all_known _ position (table node.persistentStorage) ready.entries
  cases batch : ready.entries with
  | nil =>
    have appended : node.store.append ready.entries = some node.store := by
      rw [batch]
      rfl
    obtain ⟨next, returned, log, persistent⟩ := advance_returns appended
    have same : table next.persistentStorage = table node.persistentStorage := by
      rw [persistent, advanced_table, batch]
      rfl
    refine ⟨next, returned, ⟨?_, ?_, ?_⟩, ?_, ?_⟩
    · rw [same, log]
      exact backed.covers
    · rw [persistent]
      exact keyed
    · rw [same, log]
      exact backed.rooted
    · rw [log]
      rfl
    · intro wanted
      rw [same]
      simp
  | cons first others =>
    rw [batch] at fits
    have appended := append_fits backed.covers.consecutive first others fits
    rw [← batch] at appended
    obtain ⟨next, returned, log, persistent⟩ := advance_returns appended
    have recorded : table next.persistentStorage =
        recordAll position (table node.persistentStorage) ready.entries := by
      rw [persistent, advanced_table]
    dsimp only at log
    refine ⟨next, returned, ⟨?_, ?_, ?_⟩, ?_, ?_⟩
    · rw [recorded, log, batch]
      exact covers_splice backed.covers fits.1.1 fits.1.2 fits.2
    · rw [persistent]
      exact keyed
    · intro wanted known
      rw [recorded, answered, batch] at known
      constructor
      · rcases known with before | ⟨entry, member, rfl⟩
        · exact (backed.rooted wanted before).1
        · exact batch_positive fits member
      · rw [log, batch, splice]
        exact List.append_ne_nil_of_right_ne_nil _ (List.cons_ne_nil first others)
    · rw [log, batch, splice_length fits.1.2, endAfter, List.length_cons]
      have positive := fits.1.1
      omega
    · intro wanted
      rw [recorded, answered, batch]

theorem run_backed {node : RaftNode} {readies : List Ready} (backed : Backed node)
    (handed : Handed node.store.entries.length readies) :
    ∃ final, node.run readies = some final ∧ Backed final ∧
      ∀ wanted, (table final.persistentStorage wanted).isSome = true ↔
        (table node.persistentStorage wanted).isSome = true ∨ Written readies wanted := by
  induction readies generalizing node with
  | nil => exact ⟨node, rfl, backed, fun wanted => by simp [Written]⟩
  | cons ready rest ih =>
    obtain ⟨fits, others⟩ := handed
    obtain ⟨next, advanced, nextBacked, ending, known⟩ := advance_backed backed fits
    rw [← ending] at others
    obtain ⟨final, ran, finalBacked, finalKnown⟩ := ih nextBacked others
    refine ⟨final, ?_, finalBacked, ?_⟩
    · rw [RaftNode.run, advanced, Option.bind_some, ran]
    · intro wanted
      rw [finalKnown, known, Written, Written, List.exists_mem_cons_iff, or_assoc]

variable (peers : List UInt64)

def opened : RocksDbRaftStorage :=
  (new ∅).initializeWith { voters := peers }

theorem opened_eq :
    opened peers = ((new ∅).putHardState {}).putConfState
      { voters := peers } := by
  rw [opened, initializeWith, if_neg]
  rw [new, Std.ExtTreeMap.getElem?_empty]
  exact Bool.false_ne_true

theorem opened_table : table (opened peers) = fun _ => none := by
  have conf := table_put_other ((new ∅).putHardState {}) index_of_conf_state_key
    (.confState { voters := peers })
  have hard := table_put_other (new ∅) index_of_hard_state_key (.hardState {})
  rw [opened_eq]
  refine conf.trans (hard.trans ?_)
  funext wanted
  rw [table, getEntry, new, Std.ExtTreeMap.getElem?_empty]
  exact ite_self none

theorem opened_keyed : Keyed (opened peers).db := by
  have empty : Keyed (new ∅).db := by
    intro key record present
    rw [new, Std.ExtTreeMap.getElem?_empty] at present
    cases present
  rw [opened_eq]
  exact keyed_put (keyed_put empty (Or.inl index_of_hard_state_key))
    (Or.inl index_of_conf_state_key)

theorem opened_first : (opened peers).firstIndex = 1 := by
  rw [opened_eq]
  exact new_first ∅

theorem opened_last : (opened peers).lastIndex = 0 := by
  have inner : (opened peers).lastIndexInner = 0 := by
    rw [last_inner, indices_empty (opened_keyed peers) (fun wanted => by rw [opened_table])]
    rfl
  rw [lastIndex, inner, opened_first]
  rfl

theorem fresh_starts (encodedLen : Entry → Nat) :
    ∃ node, RaftNode.newPersistent encodedLen peers ∅ = some node ∧ Backed node ∧
      node.store.entries = [] ∧ ∀ wanted, table node.persistentStorage wanted = none := by
  refine ⟨⟨(MemStorage.newWithConfState (opened peers).getConfState).setHardstate
    (opened peers).getHardState, opened peers⟩, ?_, ⟨covers_empty _, opened_keyed peers, ?_⟩, rfl,
    fun wanted => by rw [opened_table]⟩
  · rw [RaftNode.newPersistent, ← opened, opened_first, opened_last]
    rfl
  · intro wanted known
    rw [opened_table] at known
    cases known

end Steps

section Reopened

variable {node : RaftNode}

theorem nothing_held (backed : Backed node) (empty : node.store.entries = []) (wanted : Nat) :
    table node.persistentStorage wanted = none := by
  rw [← Option.not_isSome_iff_eq_none]
  intro known
  exact (backed.rooted wanted known).2 empty

theorem held_member (backed : Backed node) {wanted : Nat} (positive : 1 ≤ wanted)
    (within : wanted ≤ node.store.entries.length) :
    UInt64.ofNat wanted ∈ indices node.persistentStorage.db := by
  have inside : wanted - 1 < node.store.entries.length := by omega
  have answer := backed.covers.answers (wanted - 1) _ (List.getElem?_eq_getElem inside)
  have bound := length_lt backed.covers.consecutive
  rw [Nat.sub_add_cancel positive, table, if_pos (by omega)] at answer
  rw [mem_indices backed.keyed]
  exact Option.isSome_of_eq_some answer

theorem reopened_first (backed : Backed node) :
    (new node.persistentStorage.db).firstIndex = 1 := by
  rw [new_first]
  cases logged : node.store.entries with
  | nil =>
    rw [indices_empty backed.keyed (nothing_held backed logged)]
    rfl
  | cons first rest =>
    have member : UInt64.ofNat 1 ∈ indices node.persistentStorage.db :=
      held_member backed (Nat.le_refl 1) (by rw [logged, List.length_cons]; omega)
    have head := head_of_extreme (indices_sorted backed.keyed) member (by
      intro other listed less
      rw [mem_indices backed.keyed, get_entry_eq] at listed
      have positive := (backed.rooted _ listed).1
      rw [UInt64.lt_iff_toNat_lt] at less
      exact absurd less (Nat.not_lt.mpr positive))
    rw [head]
    rfl

theorem reopened_inner (node : RaftNode) :
    (new node.persistentStorage.db).lastIndexInner =
      node.persistentStorage.lastIndexInner :=
  rfl

theorem written_le_last (backed : Backed node) {wanted : Nat}
    (known : (table node.persistentStorage wanted).isSome = true) :
    wanted ≤ (new node.persistentStorage.db).lastIndex.toNat := by
  have below : wanted < 2 ^ 64 := by
    by_contra above
    rw [table, if_neg above] at known
    cases known
  have positive := (backed.rooted wanted known).1
  have member : UInt64.ofNat wanted ∈ indices node.persistentStorage.db := by
    rw [table, if_pos below] at known
    exact (mem_indices backed.keyed _).mpr known
  have reached := UInt64.le_iff_toNat_le.mp (le_last_inner backed.keyed member)
  rw [UInt64.toNat_ofNat_of_lt' below] at reached
  -- A zero would stand for an empty log.
  have nonzero : node.persistentStorage.lastIndexInner ≠ 0 := by
    intro zero
    rw [zero, UInt64.toNat_zero] at reached
    omega
  rw [lastIndex, reopened_inner, if_neg nonzero]
  exact reached

theorem last_of_bounded (backed : Backed node)
    (bounded : ∀ wanted, (table node.persistentStorage wanted).isSome = true →
      wanted ≤ node.store.entries.length) :
    (new node.persistentStorage.db).lastIndex.toNat =
      node.store.entries.length := by
  rw [lastIndex, reopened_inner, reopened_first backed, last_inner]
  by_cases empty : node.store.entries = []
  · rw [indices_empty backed.keyed (nothing_held backed empty), empty]
    rfl
  · have bound := length_lt backed.covers.consecutive
    have positive := List.length_pos_of_ne_nil empty
    have member := held_member backed positive (Nat.le_refl _)
    -- The end of the log is held, and nothing beyond it.
    have last := head_of_extreme (List.pairwise_reverse.mpr (indices_sorted backed.keyed))
      (List.mem_reverse.mpr member) (by
        intro other listed greater
        rw [List.mem_reverse, mem_indices backed.keyed, get_entry_eq] at listed
        have reached := bounded _ listed
        rw [UInt64.lt_iff_toNat_lt, UInt64.toNat_ofNat_of_lt' bound] at greater
        omega)
    have nonzero : UInt64.ofNat node.store.entries.length ≠ 0 := by
      intro zero
      have value := congrArg UInt64.toNat zero
      rw [UInt64.toNat_ofNat_of_lt' bound, UInt64.toNat_zero] at value
      omega
    rw [last, Option.getD_some, if_neg nonzero, UInt64.toNat_ofNat_of_lt' bound]

theorem reopened_entries (encodedLen : Entry → Nat) (backed : Backed node) {low high : UInt64}
    (after : node.store.firstIndex ≤ low) (ordered : low ≤ high)
    (upTo : high.toNat ≤ node.store.lastIndex.toNat + 1) :
    (new node.persistentStorage.db).entries encodedLen low high none =
      .ok (node.store.slice low high) := by
  have consecutive := backed.covers.consecutive
  rw [mem_first consecutive] at after
  rw [mem_last consecutive] at upTo
  have positive : 1 ≤ low.toNat := UInt64.le_iff_toNat_le.mp after
  have below := UInt64.le_iff_toNat_le.mp ordered
  have notCompacted : ¬ low < 1 := UInt64.not_lt.mpr after
  have covers : Covers position
      (table (new node.persistentStorage.db)) node.store.entries :=
    backed.covers
  have read := read_covered encodedLen covers (high.toNat - low.toNat) low.toNat 0 positive
    (by omega)
  rw [UInt64.ofNat_toNat] at read
  rw [entries, reopened_first backed, if_neg notCompacted, read,
    MemStorage.slice, mem_first consecutive]
  rfl

theorem same_log_of_bounded (encodedLen : Entry → Nat) (backed : Backed node)
    (bounded : ∀ wanted, (table node.persistentStorage wanted).isSome = true →
      wanted ≤ node.store.entries.length) :
    SameLog encodedLen (new node.persistentStorage.db) node.store where
  first := by rw [reopened_first backed, mem_first backed.covers.consecutive]
  last := by
    rw [← UInt64.toNat_inj, last_of_bounded backed bounded, mem_last backed.covers.consecutive]
  entries := fun _ _ after ordered upTo => reopened_entries encodedLen backed after ordered upTo

end Reopened

/-- A node that starts on an empty database and is handed any batches of the core
runs through them. Its database, opened again, holds the log of its memory
exactly when that log ends at or after every index that was ever written. -/
theorem same_log_iff (encodedLen : Entry → Nat) (peers : List UInt64) (readies : List Ready)
    (handed : Handed 0 readies) :
    ∃ node, (RaftNode.newPersistent encodedLen peers ∅).bind (·.run readies) = some node ∧
      (SameLog encodedLen (new node.persistentStorage.db) node.store ↔
        ∀ ready ∈ readies, ∀ entry ∈ ready.entries, entry.index ≤ node.store.lastIndex) := by
  obtain ⟨start, started, startBacked, empty, nothing⟩ := fresh_starts peers encodedLen
  have fromStart : Handed start.store.entries.length readies := by
    rw [empty]
    exact handed
  obtain ⟨node, ran, backed, known⟩ := run_backed startBacked fromStart
  have written : ∀ wanted,
      (table node.persistentStorage wanted).isSome = true ↔ Written readies wanted := by
    intro wanted
    rw [known, nothing]
    simp
  refine ⟨node, ?_, ?_⟩
  · rw [started, Option.bind_some, ran]
  constructor
  · intro same ready handedOver entry member
    -- An index above the end would still be the last key of the database.
    have reached := written_le_last backed
      ((written (position entry)).mpr ⟨ready, handedOver, entry, member, rfl⟩)
    rw [same.last] at reached
    exact UInt64.le_iff_toNat_le.mpr reached
  · intro bounded
    apply same_log_of_bounded encodedLen backed
    intro wanted answered
    obtain ⟨ready, handedOver, entry, member, rfl⟩ := (written wanted).mp answered
    have reached := UInt64.le_iff_toNat_le.mp (bounded ready handedOver entry member)
    rwa [mem_last backed.covers.consecutive] at reached

def batchOf (entries : List Entry) : Ready := ⟨entries, none, none, {}⟩

/-- Three entries of the first term, of which the leader of the second term
replaces the last two by one. -/
def shortened : List Ready :=
  [batchOf [{ term := 1, index := 1 }, { term := 1, index := 2 }, { term := 1, index := 3 }],
    batchOf [{ term := 2, index := 2 }]]

/-- The same with two entries of the second term. -/
def replaced : List Ready :=
  [batchOf [{ term := 1, index := 1 }, { term := 1, index := 2 }, { term := 1, index := 3 }],
    batchOf [{ term := 2, index := 2 }, { term := 2, index := 3 }]]

theorem shortened_handed : Handed 0 shortened :=
  ⟨⟨by decide, rfl, rfl, rfl, trivial⟩, ⟨by decide, rfl, trivial⟩, trivial⟩

theorem replaced_handed : Handed 0 replaced :=
  ⟨⟨by decide, rfl, rfl, rfl, trivial⟩, ⟨by decide, rfl, rfl, trivial⟩, trivial⟩

theorem replaced_same_log_iff :
    Handed 0 replaced ∧
      ∃ node, (RaftNode.newPersistent (fun _ => 0) [1] ∅).bind (·.run replaced) = some node ∧
        (SameLog (fun _ => 0) (new node.persistentStorage.db) node.store ↔
          ∀ ready ∈ replaced, ∀ entry ∈ ready.entries, entry.index ≤ node.store.lastIndex) :=
  ⟨replaced_handed, same_log_iff (fun _ => 0) [1] replaced replaced_handed⟩

/-- After the shorter batch the memory ends at two, and the database still reads
back the third entry of the first term. -/
theorem cut_entry_recovered :
    Handed 0 shortened ∧
      ∃ node, (RaftNode.newPersistent (fun _ => 0) [1] ∅).bind (·.run shortened) = some node ∧
        node.store.entries = [{ term := 1, index := 1 }, { term := 2, index := 2 }] ∧
        (new node.persistentStorage.db).getEntry 3 =
          some { term := 1, index := 3 } ∧
        ¬ SameLog (fun _ => 0) (new node.persistentStorage.db) node.store := by
  have observed : ((RaftNode.newPersistent (fun _ => 0) [1] ∅).bind (·.run shortened)).map
      (fun node =>
        let reopened := new node.persistentStorage.db
        (node.store.entries, reopened.getEntry 3, reopened.lastIndex, node.store.lastIndex)) =
      some ([{ term := 1, index := 1 }, { term := 2, index := 2 }],
        some { term := 1, index := 3 }, 3, 2) := by
    decide +kernel
  obtain ⟨node, ran, values⟩ := Option.map_eq_some_iff.mp observed
  simp only [Prod.mk.injEq] at values
  obtain ⟨log, third, last, ending⟩ := values
  refine ⟨shortened_handed, node, ran, log, third, ?_⟩
  intro same
  have equal := same.last
  rw [last, ending] at equal
  exact absurd equal (by decide)

end CeruleanLedger.RaftLogAgreement
