import CeruleanLedger.KeyPrefixes
import CeruleanLedger.VersionedState

/-!
The two implementations of `WorldState` side by side, over any sequence of calls on fresh
stores. `BTreeMap::range` panics where the RocksDB iterator finds nothing, and only the memory
store records a history: neither `world_state_put` nor `delete` writes to the key-history column
family that `get_history` scans.
-/

namespace CeruleanLedger.WorldStateAgreement

open ByteCodec OrderedMap KeyPrefixes VersionedState MemoryWorldState

/-- The rows of a key start with the key and a NUL. -/
def historyPrefix (stateKey : String) : String := stateKey ++ "\x00"

/-- `RocksDbBlockStore::get_history`, on the rows of the column family. -/
def scanHistory (rows : Std.ExtTreeMap String HistoryEntry) (stateKey : String) :
    List HistoryEntry :=
  (scan (historyPrefix stateKey) rows.toList).map Prod.snd

def freshMemory : MemoryWorldState := ⟨∅, ∅⟩

def freshRocksDb : RocksDbWorldState := ⟨∅, scanHistory ∅⟩

inductive Call where
  | put (key : String) (data : Bytes)
  | delete (key : String)
  | get (key : String)
  | getRange (start stop : String)
  | getHistory (key : String)
  deriving DecidableEq

inductive Answer where
  | version (new : UInt64)
  | deleted
  | value (found : Option VersionedValue)
  | entries (found : List (String × VersionedValue))
  | history (found : List HistoryEntry)
  | panicked
  deriving DecidableEq

def answer (state : WorldState) : Call → Answer
  | .put key _ => .version (nextVersion state.inner key)
  | .delete _ => .deleted
  | .get key => .value (state.get key)
  | .getRange start stop =>
    match state.getRange start stop with
    | none => .panicked
    | some found => .entries found
  | .getHistory key => .history (state.getHistory key)

/-- A poisoned lock is taken over as it is, so a panic changes nothing. -/
def applyMemory (clock : Clock) (state : MemoryWorldState) : Call → MemoryWorldState
  | .put key data => state.put clock key data
  | .delete key => state.delete clock key
  | _ => state

def applyRocksDb (state : RocksDbWorldState) : Call → RocksDbWorldState
  | .put key data => state.worldStatePut key data
  | .delete key => state.delete key
  | _ => state

def memoryAfter (clock : Clock) (calls : List Call) : WorldState :=
  .memory (calls.foldl (applyMemory clock) freshMemory)

def rocksDbAfter (calls : List Call) : WorldState :=
  .rocksDb (calls.foldl applyRocksDb freshRocksDb)

def Answer.untimed : Answer → Answer
  | .history found => .history (found.map fun entry => { entry with timestamp := 0 })
  | other => other

def Rising (entries : List HistoryEntry) : Prop :=
  (entries.map HistoryEntry.version).Pairwise (· < ·)

/-- After the earlier calls both stores give the same answer, neither panics, and
a history that is returned rises. -/
structure Agrees (clock : Clock) (earlier : List Call) (call : Call) : Prop where
  same : (answer (memoryAfter clock earlier) call).untimed =
    (answer (rocksDbAfter earlier) call).untimed
  memoryReturns : answer (memoryAfter clock earlier) call ≠ .panicked
  rocksDbReturns : answer (rocksDbAfter earlier) call ≠ .panicked
  rising : ∀ found, answer (memoryAfter clock earlier) call = .history found ∨
    answer (rocksDbAfter earlier) call = .history found → Rising found

/-- What a call does to a key: nothing, a put, or a delete, which is `true`. -/
def Call.touch (key : String) : Call → Option Bool
  | .put other _ => if other = key then some false else none
  | .delete other => if other = key then some true else none
  | _ => none

def touches (key : String) (calls : List Call) : List Bool := calls.filterMap (Call.touch key)

/-- No range is asked for backwards, and no history of a key that was touched. -/
def Harmless (earlier : List Call) : Call → Prop
  | .getRange start stop => ¬ stop < start
  | .getHistory key => touches key earlier = []
  | _ => True

/-- At most the last call on the key is a delete, and the versions do not wrap. -/
def OneLife (key : String) (calls : List Call) : Prop :=
  true ∉ (touches key calls).dropLast ∧ (touches key calls).length < 2 ^ 64

theorem rocks_db_range (state : RocksDbWorldState) (start stop : String) :
    state.getRange start stop =
      state.inner.toList.filter fun entry => inRange start stop entry.1 := by
  rw [RocksDbWorldState.getRange, takeWhile_eq_filter ((entries_sorted state.inner).filter _),
    List.filter_filter]
  · apply List.filter_congr
    intro entry _
    rw [inRange, Bool.and_comm]
  · intro earlier later before below
    exact decide_eq_true (before.trans (of_decide_eq_true below))

theorem inner_after (clock : Clock) (calls : List Call) :
    (memoryAfter clock calls).inner = (rocksDbAfter calls).inner := by
  suffices kept : ∀ (memory : MemoryWorldState) (rocksDb : RocksDbWorldState),
      memory.inner = rocksDb.inner →
      (calls.foldl (applyMemory clock) memory).inner = (calls.foldl applyRocksDb rocksDb).inner from
    kept freshMemory freshRocksDb rfl
  induction calls with
  | nil => intro memory rocksDb same; exact same
  | cons call rest ih =>
    intro memory rocksDb same
    apply ih
    cases call with
    | put key data =>
      simp only [applyMemory, applyRocksDb, put,
        RocksDbWorldState.worldStatePut, same]
    | delete key =>
      simp only [applyMemory, applyRocksDb, delete,
        RocksDbWorldState.delete, same]
    | _ => exact same

theorem rocks_db_history_after (calls : List Call) (key : String) :
    (rocksDbAfter calls).getHistory key = [] := by
  suffices kept : ∀ state : RocksDbWorldState,
      (calls.foldl applyRocksDb state).keyHistory = state.keyHistory by
    simp [rocksDbAfter, WorldState.getHistory, kept, freshRocksDb, scanHistory, scan]
  induction calls with
  | nil => intro state; rfl
  | cons call rest ih =>
    intro state
    rw [List.foldl_cons, ih]
    cases call with
    | _ => rfl

/-- The versions that the touches of a key are recorded with: a delete takes the
next version and starts the count over. -/
def versionsFrom : UInt64 → List Bool → List UInt64
  | _, [] => []
  | current, isDelete :: rest =>
    (current + 1) :: versionsFrom (if isDelete then 0 else current + 1) rest

def versionIn (state : MemoryWorldState) (key : String) : UInt64 :=
  (WorldState.memory state).versionOf key

def recorded (state : MemoryWorldState) (key : String) : List UInt64 :=
  ((WorldState.memory state).getHistory key).map HistoryEntry.version

theorem recorded_step (clock : Clock) (state : MemoryWorldState) (key : String) (call : Call) :
    recorded (applyMemory clock state call) key = recorded state key ++
        ((call.touch key).map fun _ => versionIn state key + 1).toList ∧
      versionIn (applyMemory clock state call) key =
        ((call.touch key).map fun isDelete =>
          if isDelete then 0 else versionIn state key + 1).getD (versionIn state key) := by
  cases call with
  | put other data =>
    have next := WorldState.next_version_eq (.memory state) other
    by_cases same : other = key
    · subst same
      simp_all [recorded, versionIn, applyMemory, Call.touch, put,
        record, WorldState.getHistory, WorldState.versionOf, WorldState.get,
        WorldState.inner]
    · simp [recorded, versionIn, applyMemory, Call.touch, put,
        record, WorldState.getHistory, WorldState.versionOf, WorldState.get,
        WorldState.inner, get_insert, same]
  | delete other =>
    have next := WorldState.next_version_eq (.memory state) other
    by_cases same : other = key
    · subst same
      simp_all [recorded, versionIn, applyMemory, Call.touch, delete,
        record, WorldState.getHistory, WorldState.versionOf, WorldState.get,
        WorldState.inner]
    · simp [recorded, versionIn, applyMemory, Call.touch, delete,
        record, WorldState.getHistory, WorldState.versionOf, WorldState.get,
        WorldState.inner, get_insert, get_erase, same]
  | _ => simp [applyMemory, Call.touch]

theorem recorded_after (clock : Clock) (state : MemoryWorldState) (key : String)
    (calls : List Call) :
    recorded (calls.foldl (applyMemory clock) state) key =
      recorded state key ++ versionsFrom (versionIn state key) (touches key calls) := by
  induction calls generalizing state with
  | nil => simp [touches, versionsFrom]
  | cons call rest ih =>
    obtain ⟨appended, current⟩ := recorded_step clock state key call
    rw [List.foldl_cons, ih, appended, current]
    cases touch : call.touch key with
    | none => simp [touches, touch]
    | some isDelete => simp [touches, touch, versionsFrom]

theorem versions_from_fresh (clock : Clock) (key : String) (calls : List Call) :
    ((memoryAfter clock calls).getHistory key).map HistoryEntry.version =
      versionsFrom 0 (touches key calls) := by
  have law := recorded_after clock freshMemory key calls
  simpa [recorded, versionIn, memoryAfter, freshMemory, WorldState.getHistory,
    WorldState.versionOf, WorldState.get, WorldState.inner] using law

/-- The versions rise as long as nothing follows a delete and the count does not wrap. -/
theorem versions_rise_iff (current : UInt64) (flags : List Bool)
    (room : current.toNat + 1 < 2 ^ 64) :
    (versionsFrom current flags).Pairwise (· < ·) ↔
      true ∉ flags.dropLast ∧ current.toNat + flags.length < 2 ^ 64 := by
  rw [← List.isChain_iff_pairwise]
  induction flags generalizing current with
  | nil => simpa [versionsFrom] using current.toNat_lt
  | cons isDelete rest ih =>
    have next : (current + 1).toNat = current.toNat + 1 := by
      rw [UInt64.toNat_add, UInt64.toNat_one, Nat.mod_eq_of_lt room]
    cases rest with
    | nil => simpa [versionsFrom] using room
    | cons second rest =>
      have link : List.IsChain (· < ·) (versionsFrom current (isDelete :: second :: rest)) ↔
          current + 1 < (if isDelete then 0 else current + 1) + 1 ∧
            List.IsChain (· < ·)
              (versionsFrom (if isDelete then 0 else current + 1) (second :: rest)) := by
        simp only [versionsFrom, List.isChain_cons_cons]
      rw [link, UInt64.lt_iff_toNat_lt, next]
      cases isDelete with
      | true => simp
      | false =>
        simp only [Bool.false_eq_true, ↓reduceIte, UInt64.toNat_add, next,
          UInt64.toNat_one, List.dropLast_cons_cons, List.mem_cons,
          List.length_cons]
        by_cases more : current.toNat + 1 + 1 < 2 ^ 64
        · have later := ih (current + 1) (by rw [next]; exact more)
          rw [later, next, Nat.mod_eq_of_lt more, List.length_cons]
          constructor
          · rintro ⟨-, kept, below⟩
            exact ⟨by simpa using kept, by omega⟩
          · rintro ⟨kept, below⟩
            exact ⟨by omega, by simpa using kept, by omega⟩
        · -- The next version wraps to zero.
          have wraps : (current.toNat + 1 + 1) % 2 ^ 64 = 0 := by omega
          rw [wraps]
          constructor
          · rintro ⟨impossible, -⟩
            omega
          · rintro ⟨-, below⟩
            omega

variable (clock : Clock)

theorem memory_history_eq_nil_iff (key : String) (calls : List Call) :
    (memoryAfter clock calls).getHistory key = [] ↔ touches key calls = [] := by
  rw [← List.map_eq_nil_iff (f := HistoryEntry.version), versions_from_fresh]
  cases touches key calls with
  | nil => simp [versionsFrom]
  | cons isDelete rest => simp [versionsFrom]

theorem memory_range (earlier : List Call) {start stop : String} (forwards : ¬ stop < start) :
    (memoryAfter clock earlier).getRange start stop =
      (rocksDbAfter earlier).getRange start stop := by
  have inner := inner_after clock earlier
  simp only [memoryAfter, rocksDbAfter, WorldState.inner] at inner
  simp only [memoryAfter, rocksDbAfter, WorldState.getRange, getRange,
    if_neg forwards, rocks_db_range, inner]

theorem answers_same {earlier : List Call} {call : Call} (harmless : Harmless earlier call) :
    answer (memoryAfter clock earlier) call = answer (rocksDbAfter earlier) call := by
  have inner := inner_after clock earlier
  cases call with
  | put key data => simp only [answer, inner]
  | delete key => rfl
  | get key => simp only [answer, WorldState.get, inner]
  | getRange start stop => simp only [answer, memory_range clock earlier harmless]
  | getHistory key =>
    have untouched := (memory_history_eq_nil_iff clock key earlier).mpr harmless
    simp only [answer, untouched, rocks_db_history_after]

theorem rocks_db_returns (earlier : List Call) (call : Call) :
    answer (rocksDbAfter earlier) call ≠ .panicked := by
  cases call with
  | _ => simp [answer, rocksDbAfter, WorldState.getRange]

theorem rocks_db_history_nil {earlier : List Call} {call : Call} {found : List HistoryEntry}
    (given : answer (rocksDbAfter earlier) call = .history found) : found = [] := by
  cases call with
  | getHistory key =>
    rw [answer, rocks_db_history_after] at given
    cases given
    rfl
  | getRange start stop => cases given
  | _ => cases given

theorem agrees_iff (earlier : List Call) (call : Call) :
    Agrees clock earlier call ↔ Harmless earlier call := by
  constructor
  · intro agrees
    cases call with
    | getRange start stop =>
      intro backwards
      apply agrees.memoryReturns
      simp only [answer, memoryAfter, WorldState.getRange, getRange,
        if_pos backwards]
    | getHistory key =>
      have same := agrees.same
      simp only [answer, Answer.untimed, rocks_db_history_after, List.map_nil,
        Answer.history.injEq, List.map_eq_nil_iff] at same
      exact (memory_history_eq_nil_iff clock key earlier).mp same
    | _ => trivial
  · intro harmless
    have same := answers_same clock harmless
    have returns := rocks_db_returns earlier call
    refine ⟨congrArg Answer.untimed same, same ▸ returns, returns, ?_⟩
    intro found given
    rw [same, or_self] at given
    rw [rocks_db_history_nil given]
    exact List.Pairwise.nil

/-- The stores agree on a sequence of calls exactly when each of them is harmless
after those before it; and the history that the memory store has for a key rises
exactly when nothing follows a delete of the key and the versions do not wrap. -/
theorem world_states_agree_iff (calls : List Call) :
    ((∀ earlier call, earlier ++ [call] <+: calls → Agrees clock earlier call) ↔
      ∀ earlier call, earlier ++ [call] <+: calls → Harmless earlier call) ∧
    ∀ key, Rising ((memoryAfter clock calls).getHistory key) ↔ OneLife key calls := by
  constructor
  · simp only [agrees_iff]
  · intro key
    have law := versions_rise_iff 0 (touches key calls) (by decide)
    rw [UInt64.toNat_zero, Nat.zero_add] at law
    rw [Rising, versions_from_fresh, law, OneLife]

/-- After one put only the memory store has a history; a range asked for backwards
panics there and is empty in RocksDB; and a key that was deleted starts over. -/
theorem world_states_disagree :
    answer (memoryAfter (fun _ _ => 0) [.put "a" [1]]) (.getHistory "a") =
        .history [⟨1, [1], "", 0, false⟩] ∧
      answer (rocksDbAfter [.put "a" [1]]) (.getHistory "a") = .history [] ∧
      answer (memoryAfter (fun _ _ => 0) []) (.getRange "b" "a") = .panicked ∧
      answer (rocksDbAfter []) (.getRange "b" "a") = .entries [] ∧
      ((memoryAfter (fun _ _ => 0) [.put "a" [1], .delete "a", .put "a" [2]]).getHistory "a").map
        HistoryEntry.version = [1, 2, 1] := by
  decide +kernel

end CeruleanLedger.WorldStateAgreement
