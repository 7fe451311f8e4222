import CeruleanLedger.IterationOrder
import CeruleanLedger.Mvcc

/-!
Chaincode simulation: `SimulationWorldState` of `chaincode/simulation.rs` and
the state-facing host calls of `chaincode/executor.rs`. A guest is the tree of
host calls it makes, each call depending on the answers so far; a nested
`invoke_chaincode` runs on the same simulation state and is part of the tree.
Wasm memory, fuel, events and key policies set by the guest are left out.
-/

namespace CeruleanLedger.Simulation

open ByteCodec VersionedState Mvcc

structure SimulationWorldState where
  baseState : WorldState
  writeBuffer : Std.ExtTreeMap String Bytes
  readSet : List KVRead
  deleteSet : List String

/-- The iteration order of the write buffer. -/
abbrev HashOrder := IterationOrder.Arrangement KVWrite

namespace SimulationWorldState

def new (baseState : WorldState) : SimulationWorldState := ⟨baseState, ∅, [], []⟩

def recordRead (sim : SimulationWorldState) (key : String) (version : UInt64) :
    SimulationWorldState :=
  { sim with readSet := sim.readSet ++ [⟨key, version⟩] }

/-- Deleted keys, then buffered writes, then the base; own writes have version 0. -/
def get (sim : SimulationWorldState) (key : String) :
    SimulationWorldState × Option VersionedValue :=
  if sim.deleteSet.contains key then (sim.recordRead key 0, none)
  else match sim.writeBuffer[key]? with
    | some data => (sim.recordRead key 0, some ⟨0, data⟩)
    | none => (sim.recordRead key (sim.baseState.versionOf key), sim.baseState.get key)

def put (sim : SimulationWorldState) (key : String) (data : Bytes) : SimulationWorldState :=
  { sim with
    deleteSet := sim.deleteSet.filter (· ≠ key)
    writeBuffer := sim.writeBuffer.insert key data }

def delete (sim : SimulationWorldState) (key : String) : SimulationWorldState :=
  { sim with
    writeBuffer := sim.writeBuffer.erase key
    deleteSet := if sim.deleteSet.contains key then sim.deleteSet else sim.deleteSet ++ [key] }

def getHistory (sim : SimulationWorldState) (key : String) : List HistoryEntry :=
  sim.baseState.getHistory key

def bufferedWrites (sim : SimulationWorldState) : List KVWrite :=
  sim.writeBuffer.toList.map fun entry => ⟨entry.1, entry.2⟩

/-- The base range without the keys deleted or written here, the writes in the
range, and a sort by key; unlike `get`, nothing is recorded as read. -/
def getRange (order : HashOrder) (sim : SimulationWorldState) (start stop : String) :
    Option (List (String × VersionedValue)) :=
  (sim.baseState.getRange start stop).map fun base =>
    let kept := base.filter fun entry =>
      !sim.deleteSet.contains entry.1 && !sim.writeBuffer.contains entry.1
    let own := (order.arrange sim.bufferedWrites).filter fun write => inRange start stop write.key
    (kept ++ own.map fun write => (write.key, ⟨0, write.value⟩)).mergeSort
      fun left right => decide (left.1 ≤ right.1)

def toRwset (order : HashOrder) (sim : SimulationWorldState) : ReadWriteSet :=
  ⟨sim.readSet, order.arrange sim.bufferedWrites⟩

end SimulationWorldState

inductive Guest where
  | done (result : Bytes)
  | trap (reason : String)
  | getState (key : String) (next : Option Bytes → Guest)
  | putState (key : String) (value : Bytes) (next : Guest)
  | getHistoryForKey (key : String) (next : List HistoryEntry → Guest)

def invoke : Guest → SimulationWorldState → SimulationWorldState × Except String Bytes
  | .done result, sim => (sim, .ok result)
  | .trap reason, sim => (sim, .error reason)
  | .getState key next, sim =>
    let (sim, value) := sim.get key
    invoke (next (value.map VersionedValue.data)) sim
  | .putState key value next, sim => invoke next (sim.put key value)
  | .getHistoryForKey key next, sim => invoke (next (sim.getHistory key)) sim

def simulate (guest : Guest) (order : HashOrder) (state : WorldState) :
    Except String (Bytes × ReadWriteSet) :=
  match invoke guest (.new state) with
  | (_, .error reason) => .error reason
  | (sim, .ok result) => .ok (result, sim.toRwset order)

/-- The guest never asks for a key's history, which the read set omits. -/
def Guest.NoHistory : Guest → Prop
  | .done _ => True
  | .trap _ => True
  | .getState _ next => ∀ value, (next value).NoHistory
  | .putState _ _ next => next.NoHistory
  | .getHistoryForKey _ _ => False

theorem get_of_deleted {sim : SimulationWorldState} {key : String}
    (deleted : sim.deleteSet.contains key = true) :
    sim.get key = (sim.recordRead key 0, none) := by
  rw [SimulationWorldState.get, if_pos deleted]

theorem get_of_buffered {sim : SimulationWorldState} {key : String} {data : Bytes}
    (live : ¬ sim.deleteSet.contains key = true) (buffered : sim.writeBuffer[key]? = some data) :
    sim.get key = (sim.recordRead key 0, some ⟨0, data⟩) := by
  rw [SimulationWorldState.get, if_neg live, buffered]

theorem get_of_base {sim : SimulationWorldState} {key : String}
    (live : ¬ sim.deleteSet.contains key = true) (unbuffered : sim.writeBuffer[key]? = none) :
    sim.get key =
      (sim.recordRead key (sim.baseState.versionOf key), sim.baseState.get key) := by
  rw [SimulationWorldState.get, if_neg live, unbuffered]

variable (guest : Guest) (order : HashOrder) (sim : SimulationWorldState)

theorem get_reads (key : String) : ∃ version, (sim.get key).1 = sim.recordRead key version := by
  by_cases deleted : sim.deleteSet.contains key = true
  · exact ⟨_, congrArg Prod.fst (get_of_deleted deleted)⟩
  · cases buffered : sim.writeBuffer[key]? with
    | some data => exact ⟨_, congrArg Prod.fst (get_of_buffered deleted buffered)⟩
    | none => exact ⟨_, congrArg Prod.fst (get_of_base deleted buffered)⟩

theorem invoke_get_state (key : String) (next : Option Bytes → Guest)
    (sim : SimulationWorldState) : invoke (.getState key next) sim =
      invoke (next ((sim.get key).2.map VersionedValue.data)) (sim.get key).1 := rfl

theorem read_set_grows (read : KVRead) (member : read ∈ sim.readSet) :
    read ∈ (invoke guest sim).1.readSet := by
  induction guest generalizing sim with
  | done result => exact member
  | trap reason => exact member
  | getState key next ih =>
    obtain ⟨version, recorded⟩ := get_reads sim key
    rw [invoke_get_state, recorded]
    exact ih _ _ (List.mem_append_left _ member)
  | putState key value next ih => exact ih _ member
  | getHistoryForKey key next ih => exact ih _ _ member

def SimulationWorldState.rebase (sim : SimulationWorldState) (other : WorldState) :
    SimulationWorldState :=
  { sim with baseState := other }

theorem get_rebase_shadowed {key : String}
    (shadowed : sim.deleteSet.contains key = true ∨ (sim.writeBuffer[key]?).isSome = true)
    (other : WorldState) :
    (sim.rebase other).get key = ((sim.get key).1.rebase other, (sim.get key).2) := by
  by_cases deleted : sim.deleteSet.contains key = true
  · rw [get_of_deleted deleted, @get_of_deleted (sim.rebase other) key deleted]
    rfl
  · obtain ⟨data, buffered⟩ := Option.isSome_iff_exists.mp (shadowed.resolve_left deleted)
    rw [get_of_buffered deleted buffered,
      @get_of_buffered (sim.rebase other) key data deleted buffered]
    rfl

theorem get_rebase (other : WorldState) (key : String)
    (agree : ⟨key, sim.baseState.versionOf key⟩ ∈ (sim.get key).1.readSet →
      other.get key = sim.baseState.get key) :
    (sim.rebase other).get key = ((sim.get key).1.rebase other, (sim.get key).2) := by
  by_cases shadowed : sim.deleteSet.contains key = true ∨ (sim.writeBuffer[key]?).isSome = true
  · exact get_rebase_shadowed sim shadowed other
  · obtain ⟨live, unbuffered⟩ := not_or.mp shadowed
    have unbuffered := Option.not_isSome_iff_eq_none.mp unbuffered
    rw [get_of_base live unbuffered] at agree ⊢
    have same := agree (List.mem_append_right _ (List.mem_singleton_self _))
    rw [@get_of_base (sim.rebase other) key live unbuffered]
    simp [SimulationWorldState.rebase, SimulationWorldState.recordRead,
      WorldState.versionOf, same]

/-- Two base states that agree on what the guest read from the first one give
the same simulation. -/
theorem invoke_agrees (other : WorldState) (noHistory : guest.NoHistory)
    (agree : ∀ key, ⟨key, sim.baseState.versionOf key⟩ ∈ (invoke guest sim).1.readSet →
      other.get key = sim.baseState.get key) :
    invoke guest (sim.rebase other) =
      ((invoke guest sim).1.rebase other, (invoke guest sim).2) := by
  induction guest generalizing sim with
  | done result => rfl
  | trap reason => rfl
  | putState key value next ih => exact ih (sim.put key value) noHistory agree
  | getHistoryForKey key next _ => exact absurd noHistory id
  | getState key next ih =>
    obtain ⟨version, recorded⟩ := get_reads sim key
    have keptBase : (sim.get key).1.baseState = sim.baseState := by
      rw [recorded]
      rfl
    have readAgrees : (sim.rebase other).get key =
        ((sim.get key).1.rebase other, (sim.get key).2) := by
      apply get_rebase
      intro member
      exact agree key (by rw [invoke_get_state]; exact read_set_grows _ _ _ member)
    rw [invoke_get_state, invoke_get_state, readAgrees]
    apply ih _ (sim.get key).1 (noHistory _)
    rw [keptBase]
    intro probe member
    exact agree probe (by rw [invoke_get_state]; exact member)

theorem simulate_agrees (state other : WorldState) (result : Bytes) (rwset : ReadWriteSet)
    (noHistory : guest.NoHistory) (simulated : simulate guest order state = .ok (result, rwset))
    (agree : ∀ key, ⟨key, state.versionOf key⟩ ∈ rwset.reads → other.get key = state.get key) :
    simulate guest order other = .ok (result, rwset) := by
  unfold simulate at simulated ⊢
  cases run : invoke guest (.new state) with
  | mk sim answer =>
    rw [run] at simulated
    cases answer with
    | error reason => cases simulated
    | ok value =>
      cases simulated
      have agrees := invoke_agrees guest (.new state) other noHistory (by rwa [run])
      have moved : SimulationWorldState.new other =
          (SimulationWorldState.new state).rebase other := rfl
      rw [moved, agrees, run]
      rfl

theorem buffered_keys_nodup : (sim.bufferedWrites.map KVWrite.key).Nodup := by
  rw [SimulationWorldState.bufferedWrites, List.map_map]
  exact OrderedMap.keys_nodup sim.writeBuffer

theorem simulate_keys_nodup (state : WorldState) (result : Bytes) (rwset : ReadWriteSet)
    (simulated : simulate guest order state = .ok (result, rwset)) :
    (rwset.writes.map KVWrite.key).Nodup := by
  unfold simulate at simulated
  split at simulated
  · cases simulated
  · cases simulated
    exact ((order.perm _).map _).nodup_iff.mpr (buffered_keys_nodup _)

theorem simulate_order (order' : HashOrder) (state : WorldState) (result : Bytes)
    (rwset : ReadWriteSet) (simulated : simulate guest order state = .ok (result, rwset)) :
    ∃ writes, simulate guest order' state = .ok (result, ⟨rwset.reads, writes⟩) ∧
      writes.Perm rwset.writes := by
  unfold simulate at simulated ⊢
  split at simulated
  · cases simulated
  · cases simulated
    exact ⟨_, rfl, (order'.perm _).trans (order.perm _).symm⟩

end CeruleanLedger.Simulation
