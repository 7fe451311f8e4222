import CeruleanLedger.CallPrograms
import CeruleanLedger.Simulation

/-!
Simulating a program and committing its writes, against running the program on
the state itself. The two answer every call with the same data, but not with the
same versions, and the exported write set has no deletions: a key of the base
that the program leaves deleted is still there after the commit.
-/

namespace CeruleanLedger.SimulatedCommit

open ByteCodec
open CallPrograms
open Mvcc
open OrderedMap
open Simulation
open VersionedState

inductive Call
  | get (key : String)
  | put (key : String) (data : Bytes)
  | delete (key : String)
  | getRange (start stop : String)

def Answer : Call → Type
  | .get _ => Option VersionedValue
  | .put _ _ => UInt64
  | .delete _ => Unit
  | .getRange _ _ => List (String × VersionedValue)

/-- Execution on the state itself. A panic of the range scan stops the program. -/
def direct (clock : Clock) : Machine Answer MemoryWorldState
  | .get key, state => some (state, state.inner[key]?)
  | .put key data, state => some (state.put clock key data, nextVersion state.inner key)
  | .delete key, state => some (state.delete clock key, ())
  | .getRange start stop, state => (state.getRange start stop).map fun listed => (state, listed)

/-- Execution on the simulation; a put has no version yet and answers zero. -/
def simulated (order : HashOrder) : Machine Answer SimulationWorldState
  | .get key, sim => some (sim.get key)
  | .put key data, sim => some (sim.put key data, (0 : UInt64))
  | .delete key, sim => some (sim.delete key, ())
  | .getRange start stop, sim => (sim.getRange order start stop).map fun listed => (sim, listed)

abbrev Chaincode := Program Call Answer

def committed (clock : Clock) (order : HashOrder) (program : Chaincode)
    (base : MemoryWorldState) : Option WorldState :=
  (run (simulated order) program (.new (.memory base))).map fun sim =>
    applyWrites clock (sim.toRwset order).writes (.memory base)

def executed (clock : Clock) (program : Chaincode) (base : MemoryWorldState) :
    Option WorldState :=
  (run (direct clock) program base).map WorldState.memory

def written (key : String) : Call → Option (Option Bytes)
  | .put other data => if other = key then some (some data) else none
  | .delete other => if other = key then some none else none
  | _ => none

/-- What calls leave of a key: its last put or deletion decides. -/
def after (key : String) (content : Option Bytes) (calls : List Call) : Option Bytes :=
  calls.foldl (fun content request => (written key request).getD content) content

def withoutVersion (entry : String × VersionedValue) : String × Bytes := (entry.1, entry.2.data)

def sameAnswer : (request : Call) → Answer request → Answer request → Prop
  | .get _, answer, other =>
    Option.map VersionedValue.data answer = Option.map VersionedValue.data other
  | .put _ _, _, _ => True
  | .delete _, _, _ => True
  | .getRange _ _, answer, other => List.map withoutVersion answer = List.map withoutVersion other

def view (sim : SimulationWorldState) (key : String) : Option Bytes :=
  if sim.deleteSet.contains key then none
  else match sim.writeBuffer[key]? with
    | some data => some data
    | none => sim.baseState.dataOf key

structure Overlays (base : MemoryWorldState) (sim : SimulationWorldState)
    (state : MemoryWorldState) : Prop where
  base_eq : sim.baseState = .memory base
  apart : ∀ key, sim.deleteSet.contains key = true → sim.writeBuffer[key]? = none
  shows : ∀ key, view sim key = (WorldState.memory state).dataOf key

section View

variable {sim : SimulationWorldState} {key : String}

theorem view_of_deleted (deleted : sim.deleteSet.contains key = true) : view sim key = none := by
  rw [view, if_pos deleted]

theorem view_of_buffered {data : Bytes} (live : ¬ sim.deleteSet.contains key = true)
    (buffered : sim.writeBuffer[key]? = some data) : view sim key = some data := by
  rw [view, if_neg live, buffered]

theorem view_of_base (live : ¬ sim.deleteSet.contains key = true)
    (unbuffered : sim.writeBuffer[key]? = none) :
    view sim key = sim.baseState.dataOf key := by
  rw [view, if_neg live, unbuffered]

theorem get_data (sim : SimulationWorldState) (key : String) :
    (sim.get key).2.map VersionedValue.data = view sim key := by
  by_cases deleted : sim.deleteSet.contains key = true
  · rw [get_of_deleted deleted, view_of_deleted deleted, Option.map_none]
  · cases buffered : sim.writeBuffer[key]? with
    | some data => rw [get_of_buffered deleted buffered, view_of_buffered deleted buffered,
        Option.map_some]
    | none => rw [get_of_base deleted buffered, view_of_base deleted buffered, WorldState.dataOf]

theorem deleted_put (sim : SimulationWorldState) (key : String) (data : Bytes) (other : String) :
    (sim.put key data).deleteSet.contains other = true ↔
      key ≠ other ∧ sim.deleteSet.contains other = true := by
  simp only [SimulationWorldState.put, List.contains_iff_mem, List.mem_filter, decide_eq_true_eq]
  constructor
  · rintro ⟨member, differs⟩
    exact ⟨Ne.symm differs, member⟩
  · rintro ⟨differs, member⟩
    exact ⟨member, Ne.symm differs⟩

theorem buffered_put (sim : SimulationWorldState) (key : String) (data : Bytes) (other : String) :
    (sim.put key data).writeBuffer[other]? =
      if key = other then some data else sim.writeBuffer[other]? := by
  rw [SimulationWorldState.put, get_insert]

theorem deleted_delete (sim : SimulationWorldState) (key other : String) :
    (sim.delete key).deleteSet.contains other = true ↔
      key = other ∨ sim.deleteSet.contains other = true := by
  simp only [SimulationWorldState.delete]
  by_cases already : sim.deleteSet.contains key = true
  · rw [if_pos already]
    constructor
    · exact Or.inr
    · rintro (rfl | member)
      · exact already
      · exact member
  · rw [if_neg already, List.contains_iff_mem, List.contains_iff_mem, List.mem_append,
      List.mem_singleton, or_comm, eq_comm]

theorem buffered_delete (sim : SimulationWorldState) (key other : String) :
    (sim.delete key).writeBuffer[other]? =
      if key = other then none else sim.writeBuffer[other]? := by
  rw [SimulationWorldState.delete, get_erase]

theorem view_put (sim : SimulationWorldState) (key : String) (data : Bytes) (other : String) :
    view (sim.put key data) other = if key = other then some data else view sim other := by
  by_cases same : key = other
  · have live : ¬ (sim.put key data).deleteSet.contains other = true := by
      rw [deleted_put]
      exact fun both => both.1 same
    have buffered : (sim.put key data).writeBuffer[other]? = some data := by
      rw [buffered_put, if_pos same]
    rw [view_of_buffered live buffered, if_pos same]
  · have kept : (sim.put key data).deleteSet.contains other = sim.deleteSet.contains other := by
      rw [Bool.eq_iff_iff, deleted_put]
      exact ⟨And.right, fun member => ⟨same, member⟩⟩
    rw [view, kept, buffered_put, if_neg same, if_neg same, view]
    rfl

theorem view_delete (sim : SimulationWorldState) (key other : String) :
    view (sim.delete key) other = if key = other then none else view sim other := by
  by_cases same : key = other
  · have deleted : (sim.delete key).deleteSet.contains other = true := by
      rw [deleted_delete]
      exact Or.inl same
    rw [view_of_deleted deleted, if_pos same]
  · have kept : (sim.delete key).deleteSet.contains other = sim.deleteSet.contains other := by
      rw [Bool.eq_iff_iff, deleted_delete]
      exact ⟨fun either => either.resolve_left same, Or.inr⟩
    rw [view, kept, buffered_delete, if_neg same, if_neg same, view]
    rfl

end View

section Listing

structure Lists (contents : String → Option Bytes) (start stop : String)
    (entries : List (String × Bytes)) : Prop where
  ordered : entries.Pairwise fun left right => left.1 < right.1
  members : ∀ key data, (key, data) ∈ entries ↔
    inRange start stop key = true ∧ contents key = some data

variable {contents : String → Option Bytes} {start stop : String}

theorem Lists.nodup {entries : List (String × Bytes)} (lists : Lists contents start stop entries) :
    entries.Nodup := by
  refine lists.ordered.imp ?_
  intro left right less same
  rw [same] at less
  exact absurd less (lt_irrefl _)

theorem lists_unique {first second : List (String × Bytes)}
    (left : Lists contents start stop first) (right : Lists contents start stop second) :
    first = second := by
  have perm : first.Perm second := by
    rw [List.perm_ext_iff_of_nodup left.nodup right.nodup]
    rintro ⟨key, data⟩
    rw [left.members, right.members]
  refine List.Perm.eq_of_pairwise ?_ left.ordered right.ordered perm
  intro entry other _ _ less greater
  exact absurd greater (lt_asymm less)

theorem direct_lists (state : MemoryWorldState) (start stop : String) :
    Lists (WorldState.memory state).dataOf start stop
      ((state.inner.toList.filter fun entry => inRange start stop entry.1).map withoutVersion) where
  ordered := by
    rw [List.pairwise_map]
    exact (entries_sorted state.inner).filter _
  members := by
    intro key data
    simp only [List.mem_map, List.mem_filter, withoutVersion, Prod.mk.injEq, WorldState.dataOf,
      WorldState.get, WorldState.inner, Option.map_eq_some_iff]
    constructor
    · rintro ⟨⟨other, value⟩, ⟨listed, within⟩, rfl, rfl⟩
      exact ⟨within, value, Std.ExtTreeMap.mem_toList_iff_getElem?_eq_some.mp listed, rfl⟩
    · rintro ⟨within, value, present, rfl⟩
      exact ⟨(key, value), ⟨Std.ExtTreeMap.mem_toList_iff_getElem?_eq_some.mpr present, within⟩,
        rfl, rfl⟩

theorem sorted_by_key {Value : Type} (entries : List (String × Value))
    (distinct : (entries.map Prod.fst).Nodup) :
    (entries.mergeSort fun left right => decide (left.1 ≤ right.1)).Pairwise
      fun left right => left.1 < right.1 := by
  have sorted := List.pairwise_mergeSort
    (fun (a b c : String × Value) first second => decide_eq_true
      (le_trans (of_decide_eq_true first : a.1 ≤ b.1) (of_decide_eq_true second : b.1 ≤ c.1)))
    (fun a b => by simpa using le_total a.1 b.1) entries
  -- The sort is by `≤`; keys that differ make it strict.
  have apart : (entries.mergeSort fun left right => decide (left.1 ≤ right.1)).Pairwise
      fun left right => left.1 ≠ right.1 := by
    rw [← List.pairwise_map]
    exact ((List.mergeSort_perm entries _).map Prod.fst).nodup_iff.mpr distinct
  refine (sorted.and apart).imp ?_
  rintro left right ⟨ordered, differ⟩
  exact lt_of_le_of_ne (of_decide_eq_true ordered) differ

end Listing

section Ranges

variable (order : HashOrder) (sim : SimulationWorldState) (start stop : String)

def keptEntries (entries : List (String × VersionedValue)) : List (String × VersionedValue) :=
  entries.filter fun entry =>
    !sim.deleteSet.contains entry.1 && !sim.writeBuffer.contains entry.1

def ownEntries : List (String × VersionedValue) :=
  ((order.arrange sim.bufferedWrites).filter fun write => inRange start stop write.key).map
    fun write => (write.key, ⟨0, write.value⟩)

theorem mem_own_entries (entry : String × VersionedValue) :
    entry ∈ ownEntries order sim start stop ↔
      inRange start stop entry.1 = true ∧ entry.2.version = 0 ∧
        sim.writeBuffer[entry.1]? = some entry.2.data := by
  obtain ⟨key, version, data⟩ := entry
  simp only [ownEntries, List.mem_map, List.mem_filter, (order.perm _).mem_iff,
    SimulationWorldState.bufferedWrites, Prod.exists, Prod.mk.injEq, VersionedValue.mk.injEq]
  constructor
  · rintro ⟨write, ⟨⟨other, value, listed, rfl⟩, within⟩, rfl, rfl, rfl⟩
    exact ⟨within, rfl, Std.ExtTreeMap.mem_toList_iff_getElem?_eq_some.mp listed⟩
  · rintro ⟨within, rfl, buffered⟩
    exact ⟨⟨key, data⟩, ⟨⟨key, data, Std.ExtTreeMap.mem_toList_iff_getElem?_eq_some.mpr buffered,
      rfl⟩, within⟩, rfl, rfl, rfl⟩

theorem mem_kept_entries (base : MemoryWorldState) (entry : String × VersionedValue) :
    entry ∈ keptEntries sim (base.inner.toList.filter fun entry => inRange start stop entry.1) ↔
      inRange start stop entry.1 = true ∧ base.inner[entry.1]? = some entry.2 ∧
        sim.deleteSet.contains entry.1 = false ∧ sim.writeBuffer[entry.1]? = none := by
  simp only [keptEntries, List.mem_filter, Bool.and_eq_true, Bool.not_eq_true',
    Std.ExtTreeMap.contains_eq_isSome_getElem?, Option.isSome_eq_false_iff,
    Option.isNone_iff_eq_none]
  rw [show entry = (entry.1, entry.2) from rfl, Std.ExtTreeMap.mem_toList_iff_getElem?_eq_some]
  constructor
  · rintro ⟨⟨present, within⟩, live, unbuffered⟩
    exact ⟨within, present, live, unbuffered⟩
  · rintro ⟨within, present, live, unbuffered⟩
    exact ⟨⟨present, within⟩, live, unbuffered⟩

theorem own_keys_nodup : ((ownEntries order sim start stop).map Prod.fst).Nodup := by
  have distinct : ((order.arrange sim.bufferedWrites).map KVWrite.key).Nodup :=
    ((order.perm _).map _).nodup_iff.mpr (buffered_keys_nodup sim)
  rw [ownEntries, List.map_map]
  exact distinct.sublist (List.filter_sublist.map _)

theorem merged_lists {base : MemoryWorldState} {sim : SimulationWorldState}
    (base_eq : sim.baseState = .memory base)
    (apart : ∀ key, sim.deleteSet.contains key = true → sim.writeBuffer[key]? = none) :
    Lists (view sim) start stop
      (((keptEntries sim (base.inner.toList.filter fun entry => inRange start stop entry.1) ++
        ownEntries order sim start stop).mergeSort
          fun left right => decide (left.1 ≤ right.1)).map withoutVersion) where
  ordered := by
    rw [List.pairwise_map]
    apply sorted_by_key
    rw [List.map_append, List.nodup_append]
    refine ⟨(keys_nodup base.inner).sublist ((List.filter_sublist.trans List.filter_sublist).map _),
      own_keys_nodup order sim start stop, ?_⟩
    -- A kept key is not in the write buffer, and an own one is.
    intro key keptKey other ownKey same
    obtain ⟨kept, keptMem, rfl⟩ := List.mem_map.mp keptKey
    obtain ⟨own, ownMem, rfl⟩ := List.mem_map.mp ownKey
    have unbuffered := ((mem_kept_entries sim start stop base kept).mp keptMem).2.2.2
    have buffered := ((mem_own_entries order sim start stop own).mp ownMem).2.2
    rw [same, buffered] at unbuffered
    cases unbuffered
  members := by
    intro key data
    simp only [List.mem_map, List.mem_mergeSort, List.mem_append, mem_kept_entries,
      mem_own_entries, withoutVersion, Prod.mk.injEq]
    constructor
    · rintro ⟨⟨other, value⟩, kept | own, rfl, rfl⟩
      · obtain ⟨within, present, live, unbuffered⟩ := kept
        refine ⟨within, ?_⟩
        rw [view_of_base (Bool.eq_false_iff.mp live) unbuffered, base_eq, WorldState.dataOf,
          WorldState.get, WorldState.inner, present, Option.map_some]
      · obtain ⟨within, -, buffered⟩ := own
        have live : ¬ sim.deleteSet.contains other = true := by
          intro deleted
          rw [apart other deleted] at buffered
          cases buffered
        exact ⟨within, view_of_buffered live buffered⟩
    · rintro ⟨within, shown⟩
      simp only [view] at shown
      split at shown
      · cases shown
      · next live =>
        split at shown
        · next own buffered =>
          cases shown
          exact ⟨(key, ⟨0, data⟩), Or.inr ⟨within, rfl, buffered⟩, rfl, rfl⟩
        · next unbuffered =>
          rw [base_eq, WorldState.dataOf, WorldState.get, WorldState.inner,
            Option.map_eq_some_iff] at shown
          obtain ⟨value, present, rfl⟩ := shown
          exact ⟨(key, value), Or.inl ⟨within, present, Bool.eq_false_iff.mpr live, unbuffered⟩,
            rfl, rfl⟩

end Ranges

section Steps

variable {base : MemoryWorldState} {sim : SimulationWorldState} {state : MemoryWorldState}

theorem overlays_new (base : MemoryWorldState) : Overlays base (.new (.memory base)) base where
  base_eq := rfl
  apart := nofun
  shows := fun _ => rfl

theorem overlays_get (overlays : Overlays base sim state) (key : String) :
    Overlays base (sim.get key).1 state := by
  obtain ⟨version, recorded⟩ := get_reads sim key
  rw [recorded]
  exact ⟨overlays.base_eq, overlays.apart, overlays.shows⟩

theorem overlays_put (clock : Clock) (overlays : Overlays base sim state) (key : String)
    (data : Bytes) : Overlays base (sim.put key data) (state.put clock key data) where
  base_eq := overlays.base_eq
  apart := by
    intro other deleted
    obtain ⟨differs, before⟩ := (deleted_put sim key data other).mp deleted
    rw [buffered_put, if_neg differs, overlays.apart other before]
  shows := by
    intro other
    have written := WorldState.get_put clock (.memory state) key other data
    rw [WorldState.put] at written
    rw [view_put, WorldState.dataOf, written, overlays.shows, WorldState.dataOf]
    by_cases same : key = other
    · rw [if_pos same, if_pos same, Option.map_some]
    · rw [if_neg same, if_neg same]

theorem overlays_delete (clock : Clock) (overlays : Overlays base sim state) (key : String) :
    Overlays base (sim.delete key) (state.delete clock key) where
  base_eq := overlays.base_eq
  apart := by
    intro other deleted
    rw [buffered_delete]
    rcases (deleted_delete sim key other).mp deleted with same | before
    · rw [if_pos same]
    · rw [overlays.apart other before, ite_self]
  shows := by
    intro other
    have removed := WorldState.get_delete clock (.memory state) key other
    rw [WorldState.delete] at removed
    rw [view_delete, WorldState.dataOf, removed, overlays.shows, WorldState.dataOf]
    by_cases same : key = other
    · rw [if_pos same, if_pos same, Option.map_none]
    · rw [if_neg same, if_neg same]

theorem range_alike (order : HashOrder) (overlays : Overlays base sim state)
    (start stop : String) :
    Option.Rel (fun listed other => listed.map withoutVersion = other.map withoutVersion)
      (sim.getRange order start stop) (state.getRange start stop) := by
  rw [SimulationWorldState.getRange, overlays.base_eq, WorldState.getRange,
    MemoryWorldState.getRange, MemoryWorldState.getRange]
  by_cases inverted : stop < start
  · rw [if_pos inverted, if_pos inverted]
    exact .none
  · rw [if_neg inverted, if_neg inverted]
    refine .some ?_
    have merged := merged_lists order start stop overlays.base_eq overlays.apart
    have shown : view sim = (WorldState.memory state).dataOf := funext overlays.shows
    rw [shown] at merged
    exact lists_unique merged (direct_lists state start stop)

theorem machines_alike (clock : Clock) (order : HashOrder) (base : MemoryWorldState) :
    Alike (simulated order) (direct clock) sameAnswer (Overlays base) := by
  intro request sim state overlays
  cases request with
  | get key =>
    refine .some ⟨overlays_get overlays key, ?_⟩
    exact (get_data sim key).trans (overlays.shows key)
  | put key data => exact .some ⟨overlays_put clock overlays key data, trivial⟩
  | delete key => exact .some ⟨overlays_delete clock overlays key, trivial⟩
  | getRange start stop =>
    have listed := range_alike order overlays start stop
    simp only [simulated, direct]
    generalize sim.getRange order start stop = left at listed
    generalize state.getRange start stop = right at listed
    cases listed with
    | none => exact .none
    | some same => exact .some ⟨overlays, same⟩

end Steps

def transient : Chaincode :=
  .call (.put "k" [1]) fun _ => .call (.delete "k") fun _ => .call (.get "k") fun _ => .done

def noTime : Clock := fun _ _ => 0

def emptyBase : MemoryWorldState := ⟨∅, ∅⟩

def stockedBase : MemoryWorldState := emptyBase.put noTime "k" [1]

end CeruleanLedger.SimulatedCommit
