import CeruleanLedger.SimulatedCommit

/-!
What the read set of a simulation records of the base. Every point read is recorded, but a read
of the simulation's own write or delete is recorded with version zero, whatever version the key
has in the base; range scans and histories are not recorded at all.
-/

namespace CeruleanLedger.ReadCoverage

open CallPrograms
open Mvcc
open SimulatedCommit
open Simulation
open VersionedState SimulationWorldState

section Recording

variable {sim : SimulationWorldState} {key : String}

def Shadowed (sim : SimulationWorldState) (key : String) : Prop :=
  sim.deleteSet.contains key = true ∨ (sim.writeBuffer[key]?).isSome = true

theorem get_of_shadowed (shadowed : Shadowed sim key) :
    (sim.get key).1 = sim.recordRead key 0 := by
  by_cases deleted : sim.deleteSet.contains key = true
  · rw [get_of_deleted deleted]
  · obtain ⟨data, buffered⟩ := Option.isSome_iff_exists.mp (shadowed.resolve_left deleted)
    rw [get_of_buffered deleted buffered]

theorem get_of_not_shadowed (through : ¬ Shadowed sim key) :
    sim.get key = (sim.recordRead key (sim.baseState.versionOf key), sim.baseState.get key) := by
  obtain ⟨live, unbuffered⟩ := not_or.mp through
  exact get_of_base live (Option.not_isSome_iff_eq_none.mp unbuffered)

end Recording

def RecordsBase (sim : SimulationWorldState) : Prop :=
  ∀ read ∈ sim.readSet, read.version = sim.baseState.versionOf read.key

/-- A read of an own write or delete asks for a key of version zero in the base,
as an absent key is. -/
def OwnReadsUnversioned (sim : SimulationWorldState) : Call → Prop
  | .get key => Shadowed sim key → sim.baseState.versionOf key = 0
  | _ => True

theorem records_base_read (sim : SimulationWorldState) (key : String) (version : UInt64) :
    RecordsBase (sim.recordRead key version) ↔
      RecordsBase sim ∧ version = sim.baseState.versionOf key := by
  simp only [RecordsBase, recordRead, List.forall_mem_append,
    List.forall_mem_singleton]

theorem records_base_get (sim : SimulationWorldState) (key : String) :
    RecordsBase (sim.get key).1 ↔
      RecordsBase sim ∧ (Shadowed sim key → sim.baseState.versionOf key = 0) := by
  by_cases shadowed : Shadowed sim key
  · rw [get_of_shadowed shadowed, records_base_read, forall_prop_of_true shadowed, eq_comm]
  · rw [get_of_not_shadowed shadowed, records_base_read]
    simp only [shadowed, false_imp_iff, and_true]

theorem records_base_step (order : HashOrder) (request : Call) (sim : SimulationWorldState)
    (reply : SimulationWorldState × Answer request)
    (answered : simulated order request sim = some reply) :
    RecordsBase reply.1 ↔ RecordsBase sim ∧ OwnReadsUnversioned sim request := by
  cases request with
  | get key =>
    cases answered
    exact records_base_get sim key
  | getRange start stop =>
    obtain ⟨listed, -, rfl⟩ := Option.map_eq_some_iff.mp answered
    exact (and_iff_left trivial).symm
  | _ =>
    cases answered
    exact (and_iff_left trivial).symm

theorem base_step (order : HashOrder) (request : Call) (sim : SimulationWorldState)
    (reply : SimulationWorldState × Answer request)
    (answered : simulated order request sim = some reply) :
    reply.1.baseState = sim.baseState := by
  cases request with
  | get key =>
    cases answered
    obtain ⟨version, recorded⟩ := get_reads sim key
    rw [recorded]
    rfl
  | getRange start stop =>
    obtain ⟨listed, -, rfl⟩ := Option.map_eq_some_iff.mp answered
    rfl
  | _ =>
    cases answered
    rfl

/-- On an unchanged base the read set validates exactly when the program never
reads back a key it has written or deleted and that has a version in the base. -/
theorem lone_commit_valid_iff (order order' : HashOrder) (program : Chaincode)
    (base : WorldState) (sim : SimulationWorldState)
    (ended : run (simulated order) program (.new base) = some sim) :
    validateRwset (sim.toRwset order') base = .ok () ↔
      Along (simulated order) OwnReadsUnversioned program (.new base) := by
  have kept : sim.baseState = base :=
    run_constant baseState (base_step order) program (.new base) sim ended
  have recorded := run_iff_along (records_base_step order) program (.new base) sim ended
  have fresh : RecordsBase (.new base) := nofun
  rw [and_iff_right fresh, RecordsBase, kept] at recorded
  rw [validateRwset, validate_reads_iff]
  exact recorded

def readBack : Chaincode :=
  .call (.put "k" [2]) fun _ => .call (.get "k") fun _ => .done

def lookAgain : Chaincode := .call (.delete "k") fun _ => .call (.get "k") fun _ => .done

def loneVerdict (program : Chaincode) (base : WorldState) : Option (Except MvccConflict Unit) :=
  (run (simulated .asStored) program (.new base)).map fun sim =>
    validateRwset (sim.toRwset .asStored) base

def transientEnd : SimulationWorldState :=
  ((((new (.memory emptyBase)).put "k" [1]).delete "k").get "k").1

theorem transient_lone_commit_valid :
    run (simulated .asStored) transient (.new (.memory emptyBase)) = some transientEnd ∧
      validateRwset (transientEnd.toRwset .asStored) (.memory emptyBase) = .ok () := by
  refine ⟨rfl, ?_⟩
  apply (lone_commit_valid_iff .asStored .asStored transient (.memory emptyBase) transientEnd rfl).mpr
  -- The only read is of the deleted key, which the base does not have.
  refine (along_call rfl).mpr ⟨trivial, (along_call rfl).mpr ⟨trivial, (along_call rfl).mpr ?_⟩⟩
  exact ⟨fun _ => rfl, trivial⟩

/-- Both programs run alone, on a base that nobody else touches, and conflict. -/
theorem lone_commit_conflicts :
    loneVerdict readBack (.memory stockedBase) = some (.error ⟨"k", 0, 1⟩) ∧
      loneVerdict lookAgain (.memory stockedBase) = some (.error ⟨"k", 0, 1⟩) := by
  decide +kernel

inductive Query
  | state (call : Call)
  | getHistory (key : String)

def QueryAnswer : Query → Type
  | .state call => Answer call
  | .getHistory _ => List HistoryEntry

def observed (order : HashOrder) : Machine QueryAnswer SimulationWorldState
  | .state call, sim => simulated order call sim
  | .getHistory key, sim => some (sim, sim.getHistory key)

abbrev Observer := Program Query QueryAnswer

/-- The program gets the same answers over both bases and buffers the same
writes, or stops over both. -/
def SameOutcome (order : HashOrder) (program : Observer) (base other : WorldState) : Prop :=
  transcript (observed order) program (.new other) =
      transcript (observed order) program (.new base) ∧
    (run (observed order) program (.new other)).map (fun sim => (sim.toRwset order).writes) =
      (run (observed order) program (.new base)).map fun sim => (sim.toRwset order).writes

/-- The other base answers alike what the read set does not record. -/
def UnrecordedAlike (order : HashOrder) (other : WorldState) (sim : SimulationWorldState) :
    Query → Prop
  | .state (.getRange start stop) =>
    (sim.rebase other).getRange order start stop = sim.getRange order start stop
  | .getHistory key => other.getHistory key = sim.baseState.getHistory key
  | .state _ => True

def AgreesOnReads (base other : WorldState) (sim : SimulationWorldState) : Prop :=
  sim.baseState = base ∧ ∀ read ∈ sim.readSet, other.get read.key = base.get read.key

variable {order : HashOrder} {base other : WorldState}
variable (request : Query) (sim : SimulationWorldState)
  (reply : SimulationWorldState × QueryAnswer request)

theorem read_set_step (answered : observed order request sim = some reply) (read : KVRead)
    (member : read ∈ sim.readSet) : read ∈ reply.1.readSet := by
  match request, reply, answered with
  | .state (.get key), _, rfl =>
    obtain ⟨version, recorded⟩ := get_reads sim key
    rw [recorded]
    exact List.mem_append_left _ member
  | .state (.put key data), _, rfl => exact member
  | .state (.delete key), _, rfl => exact member
  | .state (.getRange start stop), reply, answered =>
    obtain ⟨listed, -, rfl⟩ := Option.map_eq_some_iff.mp answered
    exact member
  | .getHistory key, _, rfl => exact member

theorem observed_base (answered : observed order request sim = some reply) :
    reply.1.baseState = sim.baseState := by
  match request, reply, answered with
  | .state call, reply, answered => exact base_step order call sim reply answered
  | .getHistory key, _, rfl => rfl

theorem agrees_backward (answered : observed order request sim = some reply)
    (agrees : AgreesOnReads base other reply.1) : AgreesOnReads base other sim := by
  refine ⟨(observed_base request sim reply answered).symm.trans agrees.1, ?_⟩
  intro read member
  exact agrees.2 read (read_set_step request sim reply answered read member)

theorem rebase_determined (moved : SimulationWorldState × QueryAnswer request)
    (answered : observed order request sim = some reply)
    (answeredOther : observed order request (sim.rebase other) = some moved)
    (same : moved.2 = reply.2) : moved.1 = reply.1.rebase other := by
  match request, reply, moved, answered, answeredOther with
  | .state (.get key), _, _, rfl, rfl =>
    by_cases shadowed : Shadowed sim key
    · rw [get_rebase_shadowed sim shadowed]
    · -- The version recorded is that of the entry returned.
      have through : ¬ Shadowed (sim.rebase other) key := shadowed
      rw [get_of_not_shadowed shadowed, get_of_not_shadowed through] at same ⊢
      have sameEntry : other.get key = sim.baseState.get key := same
      simp only [rebase, recordRead,
        WorldState.versionOf, sameEntry]
  | .state (.put key data), _, _, rfl, rfl => rfl
  | .state (.delete key), _, _, rfl, rfl => rfl
  | .state (.getRange start stop), _, _, answered, answeredOther =>
    obtain ⟨listed, -, rfl⟩ := Option.map_eq_some_iff.mp answered
    obtain ⟨listedOther, -, rfl⟩ := Option.map_eq_some_iff.mp answeredOther
    rfl
  | .getHistory key, _, _, rfl, rfl => rfl

theorem range_shifts_iff (start stop : String) :
    Shifts (observed order) (·.rebase other) sim (.state (.getRange start stop)) ↔
      (sim.rebase other).getRange order start stop = sim.getRange order start stop := by
  have moved : ((sim.getRange order start stop).map (Prod.mk sim)).map
        (fun reply => (reply.1.rebase other, reply.2)) =
      (sim.getRange order start stop).map (Prod.mk (sim.rebase other)) :=
    Option.map_map ..
  have opened : Shifts (observed order) (·.rebase other) sim (.state (.getRange start stop)) ↔
      ((sim.rebase other).getRange order start stop).map (Prod.mk (sim.rebase other)) =
        ((sim.getRange order start stop).map (Prod.mk sim)).map
          fun reply => (reply.1.rebase other, reply.2) := Iff.rfl
  rw [opened, moved]
  exact (Option.map_injective (Prod.mk_right_injective _)).eq_iff

theorem history_shifts_iff (key : String) :
    Shifts (observed order) (·.rebase other) sim (.getHistory key) ↔
      other.getHistory key = sim.baseState.getHistory key := by
  constructor
  · intro shifts
    exact (Prod.mk.inj (Option.some.inj shifts)).2
  · intro same
    exact congrArg (fun entries => some (sim.rebase other, entries)) same

theorem shifts_iff_unrecorded (answered : observed order request sim = some reply)
    (agrees : AgreesOnReads base other reply.1) :
    Shifts (observed order) (·.rebase other) sim request ↔
      UnrecordedAlike order other sim request := by
  obtain ⟨sameBase, -⟩ := agrees_backward request sim reply answered agrees
  match request, reply, answered with
  | .state (.get key), _, rfl =>
    refine iff_of_true ?_ trivial
    have agree : ⟨key, sim.baseState.versionOf key⟩ ∈ (sim.get key).1.readSet →
        other.get key = sim.baseState.get key := by
      rw [sameBase]
      exact agrees.2 ⟨key, _⟩
    exact congrArg some (get_rebase sim other key agree)
  | .state (.put key data), _, rfl => exact iff_of_true rfl trivial
  | .state (.delete key), _, rfl => exact iff_of_true rfl trivial
  | .state (.getRange start stop), reply, answered =>
    exact range_shifts_iff sim start stop
  | .getHistory key, _, rfl => exact history_shifts_iff sim key

theorem same_transcript_iff (program : Observer) (sim : SimulationWorldState)
    (ended : run (observed order) program (.new base) = some sim)
    (agree : ∀ read ∈ sim.readSet, other.get read.key = base.get read.key) :
    transcript (observed order) program (.new other) =
        transcript (observed order) program (.new base) ↔
      Along (observed order) (UnrecordedAlike order other) program (.new base) := by
  have kept : sim.baseState = base :=
    run_constant baseState observed_base program (.new base) sim ended
  have shifted := transcript_shift_iff (·.rebase other) rebase_determined program (.new base) sim
    ended
  have same := along_congr agrees_backward shifts_iff_unrecorded program (.new base) sim ended
    ⟨kept, agree⟩
  exact shifted.trans same

/-- Bases that agree on the read set give the same results and the same writes
exactly when they also answer alike every range scan and history request of the
run, which the read set does not show. -/
theorem same_outcome_iff (order : HashOrder) (program : Observer) (base other : WorldState)
    (sim : SimulationWorldState)
    (ended : run (observed order) program (.new base) = some sim)
    (agree : ∀ read ∈ sim.readSet, other.get read.key = base.get read.key) :
    SameOutcome order program base other ↔
      Along (observed order) (UnrecordedAlike order other) program (.new base) := by
  have transcripts := same_transcript_iff program sim ended agree
  constructor
  · intro same
    exact transcripts.mp same.1
  · intro alike
    have kept : sim.baseState = base :=
      run_constant baseState observed_base program (.new base) sim ended
    have shifts := (along_congr agrees_backward shifts_iff_unrecorded program (.new base) sim
      ended ⟨kept, agree⟩).mpr alike
    have endedOther : run (observed order) program (.new other) = some (sim.rebase other) :=
      run_shift (·.rebase other) program (.new base) sim ended shifts
    refine ⟨transcripts.mpr alike, ?_⟩
    rw [ended, endedOther]
    rfl

def listing : Observer := .call (.state (.getRange "a" "z")) fun _ => .done

def lookBack : Observer := .call (.state (.get "k")) fun _ => .call (.getHistory "k") fun _ => .done

def clearedBase : MemoryWorldState := stockedBase.delete noTime "k"

theorem look_back_covered :
    SameOutcome .asStored lookBack (.memory stockedBase)
      (.memory (stockedBase.put noTime "l" [3])) := by
  have agree : ∀ read ∈ [(⟨"k", 1⟩ : KVRead)],
      (WorldState.memory (stockedBase.put noTime "l" [3])).get read.key =
        (WorldState.memory stockedBase).get read.key := by
    decide +kernel
  apply (same_outcome_iff .asStored lookBack (.memory stockedBase)
    (.memory (stockedBase.put noTime "l" [3])) _ rfl agree).mpr
  refine (along_call rfl).mpr ⟨trivial, (along_call rfl).mpr ⟨?_, trivial⟩⟩
  exact (by decide +kernel : (WorldState.memory (stockedBase.put noTime "l" [3])).getHistory "k" =
    (WorldState.memory stockedBase).getHistory "k")

/-- The other base agrees on everything the run recorded and passes validation,
and the program comes out differently on it. -/
def Misses (program : Observer) (base other : WorldState) : Prop :=
  ∃ sim, run (observed .asStored) program (.new base) = some sim ∧
    (∀ read ∈ sim.readSet, other.get read.key = base.get read.key) ∧
    validateRwset (sim.toRwset .asStored) other = .ok () ∧
    ¬ SameOutcome .asStored program base other

theorem fresh_range_length (order : HashOrder) (base : WorldState) (start stop : String) :
    ((new base).getRange order start stop).map List.length =
      (base.getRange start stop).map List.length := by
  have nothingOwn : order.arrange (new base).bufferedWrites = [] :=
    List.Perm.eq_nil (order.perm _)
  rw [getRange, Option.map_map]
  apply congrArg (Option.map · _)
  funext listed
  simp only [nothingOwn, Function.comp_apply, List.filter_nil, List.map_nil, List.append_nil,
    List.length_mergeSort]
  simp [new]

/-- A new key in a scanned range goes unnoticed, and so does the history of a
key that was read. -/
theorem read_set_misses :
    Misses listing (.memory emptyBase) (.memory stockedBase) ∧
      Misses lookBack (.memory emptyBase) (.memory clearedBase) := by
  constructor
  · refine ⟨.new (.memory emptyBase), rfl, nofun, rfl, ?_⟩
    intro same
    have alike := (same_transcript_iff listing (.new (.memory emptyBase)) rfl nofun).mp same.1
    have scans : (new (.memory stockedBase)).getRange .asStored "a" "z" =
        (new (.memory emptyBase)).getRange .asStored "a" "z" :=
      ((along_call rfl).mp alike).1
    have lengths := congrArg (Option.map List.length) scans
    rw [fresh_range_length, fresh_range_length] at lengths
    exact absurd lengths (by decide +kernel)
  · have recorded : ∀ read ∈ [(⟨"k", 0⟩ : KVRead)], (WorldState.memory clearedBase).get read.key =
        (WorldState.memory emptyBase).get read.key := by
      decide +kernel
    refine ⟨((new (.memory emptyBase)).get "k").1, rfl, ?_, ?_, ?_⟩
    · exact recorded
    · decide +kernel
    · intro same
      have alike := (same_transcript_iff lookBack
        ((new (.memory emptyBase)).get "k").1 rfl recorded).mp same.1
      have later := ((along_call rfl).mp alike).2
      have histories : (WorldState.memory clearedBase).getHistory "k" =
          (WorldState.memory emptyBase).getHistory "k" := ((along_call rfl).mp later).1
      exact absurd histories (by decide +kernel)

end CeruleanLedger.ReadCoverage
