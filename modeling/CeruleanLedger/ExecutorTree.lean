import CeruleanLedger.HostCalls

/-!
The executor of `HostCalls` refines the simulation of `Simulation`. The tree of an exported
function keeps the state-facing host calls of a run; a nested call is unfolded in place.
-/

namespace CeruleanLedger.ExecutorTree

open ByteCodec
open HostCalls
open Mvcc
open Simulation (SimulationWorldState HashOrder)
open VersionedState

section Trees

/-- The tree of an executor's function, given the tree that follows its result. -/
abbrev Unfolder :=
  WasmExecutor → String → (Except Halt Bytes → Simulation.Guest) → Simulation.Guest

variable (runtime : Runtime) (executor : WasmExecutor)

def invokeTree (nested : Unfolder) (data : Bytes) (chaincodeId function : String) (out : Span)
    (next : Answer → Simulation.Guest) : Simulation.Guest :=
  match resolved runtime executor chaincodeId with
  | none => next refused
  | some child =>
    nested child function fun result =>
    match result with
    | .error .panicked => next (.error .panicked)
    | .error (.execution _) => next refused
    | .ok result => next (copyOut data out result)

def hostTree (nested : Unfolder) (data : Bytes) (next : Answer → Simulation.Guest) :
    HostCall → Simulation.Guest
  | .putState key value =>
    match readStr runtime data key, readBytes data value with
    | some key, some value => .putState key value (next (.ok (0, [])))
    | _, _ => next refused
  | .getState key out =>
    match readStr runtime data key with
    | none => next refused
    | some key =>
      .getState key fun value =>
      match value with
      | none => next refused
      | some value => next (copyOut data out value)
  | .setEvent name payload =>
    match readStr runtime data name, readBytes data payload with
    | some _, some _ => next (.ok (0, []))
    | _, _ => next refused
  | .setKeyEndorsementPolicy key policy =>
    match readStr runtime data key, readStr runtime data policy with
    | some _, some json =>
      if executor.keyEndorsementStore then
        match runtime.parsePolicy json with
        | none => next refused
        | some _ => next (.ok (0, []))
      else next refused
    | _, _ => next refused
  | .getHistoryForKey key out =>
    match readStr runtime data key with
    | none => next refused
    | some key =>
      .getHistoryForKey key fun history => next (copyOut data out (runtime.historyJson history))
  | .invokeChaincode chaincodeId function out =>
    match readStr runtime data chaincodeId, readStr runtime data function with
    | some chaincodeId, some function =>
      invokeTree runtime executor nested data chaincodeId function out next
    | _, _ => next refused

def guestTree (nested : Unfolder) (next : Except Halt Bytes → Simulation.Guest) :
    HostCalls.Guest → (fuel memory : Nat) → Simulation.Guest
  | .done none _, _, _ => next (.error (.execution "no memory export"))
  | .done (some data) ret, _, _ =>
    if data.length < resultPtr ret + resultLen ret then next (.error .panicked)
    else next (.ok ((data.drop (resultPtr ret)).take (resultLen ret)))
  | .trap reason, _, _ => next (.error (.execution reason))
  | .burn units rest, fuel, memory =>
    if fuel < units then next (.error (.execution "all fuel consumed"))
    else guestTree nested next rest (fuel - units) memory
  | .grow bytes rest, fuel, memory =>
    if withinLimit executor (memory + bytes) then
      guestTree nested next (rest true) fuel (memory + bytes)
    else guestTree nested next (rest false) fuel memory
  | .host none _ rest, fuel, memory => guestTree nested next (rest (-1) []) fuel memory
  | .host (some data) call rest, fuel, memory =>
    hostTree runtime executor nested data
      (fun answer =>
        match answer with
        | .error halt => next (.error halt)
        | .ok (code, copied) => guestTree nested next (rest code copied) fuel memory)
      call

def treeWith (nested : Unfolder) : Unfolder := fun executor function next =>
  if withinLimit executor executor.wasmModule.initialMemory then
    match executor.wasmModule.exports function with
    | none => next (.error (.execution "unknown function"))
    | some guest =>
      guestTree runtime executor nested next guest executor.fuelLimit
        executor.wasmModule.initialMemory
  else next (.error (.execution "memory limit exceeded"))

def treeAt : Nat → Unfolder
  | 0 => treeWith runtime fun _ _ next => next (.error (.execution "maximal depth"))
  | levels + 1 => treeWith runtime (treeAt levels)

def reasonOf : Halt → String
  | .execution reason => reason
  | .panicked => "panicked"

def ending : Except Halt Bytes → Simulation.Guest
  | .error halt => .trap (reasonOf halt)
  | .ok result => .done result

def tree (function : String) : Simulation.Guest :=
  treeAt runtime (maxChaincodeDepth - executor.invocationDepth) executor function ending

end Trees

variable {runtime : Runtime} {executor : WasmExecutor} {nested : Invoker SimulationWorldState}
  {unfolder : Unfolder}

def Unfolds (nested : Invoker SimulationWorldState) (unfolder : Unfolder) : Prop :=
  ∀ child function running next,
    Simulation.invoke (unfolder child function next) running.state =
      Simulation.invoke (next (nested child function running).2)
        (nested child function running).1.state

theorem invoke_tree_refines (unfolds : Unfolds nested unfolder) (data : Bytes)
    (chaincodeId function : String) (out : Span) (next : Answer → Simulation.Guest)
    (running : Running SimulationWorldState) :
    let ran := invokeChaincode runtime executor nested data chaincodeId function out running
    Simulation.invoke
        (invokeTree runtime executor unfolder data chaincodeId function out next) running.state =
      Simulation.invoke (next ran.2) ran.1.state := by
  intro ran
  unfold ran invokeTree invokeChaincode
  cases resolved runtime executor chaincodeId with
  | none => rfl
  | some child =>
    refine (unfolds child function (startCall executor running chaincodeId) _).trans ?_
    dsimp only
    generalize nested child function (startCall executor running chaincodeId) = ran
    obtain ⟨after, result⟩ := ran
    cases result with
    | error halt =>
      cases halt with
      | execution reason => rfl
      | panicked => rfl
    | ok result => rfl

theorem host_tree_refines (unfolds : Unfolds nested unfolder) (data : Bytes)
    (next : Answer → Simulation.Guest) (call : HostCall)
    (running : Running SimulationWorldState) :
    let ran := hostCall runtime simulationOps executor nested data running call
    Simulation.invoke (hostTree runtime executor unfolder data next call) running.state =
      Simulation.invoke (next ran.2) ran.1.state := by
  intro ran
  unfold ran
  cases call with
  | putState key value =>
    simp only [hostTree, hostCall]
    cases readStr runtime data key with
    | none => rfl
    | some key =>
      cases readBytes data value with
      | none => rfl
      | some value => rfl
  | getState key out =>
    simp only [hostTree, hostCall]
    cases readStr runtime data key with
    | none => rfl
    | some key =>
      -- Both sides look the key up in the same simulation state.
      dsimp only [simulationOps]
      rw [Simulation.invoke_get_state]
      generalize SimulationWorldState.get running.state key = looked
      obtain ⟨after, value⟩ := looked
      cases value with
      | none => rfl
      | some value => rfl
  | setEvent name payload =>
    simp only [hostTree, hostCall]
    cases readStr runtime data name with
    | none => rfl
    | some name =>
      cases readBytes data payload with
      | none => rfl
      | some payload =>
        dsimp only
        split
        · rfl
        · rfl
  | setKeyEndorsementPolicy key policy =>
    simp only [hostTree, hostCall]
    cases readStr runtime data key with
    | none => rfl
    | some key =>
      cases readStr runtime data policy with
      | none => rfl
      | some json =>
        dsimp only
        split
        · cases runtime.parsePolicy json with
          | none => rfl
          | some policy => rfl
        · rfl
  | getHistoryForKey key out =>
    simp only [hostTree, hostCall]
    cases readStr runtime data key with
    | none => rfl
    | some key => rfl
  | invokeChaincode chaincodeId function out =>
    simp only [hostTree, hostCall]
    cases readStr runtime data chaincodeId with
    | none => rfl
    | some chaincodeId =>
      cases readStr runtime data function with
      | none => rfl
      | some function => exact invoke_tree_refines unfolds data _ _ out next running

theorem guest_tree_refines (unfolds : Unfolds nested unfolder)
    (next : Except Halt Bytes → Simulation.Guest) (guest : HostCalls.Guest) (fuel memory : Nat)
    (running : Running SimulationWorldState) :
    let finished := execute runtime simulationOps executor nested guest fuel memory running
    Simulation.invoke (guestTree runtime executor unfolder next guest fuel memory)
        running.state =
      Simulation.invoke (next finished.result) finished.running.state := by
  -- Along the guest, with the fuel and the memory it has left at each step.
  induction guest generalizing fuel memory running with
  | done exported ret =>
    cases exported with
    | none => rfl
    | some data =>
      simp only [guestTree, execute]
      split
      · rfl
      · rfl
  | trap reason => rfl
  | burn units rest ih =>
    simp only [guestTree, execute]
    split
    · rfl
    · exact ih _ _ _
  | grow bytes rest ih =>
    simp only [guestTree, execute]
    split
    · exact ih true _ _ _
    · exact ih false _ _ _
  | host exported call rest ih =>
    cases exported with
    | none => exact ih (-1) [] _ _ _
    | some data =>
      simp only [guestTree, execute]
      rw [host_tree_refines unfolds]
      generalize hostCall runtime simulationOps executor nested data running call = ran
      obtain ⟨after, answer⟩ := ran
      cases answer with
      | error halt => rfl
      | ok answered => exact ih answered.1 answered.2 _ _ _

theorem tree_with_unfolds (unfolds : Unfolds nested unfolder) :
    Unfolds (invokeWith runtime simulationOps nested) (treeWith runtime unfolder) := by
  intro child function running next
  unfold treeWith invokeWith called
  split
  · cases child.wasmModule.exports function with
    | none => rfl
    | some guest => exact guest_tree_refines unfolds next guest _ _ running
  · rfl

theorem tree_at_unfolds (runtime : Runtime) (levels : Nat) :
    Unfolds (invokeAt runtime simulationOps levels) (treeAt runtime levels) := by
  induction levels with
  | zero => exact tree_with_unfolds fun _ _ _ _ => rfl
  | succ levels ih => exact tree_with_unfolds ih

theorem simulate_tree (runtime : Runtime) (executor : WasmExecutor) (function : String)
    (order : HashOrder) (base : WorldState) (outside : Outside) :
    Simulation.simulate (tree runtime executor function) order base =
      (executor.simulate runtime function order base outside).2.mapError reasonOf := by
  have unfolded := tree_at_unfolds runtime (maxChaincodeDepth - executor.invocationDepth)
    executor function ⟨.new base, outside, ⟨[], []⟩⟩ ending
  unfold Simulation.simulate tree WasmExecutor.simulate WasmExecutor.invoke
  dsimp only at unfolded
  rw [unfolded]
  generalize invokeAt runtime simulationOps (maxChaincodeDepth - executor.invocationDepth)
    executor function ⟨.new base, outside, ⟨[], []⟩⟩ = ran
  obtain ⟨after, result⟩ := ran
  cases result with
  | error halt => rfl
  | ok result => rfl

theorem simulate_ok_iff (runtime : Runtime) (executor : WasmExecutor) (function : String)
    (order : HashOrder) (base : WorldState) (outside : Outside) (outcome : Bytes × ReadWriteSet) :
    (executor.simulate runtime function order base outside).2 = .ok outcome ↔
      Simulation.simulate (tree runtime executor function) order base = .ok outcome := by
  rw [simulate_tree runtime executor function order base outside]
  cases (executor.simulate runtime function order base outside).2 with
  | error halt =>
    constructor
    · intro equal
      cases equal
    · intro equal
      cases equal
  | ok outcome =>
    constructor
    · intro equal
      cases equal
      rfl
    · intro equal
      cases equal
      rfl

/-- What a simulation returns depends neither on the events and key policies around it nor, but
for the order of the writes, on the order of the hash map. -/
theorem executor_outcome_perm (runtime : Runtime) (executor : WasmExecutor) (function : String)
    (order order' : HashOrder) (base : WorldState) (outside outside' : Outside)
    (result : Bytes) (rwset : ReadWriteSet)
    (simulated : (executor.simulate runtime function order base outside).2 =
      .ok (result, rwset)) :
    (rwset.writes.map KVWrite.key).Nodup ∧
      ∃ writes, (executor.simulate runtime function order' base outside').2 =
        .ok (result, ⟨rwset.reads, writes⟩) ∧ writes.Perm rwset.writes := by
  rw [simulate_ok_iff] at simulated
  obtain ⟨writes, again, perm⟩ := Simulation.simulate_order _ _ order' _ _ _ simulated
  exact ⟨Simulation.simulate_keys_nodup _ _ _ _ _ simulated,
    writes, (simulate_ok_iff ..).mpr again, perm⟩

def swapping : WasmModule :=
  ⟨0, fun _ => some <| .host (some (utf8 "ab")) (.putState ⟨0, 1⟩ ⟨1, 1⟩) fun _ _ =>
    .host (some (utf8 "ab")) (.putState ⟨1, 1⟩ ⟨0, 1⟩) fun _ _ => .done (some []) 0⟩

theorem swapped_writes_perm :
    ∃ writes, ((WasmExecutor.new swapping 0).simulate (runtimeOf fun _ => none) "" .reversed .new
        ⟨[], ∅⟩).2 = .ok ([], ⟨[], writes⟩) ∧
      writes.Perm [⟨"a", utf8 "b"⟩, ⟨"b", utf8 "a"⟩] :=
  (executor_outcome_perm _ _ _ .asStored .reversed .new ⟨[], ∅⟩ ⟨[], ∅⟩ []
    ⟨[], [⟨"a", utf8 "b"⟩, ⟨"b", utf8 "a"⟩]⟩ rfl).2

end CeruleanLedger.ExecutorTree
