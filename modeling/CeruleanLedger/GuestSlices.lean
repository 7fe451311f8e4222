import CeruleanLedger.HostCalls

/-!
The slices of guest memory that the executor takes without a check: the output buffers of
`get_state`, `get_history_for_key` and `invoke_chaincode`, and the result that a returned `i64`
points to, in the order of a run. A start and a length whose sum overflows are outside every
memory, so an overflow is a panic as well.
-/

namespace CeruleanLedger.GuestSlices

open ByteCodec VersionedState HostCalls

section Slices

structure Slice where
  memory : Nat
  start : Nat
  count : Nat
  deriving DecidableEq

def Slice.Inside (slice : Slice) : Prop := slice.start + slice.count ≤ slice.memory
  deriving Decidable

def outSlice (data : Bytes) (out : Span) (bytes : Bytes) : Slice :=
  ⟨data.length, asUsize out.ptr, min bytes.length (asUsize out.len)⟩

def resultSlice (data : Bytes) (ret : Int64) : Slice :=
  ⟨data.length, resultPtr ret, resultLen ret⟩

variable {State : Type} (runtime : Runtime) (ops : StateOps State)

abbrev Slicer (State : Type) := WasmExecutor → String → Running State → List Slice

def nestedSlices (executor : WasmExecutor) (nested : Invoker State) (inner : Slicer State)
    (data : Bytes) (chaincodeId function : String) (out : Span) (running : Running State) :
    List Slice :=
  match resolved runtime executor chaincodeId with
  | none => []
  | some child =>
    inner child function (startCall executor running chaincodeId) ++
      match (nested child function (startCall executor running chaincodeId)).2 with
      | .error _ => []
      | .ok result => [outSlice data out result]

/-- The slices of one host call; `put_state`, `set_event` and
`set_key_endorsement_policy` only read, through a checked range. -/
def callSlices (executor : WasmExecutor) (nested : Invoker State) (inner : Slicer State)
    (data : Bytes) (running : Running State) : HostCall → List Slice
  | .getState key out =>
    match readStr runtime data key with
    | none => []
    | some key =>
      match (ops.get running.state key).2 with
      | none => []
      | some value => [outSlice data out value.data]
  | .getHistoryForKey key out =>
    match readStr runtime data key with
    | none => []
    | some key => [outSlice data out (runtime.historyJson (ops.getHistory running.state key))]
  | .invokeChaincode chaincodeId function out =>
    match readStr runtime data chaincodeId, readStr runtime data function with
    | some chaincodeId, some function =>
      nestedSlices runtime executor nested inner data chaincodeId function out running
    | _, _ => []
  | _ => []

def guestSlices (executor : WasmExecutor) (nested : Invoker State) (inner : Slicer State) :
    Guest → (fuel memory : Nat) → Running State → List Slice
  | .done none _, _, _, _ => []
  | .done (some data) ret, _, _, _ => [resultSlice data ret]
  | .trap _, _, _, _ => []
  | .burn units next, fuel, memory, running =>
    if fuel < units then []
    else guestSlices executor nested inner next (fuel - units) memory running
  | .grow bytes next, fuel, memory, running =>
    if withinLimit executor (memory + bytes) then
      guestSlices executor nested inner (next true) fuel (memory + bytes) running
    else guestSlices executor nested inner (next false) fuel memory running
  | .host none _ next, fuel, memory, running =>
    guestSlices executor nested inner (next (-1) []) fuel memory running
  | .host (some data) call next, fuel, memory, running =>
    callSlices runtime ops executor nested inner data running call ++
      match hostCall runtime ops executor nested data running call with
      | (_, .error _) => []
      | (after, .ok (code, copied)) =>
        guestSlices executor nested inner (next code copied) fuel memory after

def slicesWith (nested : Invoker State) (inner : Slicer State) (executor : WasmExecutor)
    (function : String) (running : Running State) : List Slice :=
  if withinLimit executor executor.wasmModule.initialMemory then
    match executor.wasmModule.exports function with
    | none => []
    | some guest =>
      guestSlices runtime ops executor nested inner guest executor.fuelLimit
        executor.wasmModule.initialMemory running
  else []

def slicesAt : Nat → Slicer State
  | 0 => slicesWith runtime ops (fun _ _ running => (running, .error (.execution "maximal depth")))
      fun _ _ _ => []
  | levels + 1 => slicesWith runtime ops (invokeAt runtime ops levels) (slicesAt levels)

def invokeSlices (executor : WasmExecutor) (function : String) (running : Running State) :
    List Slice :=
  slicesAt runtime ops (maxChaincodeDepth - executor.invocationDepth) executor function running

end Slices

section Panics

variable {State : Type} {runtime : Runtime} {ops : StateOps State} {executor : WasmExecutor}
  {nested : Invoker State} {inner : Slicer State}

def Returns {Result : Type} (result : Except Halt Result) : Prop := result ≠ .error .panicked

def AllInside (slices : List Slice) : Prop := ∀ slice ∈ slices, slice.Inside

@[simp] theorem all_inside_nil : AllInside [] := List.forall_mem_nil _

@[simp] theorem all_inside_singleton (slice : Slice) : AllInside [slice] ↔ slice.Inside := by
  simp [AllInside]

@[simp] theorem all_inside_append (earlier later : List Slice) :
    AllInside (earlier ++ later) ↔ AllInside earlier ∧ AllInside later :=
  List.forall_mem_append

@[simp] theorem returns_ok {Result : Type} (result : Result) :
    Returns (.ok result : Except Halt Result) := by
  intro same
  cases same

@[simp] theorem returns_execution {Result : Type} (reason : String) :
    Returns (.error (.execution reason) : Except Halt Result) := by
  intro same
  cases same

@[simp] theorem not_returns_panicked {Result : Type} :
    ¬ Returns (.error .panicked : Except Halt Result) :=
  fun returns => returns rfl

@[simp] theorem refused_returns : Returns refused := returns_ok _

theorem copy_out_returns_iff (data : Bytes) (out : Span) (bytes : Bytes) :
    Returns (copyOut data out bytes) ↔ (outSlice data out bytes).Inside := by
  rw [copyOut, Slice.Inside, outSlice]
  dsimp only
  split
  · next outside => simpa using outside
  · next inside => simpa using inside

def Decides (nested : Invoker State) (inner : Slicer State) : Prop :=
  ∀ child function running,
    Returns (nested child function running).2 ↔ AllInside (inner child function running)

theorem nested_returns_iff (decides : Decides nested inner) (data : Bytes)
    (chaincodeId function : String) (out : Span) (running : Running State) :
    Returns (invokeChaincode runtime executor nested data chaincodeId function out running).2 ↔
      AllInside
        (nestedSlices runtime executor nested inner data chaincodeId function out running) := by
  unfold invokeChaincode nestedSlices
  cases found : resolved runtime executor chaincodeId with
  | none => simp
  | some child =>
    simp only [all_inside_append, ← decides child function]
    split
    · next ran => simp [ran]
    · next ran => simp [ran]
    · next ran => simp [ran, copy_out_returns_iff]

theorem host_call_returns_iff (decides : Decides nested inner) (data : Bytes)
    (running : Running State) (call : HostCall) :
    Returns (hostCall runtime ops executor nested data running call).2 ↔
      AllInside (callSlices runtime ops executor nested inner data running call) := by
  cases call with
  | getState key out =>
    simp only [hostCall, callSlices]
    cases readStr runtime data key with
    | none => simp
    | some key =>
      dsimp only
      split
      · next answered => simp [answered]
      · next answered => simp [answered, copy_out_returns_iff]
  | setKeyEndorsementPolicy key policy =>
    simp only [hostCall, callSlices]
    split
    · split
      · split
        · simp
        · simp
      · simp
    · simp
  | getHistoryForKey key out =>
    simp only [hostCall, callSlices]
    cases readStr runtime data key with
    | none => simp
    | some key => simp [copy_out_returns_iff]
  | invokeChaincode chaincodeId function out =>
    simp only [hostCall, callSlices]
    cases readStr runtime data chaincodeId with
    | none => simp
    | some chaincodeId =>
      cases readStr runtime data function with
      | none => simp
      | some function => exact nested_returns_iff decides ..
  | _ =>
    simp only [hostCall, callSlices]
    split
    · simp
    · simp

theorem execute_returns_iff (decides : Decides nested inner) (guest : Guest) (fuel memory : Nat)
    (running : Running State) :
    Returns (execute runtime ops executor nested guest fuel memory running).result ↔
      AllInside
        (guestSlices runtime ops executor nested inner guest fuel memory running) := by
  induction guest generalizing fuel memory running with
  | done exported ret =>
    cases exported with
    | none => simp [execute, guestSlices]
    | some data =>
      simp only [execute, guestSlices, all_inside_singleton, Slice.Inside, resultSlice]
      split
      · next outside => simpa using outside
      · next inside => simpa using inside
  | trap reason => simp [execute, guestSlices]
  | burn units next ih =>
    simp only [execute, guestSlices]
    split
    · simp
    · exact ih ..
  | grow bytes next ih =>
    simp only [execute, guestSlices]
    split
    · exact ih ..
    · exact ih ..
  | host exported call next ih =>
    cases exported with
    | none => exact ih ..
    | some data =>
      simp only [execute, guestSlices, all_inside_append,
        ← host_call_returns_iff decides data running call]
      split
      · next halt answered => simp [answered, Returns]
      · next code copied answered => simpa [answered] using ih ..

theorem invoke_with_returns_iff (decides : Decides nested inner) :
    Decides (invokeWith runtime ops nested) (slicesWith runtime ops nested inner) := by
  intro executor function running
  simp only [invokeWith, slicesWith, called]
  split
  · cases executor.wasmModule.exports function with
    | none => simp
    | some guest => exact execute_returns_iff decides ..
  · simp

theorem invoke_at_returns_iff (levels : Nat) :
    Decides (invokeAt runtime ops levels) (slicesAt runtime ops levels) := by
  induction levels with
  | zero => exact invoke_with_returns_iff fun _ _ _ => by simp
  | succ levels ih => exact invoke_with_returns_iff ih

end Panics

/-- For every module, every state and all arguments, `invoke` returns a value or
an error exactly when all slices of the run lie inside the guest memory. -/
theorem invoke_returns_iff {State : Type} (runtime : Runtime) (ops : StateOps State)
    (executor : WasmExecutor) (function : String) (running : Running State) :
    Returns (executor.invoke runtime ops function running).2 ↔
      AllInside (invokeSlices runtime ops executor function running) :=
  invoke_at_returns_iff _ executor function running

def worldOps (clock : Clock) : StateOps WorldState :=
  ⟨fun state key => (state, state.get key), WorldState.put clock, WorldState.getHistory⟩

def returning (ret : Int64) : WasmModule := ⟨0, fun _ => some (.done (some []) ret)⟩

/-- A run on a state that holds one byte for the empty key, where every chaincode
is found and returns nothing. -/
def invoked (wasmModule : WasmModule) : Except Halt Bytes :=
  ({ WasmExecutor.new wasmModule 0 with chaincodeResolver := some fun _ => some [] }.invoke
    (runtimeOf fun _ => some (returning 0)) (worldOps fun _ _ => 0) ""
    ⟨WorldState.new.put (fun _ _ => 0) "" [1], ⟨[], ∅⟩, ⟨[], []⟩⟩).2

/-- On an empty memory: a buffer at its end, a buffer at minus one, a buffer
beyond its end for an empty result, and a result at minus one. -/
theorem hostile_guests_panic :
    invoked (oneCall 0 [] (.getState ⟨0, 0⟩ ⟨0, 1⟩)) = .error .panicked ∧
      invoked (oneCall 0 [] (.getHistoryForKey ⟨0, 0⟩ ⟨-1, 0⟩)) = .error .panicked ∧
      invoked (oneCall 0 [] (.invokeChaincode ⟨0, 0⟩ ⟨0, 0⟩ ⟨1, 0⟩)) = .error .panicked ∧
      invoked (returning (-1)) = .error .panicked :=
  ⟨rfl, rfl, rfl, rfl⟩

end CeruleanLedger.GuestSlices
