import CeruleanLedger.Simulation

/-!
The Wasm executor of `chaincode/executor.rs` with all its host functions. A guest is the tree of
what it does in one run: it burns fuel, grows its memory and calls the host, each step depending
on the answers so far. Arguments of host calls are pointers and lengths into the memory that the
guest has at the call. The journal records the instances that ran and the nested calls that
started; no step reads it. Wasmtime is taken to enforce, for each store, the fuel and the memory
limit it is given.
-/

namespace CeruleanLedger.HostCalls

open ByteCodec
open EndorsementCheck
open Mvcc
open Simulation
open VersionedState

def asUsize (value : Int32) : Nat := value.toInt64.toUInt64.toNat

structure Span where
  ptr : Int32
  len : Int32

/-- `none` when the end overflows or lies outside the memory. -/
def readBytes (data : Bytes) (span : Span) : Option Bytes :=
  let stop := asUsize span.ptr + asUsize span.len
  if 2 ^ 64 ≤ stop ∨ data.length < stop then none
  else some ((data.drop (asUsize span.ptr)).take (asUsize span.len))

def resultPtr (ret : Int64) : Nat := (ret >>> 32).toUInt64.toNat

def resultLen (ret : Int64) : Nat := (ret &&& 0xFFFFFFFF).toUInt64.toNat

section Model

inductive HostCall where
  | putState (key value : Span)
  | getState (key out : Span)
  | setEvent (name payload : Span)
  | setKeyEndorsementPolicy (key policy : Span)
  | getHistoryForKey (key out : Span)
  | invokeChaincode (chaincodeId function out : Span)

/-- The guest sees the returned code and what was copied into its memory. -/
inductive Guest where
  | done (memory : Option Bytes) (ret : Int64)
  | trap (reason : String)
  | burn (units : Nat) (next : Guest)
  | grow (bytes : Nat) (next : Bool → Guest)
  | host (memory : Option Bytes) (call : HostCall) (next : Int32 → Bytes → Guest)

structure WasmModule where
  initialMemory : Nat
  exports : String → Option Guest

def anyOfJson : String := "\x7b\"AnyOf\":[]\x7d"

/-- Wasmtime's compiler, UTF-8 and the JSON forms. -/
structure Runtime where
  compile : Bytes → Option WasmModule
  fromUtf8 : Bytes → Option String
  parsePolicy : String → Option EndorsementPolicy
  historyJson : List HistoryEntry → Bytes
  utf8_read : ∀ text, fromUtf8 (utf8 text) = some text
  policy_read : parsePolicy anyOfJson = some (.anyOf [])

structure AclEntry where
  resource : String
  policyRef : String

abbrev AclProvider := String → Except String (Option AclEntry)

/-- The event bus and the policy store are shared; the flags say whether the
executor has them. -/
structure WasmExecutor where
  wasmModule : WasmModule
  fuelLimit : Nat
  memoryLimit : Option Nat
  eventBus : Bool
  chaincodeId : String
  channelId : String
  keyEndorsementStore : Bool
  chaincodeResolver : Option (String → Option Bytes)
  aclProvider : Option AclProvider
  invocationDepth : Nat

def maxChaincodeDepth : Nat := 8

def WasmExecutor.new (wasmModule : WasmModule) (fuelLimit : Nat) : WasmExecutor :=
  { wasmModule, fuelLimit, memoryLimit := none, eventBus := false, chaincodeId := ""
    channelId := "", keyEndorsementStore := false, chaincodeResolver := none
    aclProvider := none, invocationDepth := 0 }

def WasmExecutor.withModule (executor : WasmExecutor) (wasmModule : WasmModule) : WasmExecutor :=
  { executor with wasmModule }

structure ChaincodeEvent where
  channelId : String
  chaincodeId : String
  eventName : String
  payload : Bytes
  deriving DecidableEq

structure Outside where
  events : List ChaincodeEvent
  keyPolicies : Std.ExtTreeMap String EndorsementPolicy

structure Instance where
  depth : Nat
  fuelUsed : Nat
  memory : Nat
  deriving DecidableEq

structure NestedCall where
  depth : Nat
  chaincodeId : String
  deriving DecidableEq

structure Journal where
  instances : List Instance
  calls : List NestedCall

structure Running (State : Type) where
  state : State
  outside : Outside
  journal : Journal

structure StateOps (State : Type) where
  get : State → String → State × Option VersionedValue
  put : State → String → Bytes → State
  getHistory : State → String → List HistoryEntry

inductive Halt where
  | execution (reason : String)
  | panicked

abbrev Answer := Except Halt (Int32 × Bytes)

def refused : Answer := .ok (-1, [])

def copyOut (data : Bytes) (out : Span) (bytes : Bytes) : Answer :=
  let count := min bytes.length (asUsize out.len)
  if data.length < asUsize out.ptr + count then .error .panicked
  else .ok (Int32.ofNat count, bytes.take count)

def permitted (aclProvider : Option AclProvider) (chaincodeId : String) : Bool :=
  match aclProvider with
  | none => true
  | some getAcl =>
    match getAcl ("chaincode/" ++ chaincodeId ++ "/invoke") with
    | .ok (some _) => true
    | .ok none => false
    | .error _ => false

/-- The executor of a nested call: fuel, resolver and depth, nothing else. -/
def WasmExecutor.child (executor : WasmExecutor) (resolver : String → Option Bytes)
    (wasmModule : WasmModule) : WasmExecutor :=
  { WasmExecutor.new wasmModule executor.fuelLimit with
    chaincodeResolver := some resolver
    invocationDepth := executor.invocationDepth + 1 }

def resolved (runtime : Runtime) (executor : WasmExecutor) (chaincodeId : String) :
    Option WasmExecutor := do
  guard (executor.invocationDepth < maxChaincodeDepth)
  guard (permitted executor.aclProvider chaincodeId)
  let resolver ← executor.chaincodeResolver
  let wasmBytes ← resolver chaincodeId
  let wasmModule ← runtime.compile wasmBytes
  return executor.child resolver wasmModule

variable {State : Type}

abbrev Invoker (State : Type) :=
  WasmExecutor → String → Running State → Running State × Except Halt Bytes

variable (runtime : Runtime) (ops : StateOps State) (executor : WasmExecutor)

def readStr (data : Bytes) (span : Span) : Option String :=
  (readBytes data span).bind runtime.fromUtf8

def publish (running : Running State) (eventName : String) (payload : Bytes) : Running State :=
  { running with outside := { running.outside with
      events := running.outside.events ++
        [⟨executor.channelId, executor.chaincodeId, eventName, payload⟩] } }

def setKeyPolicy (running : Running State) (key : String) (policy : EndorsementPolicy) :
    Running State :=
  { running with outside := { running.outside with
      keyPolicies := running.outside.keyPolicies.insert key policy } }

def startCall (running : Running State) (chaincodeId : String) : Running State :=
  { running with journal := { running.journal with
      calls := running.journal.calls ++ [⟨executor.invocationDepth, chaincodeId⟩] } }

def invokeChaincode (nested : Invoker State) (data : Bytes) (chaincodeId function : String)
    (out : Span) (running : Running State) : Running State × Answer :=
  match resolved runtime executor chaincodeId with
  | none => (running, refused)
  | some child =>
    match nested child function (startCall executor running chaincodeId) with
    | (after, .error .panicked) => (after, .error .panicked)
    | (after, .error (.execution _)) => (after, refused)
    | (after, .ok result) => (after, copyOut data out result)

def hostCall (nested : Invoker State) (data : Bytes) (running : Running State) :
    HostCall → Running State × Answer
  | .putState key value =>
    match readStr runtime data key, readBytes data value with
    | some key, some value =>
      ({ running with state := ops.put running.state key value }, .ok (0, []))
    | _, _ => (running, refused)
  | .getState key out =>
    match readStr runtime data key with
    | none => (running, refused)
    | some key =>
      match ops.get running.state key with
      | (state, none) => ({ running with state }, refused)
      | (state, some value) => ({ running with state }, copyOut data out value.data)
  | .setEvent name payload =>
    match readStr runtime data name, readBytes data payload with
    | some name, some payload =>
      (if executor.eventBus then publish executor running name payload else running, .ok (0, []))
    | _, _ => (running, refused)
  | .setKeyEndorsementPolicy key policy =>
    match readStr runtime data key, readStr runtime data policy with
    | some key, some json =>
      if executor.keyEndorsementStore then
        match runtime.parsePolicy json with
        | none => (running, refused)
        | some policy => (setKeyPolicy running key policy, .ok (0, []))
      else (running, refused)
    | _, _ => (running, refused)
  | .getHistoryForKey key out =>
    match readStr runtime data key with
    | none => (running, refused)
    | some key => (running, copyOut data out (runtime.historyJson (ops.getHistory running.state key)))
  | .invokeChaincode chaincodeId function out =>
    match readStr runtime data chaincodeId, readStr runtime data function with
    | some chaincodeId, some function =>
      invokeChaincode runtime executor nested data chaincodeId function out running
    | _, _ => (running, refused)

structure Finished (State : Type) where
  running : Running State
  fuel : Nat
  memory : Nat
  result : Except Halt Bytes

def withinLimit (size : Nat) : Bool :=
  match executor.memoryLimit with
  | none => true
  | some maximum => size ≤ maximum

def execute (nested : Invoker State) :
    Guest → (fuel memory : Nat) → Running State → Finished State
  | .done none _, fuel, memory, running =>
    ⟨running, fuel, memory, .error (.execution "no memory export")⟩
  | .done (some data) ret, fuel, memory, running =>
    if data.length < resultPtr ret + resultLen ret then ⟨running, fuel, memory, .error .panicked⟩
    else ⟨running, fuel, memory, .ok ((data.drop (resultPtr ret)).take (resultLen ret))⟩
  | .trap reason, fuel, memory, running =>
    ⟨running, fuel, memory, .error (.execution reason)⟩
  | .burn units next, fuel, memory, running =>
    if fuel < units then ⟨running, 0, memory, .error (.execution "all fuel consumed")⟩
    else execute nested next (fuel - units) memory running
  | .grow bytes next, fuel, memory, running =>
    if withinLimit executor (memory + bytes) then
      execute nested (next true) fuel (memory + bytes) running
    else execute nested (next false) fuel memory running
  -- Without an exported memory every host function answers minus one.
  | .host none _ next, fuel, memory, running =>
    execute nested (next (-1) []) fuel memory running
  | .host (some data) call next, fuel, memory, running =>
    match hostCall runtime ops executor nested data running call with
    | (after, .error halt) => ⟨after, fuel, memory, .error halt⟩
    | (after, .ok (code, copied)) => execute nested (next code copied) fuel memory after

def called (nested : Invoker State) (function : String) (running : Running State) :
    Finished State :=
  match executor.wasmModule.exports function with
  | none =>
    ⟨running, executor.fuelLimit, executor.wasmModule.initialMemory,
      .error (.execution "unknown function")⟩
  | some guest =>
    execute runtime ops executor nested guest executor.fuelLimit
      executor.wasmModule.initialMemory running

def invokeWith (nested : Invoker State) (executor : WasmExecutor) (function : String)
    (running : Running State) : Running State × Except Halt Bytes :=
  if withinLimit executor executor.wasmModule.initialMemory then
    let finished := called runtime ops executor nested function running
    ({ finished.running with journal := { finished.running.journal with
        instances := finished.running.journal.instances ++
          [⟨executor.invocationDepth, executor.fuelLimit - finished.fuel, finished.memory⟩] } },
      finished.result)
  else (running, .error (.execution "memory limit exceeded"))

/-- Nested calls below a number of further levels; at the last level `resolved`
answers nothing, and the invoker is not reached. -/
def invokeAt : Nat → Invoker State
  | 0 => invokeWith runtime ops fun _ _ running =>
    (running, .error (.execution "maximal depth"))
  | levels + 1 => invokeWith runtime ops (invokeAt levels)

def WasmExecutor.invoke (executor : WasmExecutor) (runtime : Runtime) (ops : StateOps State)
    (function : String) (running : Running State) :
    Running State × Except Halt Bytes :=
  invokeAt runtime ops (maxChaincodeDepth - executor.invocationDepth) executor function running

def simulationOps : StateOps SimulationWorldState :=
  ⟨SimulationWorldState.get, SimulationWorldState.put, SimulationWorldState.getHistory⟩

def WasmExecutor.simulate (executor : WasmExecutor) (runtime : Runtime) (function : String)
    (order : HashOrder) (base : WorldState) (outside : Outside) :
    Running SimulationWorldState × Except Halt (Bytes × ReadWriteSet) :=
  match executor.invoke runtime simulationOps function ⟨.new base, outside, ⟨[], []⟩⟩ with
  | (after, .error halt) => (after, .error halt)
  | (after, .ok result) => (after, .ok (result, after.state.toRwset order))

end Model

section Effects

variable {runtime : Runtime} {ops : StateOps State} {executor : WasmExecutor}
  {nested : Invoker State}

def Passed (runtime : Runtime) (chaincodeId function : String) : Prop :=
  ∃ data first second, readStr runtime data first = some chaincodeId ∧
    readStr runtime data second = some function

inductive Effect (runtime : Runtime) (ops : StateOps State) (executor : WasmExecutor)
    (nested : Invoker State) (running : Running State) : Running State → Prop where
  | quiet : Effect runtime ops executor nested running running
  | put (key : String) (value : Bytes) :
      Effect runtime ops executor nested running
        { running with state := ops.put running.state key value }
  | get (key : String) :
      Effect runtime ops executor nested running
        { running with state := (ops.get running.state key).1 }
  | published (name : String) (payload : Bytes) (attached : executor.eventBus = true) :
      Effect runtime ops executor nested running (publish executor running name payload)
  | policySet (key : String) (policy : EndorsementPolicy)
      (attached : executor.keyEndorsementStore = true) :
      Effect runtime ops executor nested running (setKeyPolicy running key policy)
  | invoked (chaincodeId function : String) (child : WasmExecutor)
      (passed : Passed runtime chaincodeId function)
      (found : resolved runtime executor chaincodeId = some child) :
      Effect runtime ops executor nested running
        (nested child function (startCall executor running chaincodeId)).1

theorem invoke_chaincode_running {chaincodeId : String} {child : WasmExecutor}
    (found : resolved runtime executor chaincodeId = some child) (data : Bytes) (function : String)
    (out : Span) (running : Running State) :
    (invokeChaincode runtime executor nested data chaincodeId function out running).1 =
      (nested child function (startCall executor running chaincodeId)).1 := by
  unfold invokeChaincode
  rw [found]
  dsimp only
  split
  · next ran => rw [ran]
  · next ran => rw [ran]
  · next ran => rw [ran]

theorem invoke_chaincode_effect (data : Bytes) (chaincodeId function : String) (out : Span)
    (running : Running State) (passed : Passed runtime chaincodeId function) :
    Effect runtime ops executor nested running
      (invokeChaincode runtime executor nested data chaincodeId function out running).1 := by
  cases found : resolved runtime executor chaincodeId with
  | none =>
    unfold invokeChaincode
    rw [found]
    exact .quiet
  | some child =>
    rw [invoke_chaincode_running found]
    exact .invoked chaincodeId function child passed found

theorem host_call_effect (data : Bytes) (running : Running State) (call : HostCall) :
    Effect runtime ops executor nested running
      (hostCall runtime ops executor nested data running call).1 := by
  cases call with
  | putState key value =>
    simp only [hostCall]
    split
    · exact .put _ _
    · exact .quiet
  | getState key out =>
    simp only [hostCall]
    split
    · exact .quiet
    · next key _ =>
      have effect : Effect runtime ops executor nested running
          { running with state := (ops.get running.state key).1 } := .get key
      split
      · next answered => rwa [answered] at effect
      · next answered => rwa [answered] at effect
  | setEvent name payload =>
    simp only [hostCall]
    split
    · split
      · exact .published _ _ ‹_›
      · exact .quiet
    · exact .quiet
  | setKeyEndorsementPolicy key policy =>
    simp only [hostCall]
    split
    · split
      · split
        · exact .quiet
        · exact .policySet _ _ ‹_›
      · exact .quiet
    · exact .quiet
  | getHistoryForKey key out =>
    simp only [hostCall]
    split
    · exact .quiet
    · exact .quiet
  | invokeChaincode chaincodeId function out =>
    simp only [hostCall]
    split
    · next named called => exact invoke_chaincode_effect _ _ _ _ _ ⟨data, _, _, named, called⟩
    · exact .quiet

/-- What burning, granted growth and every host call keep, the whole run of a
guest keeps, with the fuel and the memory that are left. -/
theorem execute_invariant (Holds : Nat → Nat → Running State → Prop)
    (burned : ∀ fuel left memory running, left ≤ fuel → Holds fuel memory running →
      Holds left memory running)
    (grown : ∀ fuel memory larger running, withinLimit executor larger = true →
      Holds fuel memory running → Holds fuel larger running)
    (kept : ∀ fuel memory running after, Effect runtime ops executor nested running after →
      Holds fuel memory running → Holds fuel memory after)
    (guest : Guest) (fuel memory : Nat) (running : Running State)
    (holds : Holds fuel memory running) :
    Holds (execute runtime ops executor nested guest fuel memory running).fuel
      (execute runtime ops executor nested guest fuel memory running).memory
      (execute runtime ops executor nested guest fuel memory running).running := by
  induction guest generalizing fuel memory running with
  | done exported ret =>
    cases exported with
    | none => exact holds
    | some data =>
      simp only [execute]
      split
      · exact holds
      · exact holds
  | trap reason => exact holds
  | burn units next ih =>
    simp only [execute]
    split
    · exact burned fuel 0 memory running (Nat.zero_le _) holds
    · exact ih _ _ _ (burned fuel (fuel - units) memory running (Nat.sub_le _ _) holds)
  | grow bytes next ih =>
    simp only [execute]
    split
    · next granted => exact ih _ _ _ _ (grown fuel memory _ running granted holds)
    · exact ih _ _ _ _ holds
  | host exported call next ih =>
    cases exported with
    | none => exact ih _ _ _ _ _ holds
    | some data =>
      have after := kept fuel memory running _ (host_call_effect data running call) holds
      simp only [execute]
      split
      · next answered => rwa [answered] at after
      · next answered =>
        rw [answered] at after
        exact ih _ _ _ _ _ after

theorem called_keeps (Holds : Running State → Prop)
    (kept : ∀ running after, Effect runtime ops executor nested running after →
      Holds running → Holds after)
    (function : String) (running : Running State) (holds : Holds running) :
    Holds (called runtime ops executor nested function running).running := by
  unfold called
  split
  · exact holds
  · exact execute_invariant (fun _ _ => Holds) (fun _ _ _ _ _ => id) (fun _ _ _ _ _ => id)
      (fun _ _ => kept) _ _ _ _ holds

theorem called_limits (function : String) (running : Running State)
    (fits : withinLimit executor executor.wasmModule.initialMemory = true) :
    (called runtime ops executor nested function running).fuel ≤ executor.fuelLimit ∧
      withinLimit executor (called runtime ops executor nested function running).memory = true := by
  unfold called
  split
  · exact ⟨Nat.le_refl _, fits⟩
  · apply execute_invariant
      (fun fuel memory _ => fuel ≤ executor.fuelLimit ∧ withinLimit executor memory = true)
    · rintro fuel left memory running less ⟨bounded, within⟩
      exact ⟨less.trans bounded, within⟩
    · rintro fuel memory larger running granted ⟨bounded, -⟩
      exact ⟨bounded, granted⟩
    · intro fuel memory running after effect limits
      exact limits
    · exact ⟨Nat.le_refl _, fits⟩

theorem resolved_some {chaincodeId : String} {child : WasmExecutor}
    (found : resolved runtime executor chaincodeId = some child) :
    executor.invocationDepth < maxChaincodeDepth ∧
      permitted executor.aclProvider chaincodeId = true ∧
      ∃ resolver wasmModule, child = executor.child resolver wasmModule := by
  simp only [resolved, Option.bind_eq_bind, Option.bind_eq_some_iff, Option.guard_eq_some',
    Option.pure_def, Option.some.injEq] at found
  obtain ⟨-, below, -, allowed, resolver, -, wasmBytes, -, wasmModule, -, rfl⟩ := found
  exact ⟨below, allowed, resolver, wasmModule, rfl⟩

end Effects

def Leaves (base : WorldState) (outside : Outside) (running : Running SimulationWorldState) :
    Prop :=
  running.state.baseState = base ∧ running.outside = outside

def Detached (executor : WasmExecutor) : Prop :=
  executor.eventBus = false ∧ executor.keyEndorsementStore = false

variable {runtime : Runtime} {base : WorldState} {outside : Outside}

section Nested

variable {nested : Invoker SimulationWorldState}
  (nestedLeaves : ∀ child function running, Detached child → Leaves base outside running →
    Leaves base outside (nested child function running).1)
include nestedLeaves

theorem leaves_effect {executor : WasmExecutor} (detached : Detached executor)
    (running after : Running SimulationWorldState)
    (effect : Effect runtime simulationOps executor nested running after)
    (leaves : Leaves base outside running) : Leaves base outside after := by
  cases effect with
  | quiet => exact leaves
  | put key value => exact leaves
  | get key =>
    obtain ⟨version, recorded⟩ := get_reads running.state key
    refine ⟨?_, leaves.2⟩
    change (running.state.get key).1.baseState = base
    rw [recorded]
    exact leaves.1
  | published name payload attached =>
    rw [detached.1] at attached
    cases attached
  | policySet key policy attached =>
    rw [detached.2] at attached
    cases attached
  | invoked chaincodeId function child _ found =>
    obtain ⟨-, -, resolver, wasmModule, rfl⟩ := resolved_some found
    -- The nested executor is built without bus and store.
    exact nestedLeaves _ _ _ ⟨rfl, rfl⟩ leaves

theorem invoke_with_leaves (executor : WasmExecutor) (function : String)
    (running : Running SimulationWorldState) (detached : Detached executor)
    (leaves : Leaves base outside running) :
    Leaves base outside (invokeWith runtime simulationOps nested executor function running).1 := by
  unfold invokeWith
  split
  · exact called_keeps (Leaves base outside) (leaves_effect nestedLeaves detached) function
      running leaves
  · exact leaves

end Nested

theorem invoke_at_leaves (levels : Nat) (executor : WasmExecutor) (function : String)
    (running : Running SimulationWorldState) (detached : Detached executor)
    (leaves : Leaves base outside running) :
    Leaves base outside (invokeAt runtime simulationOps levels executor function running).1 := by
  induction levels generalizing executor function running with
  | zero => exact invoke_with_leaves (fun _ _ _ _ kept => kept) _ _ _ detached leaves
  | succ levels ih => exact invoke_with_leaves ih _ _ _ detached leaves

/-- A module whose export burns some fuel and makes one host call on the given
memory. -/
def oneCall (units : Nat) (memory : Bytes) (call : HostCall) : WasmModule :=
  ⟨0, fun _ => some (.burn units (.host (some memory) call fun _ _ => .done (some []) 0))⟩

theorem within_limit_zero (executor : WasmExecutor) : withinLimit executor 0 = true := by
  unfold withinLimit
  split
  · rfl
  · exact decide_eq_true (Nat.zero_le _)

section OneCall

variable {ops : StateOps State} {nested : Invoker State}

def record (running : Running State) (finished : Instance) : Running State :=
  { running with journal := { running.journal with
      instances := running.journal.instances ++ [finished] } }

theorem one_call_invoked (executor : WasmExecutor) (units : Nat) (memory : Bytes) (call : HostCall)
    (function : String) (running : Running State) (enough : units ≤ executor.fuelLimit) :
    (invokeWith runtime ops nested (executor.withModule (oneCall units memory call)) function
        running).1 =
      record (hostCall runtime ops (executor.withModule (oneCall units memory call)) nested memory
        running call).1 ⟨executor.invocationDepth, units, 0⟩ := by
  have fits : withinLimit (executor.withModule (oneCall units memory call))
      (executor.withModule (oneCall units memory call)).wasmModule.initialMemory = true :=
    within_limit_zero _
  have exported : (executor.withModule (oneCall units memory call)).wasmModule.exports function =
    some (.burn units (.host (some memory) call fun _ _ => .done (some []) 0)) := rfl
  have affordable : ¬ (executor.withModule (oneCall units memory call)).fuelLimit < units :=
    Nat.not_lt.mpr enough
  have spent : (executor.withModule (oneCall units memory call)).fuelLimit -
      ((executor.withModule (oneCall units memory call)).fuelLimit - units) = units :=
    Nat.sub_sub_self enough
  have empty : ¬ ([] : Bytes).length < resultPtr 0 + resultLen 0 := by decide
  rw [invokeWith, if_pos fits]
  simp only [called, exported, execute, if_neg affordable]
  cases hostCall runtime ops (executor.withModule (oneCall units memory call)) nested memory
      running call with
  | mk after answer =>
    cases answer with
    | error halt =>
      simp only [spent]
      rfl
    | ok written =>
      simp only [if_neg empty, spent]
      rfl

theorem invoke_nested (runtime : Runtime) (ops : StateOps State) (executor : WasmExecutor) :
    ∃ nested : Invoker State,
      (∀ wasmModule function running, (executor.withModule wasmModule).invoke runtime ops function
        running = invokeWith runtime ops nested (executor.withModule wasmModule) function running) ∧
      ∀ chaincodeId child, resolved runtime executor chaincodeId = some child →
        nested child = child.invoke runtime ops := by
  unfold WasmExecutor.invoke
  cases levels : maxChaincodeDepth - executor.invocationDepth with
  | zero =>
    refine ⟨fun _ _ running => (running, .error (.execution "maximal depth")), ?_, ?_⟩
    · intro wasmModule function running
      have last : maxChaincodeDepth - (executor.withModule wasmModule).invocationDepth = 0 :=
        levels
      rw [last]
      rfl
    · intro chaincodeId child found
      have below := (resolved_some found).1
      exact absurd below (Nat.not_lt.mpr (Nat.le_of_sub_eq_zero levels))
  | succ fewer =>
    refine ⟨invokeAt runtime ops fewer, ?_, ?_⟩
    · intro wasmModule function running
      have more : maxChaincodeDepth - (executor.withModule wasmModule).invocationDepth =
        fewer + 1 := levels
      rw [more]
      rfl
    · intro chaincodeId child found
      obtain ⟨-, -, resolver, wasmModule, rfl⟩ := resolved_some found
      have next : maxChaincodeDepth - (executor.child resolver wasmModule).invocationDepth =
          fewer := by
        change maxChaincodeDepth - (executor.invocationDepth + 1) = fewer
        omega
      rw [next]

end OneCall

theorem simulate_running (executor : WasmExecutor) (runtime : Runtime) (function : String)
    (order : HashOrder) (base : WorldState) (outside : Outside) :
    (executor.simulate runtime function order base outside).1 =
      (executor.invoke runtime simulationOps function ⟨.new base, outside, ⟨[], []⟩⟩).1 := by
  unfold WasmExecutor.simulate
  split
  · next ended => rw [ended]
  · next ended => rw [ended]

theorem one_call_outside (runtime : Runtime) (executor : WasmExecutor) (memory : Bytes)
    (call : HostCall) (function : String) (order : HashOrder) (base : WorldState)
    (outside : Outside) :
    ∃ nested, ((executor.withModule (oneCall 0 memory call)).simulate runtime function order base
      outside).1.outside = (hostCall runtime simulationOps
        (executor.withModule (oneCall 0 memory call)) nested memory
        ⟨.new base, outside, ⟨[], []⟩⟩ call).1.outside := by
  obtain ⟨nested, invoked, -⟩ := invoke_nested runtime simulationOps executor
  refine ⟨nested, ?_⟩
  rw [simulate_running, invoked, one_call_invoked executor 0 memory call function _ (Nat.zero_le _)]
  rfl

theorem read_front (data : Bytes) (len : Int32) (fits : asUsize len ≤ data.length) :
    readBytes data ⟨0, len⟩ = some (data.take (asUsize len)) := by
  have start : asUsize 0 = 0 := rfl
  have small : asUsize len < 2 ^ 64 := UInt64.toNat_lt _
  have inside : ¬ (2 ^ 64 ≤ 0 + asUsize len ∨ data.length < 0 + asUsize len) := by omega
  simp only [readBytes, start, if_neg inside, List.drop_zero]

theorem empty_read (runtime : Runtime) (data : Bytes) : readStr runtime data ⟨0, 0⟩ = some "" := by
  rw [readStr, read_front data 0 (Nat.zero_le _)]
  exact runtime.utf8_read ""

theorem policy_text_read (runtime : Runtime) :
    readStr runtime (utf8 anyOfJson) ⟨0, 12⟩ = some anyOfJson := by
  have size : asUsize 12 = (utf8 anyOfJson).length := rfl
  rw [readStr, read_front _ 12 size.le, size, List.take_length]
  exact runtime.utf8_read anyOfJson

/-- Simulation leaves everything outside as it was, for every guest and all
arguments, exactly when the executor has neither event bus nor policy store. -/
theorem simulate_leaves_iff (runtime : Runtime) (executor : WasmExecutor) :
    (∀ wasmModule function order base outside, Leaves base outside
      ((executor.withModule wasmModule).simulate runtime function order base outside).1) ↔
      Detached executor := by
  constructor
  · intro leaves
    constructor
    · rw [← Bool.not_eq_true]
      intro attached
      obtain ⟨nested, published⟩ := one_call_outside runtime executor []
        (.setEvent ⟨0, 0⟩ ⟨0, 0⟩) "" .asStored .new ⟨[], ∅⟩
      have on : ∀ wasmModule, (executor.withModule wasmModule).eventBus = true := fun _ => attached
      have noPayload : readBytes [] ⟨0, 0⟩ = some [] := rfl
      simp only [hostCall, empty_read, noPayload, on, if_true] at published
      have left := published.symm.trans (leaves _ "" .asStored .new ⟨[], ∅⟩).2
      exact absurd (congrArg Outside.events left) (List.cons_ne_nil _ _)
    · rw [← Bool.not_eq_true]
      intro attached
      obtain ⟨nested, written⟩ := one_call_outside runtime executor (utf8 anyOfJson)
        (.setKeyEndorsementPolicy ⟨0, 0⟩ ⟨0, 12⟩) "" .asStored .new ⟨[], ∅⟩
      have on : ∀ wasmModule, (executor.withModule wasmModule).keyEndorsementStore = true :=
        fun _ => attached
      simp only [hostCall, empty_read, policy_text_read, on, if_true, runtime.policy_read] at written
      have left := written.symm.trans (leaves _ "" .asStored .new ⟨[], ∅⟩).2
      have stored := congrArg (fun outside => outside.keyPolicies[""]?) left
      have found := Std.ExtTreeMap.getElem?_insert_self.symm.trans stored
      exact absurd (found.trans Std.ExtTreeMap.getElem?_empty) (Option.some_ne_none _)
  · intro detached wasmModule function order base outside
    rw [simulate_running]
    exact invoke_at_leaves _ (executor.withModule wasmModule) function
      ⟨.new base, outside, ⟨[], []⟩⟩ detached ⟨rfl, rfl⟩

def runtimeOf (compile : Bytes → Option WasmModule) : Runtime where
  compile
  fromUtf8 data := String.fromUTF8? ⟨data.toArray⟩
  parsePolicy text := if text = anyOfJson then some (.anyOf []) else none
  historyJson _ := []
  utf8_read := by
    intro text
    have valid : (⟨(utf8 text).toArray⟩ : ByteArray).IsValidUTF8 := text.isValidUTF8
    unfold String.fromUTF8?
    rw [dif_pos valid]
    rfl
  policy_read := if_pos rfl

/-- The memory holds an event name, a key and a policy; the guest announces the
event, sets the policy of the key and stops in a trap. -/
def noisyModule : WasmModule :=
  let memory := utf8 ("paidasset" ++ anyOfJson)
  ⟨65536, fun _ => some <|
    .host (some memory) (.setEvent ⟨0, 4⟩ ⟨0, 0⟩) fun _ _ =>
    .host (some memory) (.setKeyEndorsementPolicy ⟨4, 5⟩ ⟨9, 12⟩) fun _ _ =>
    .trap "rejected"⟩

def attachedExecutor : WasmExecutor :=
  { WasmExecutor.new noisyModule 1000 with
    eventBus := true, keyEndorsementStore := true, chaincodeId := "assets" }

/-- The simulation returns an error and no read-write set, and yet an event is
on the bus and the key has a policy that everyone satisfies. -/
theorem failed_simulation_leaks :
    let ended := attachedExecutor.simulate (runtimeOf fun _ => none) "pay" .asStored .new ⟨[], ∅⟩
    ended.2.toOption = none ∧ ended.1.outside.events = [⟨"", "assets", "paid", []⟩] ∧
      ended.1.outside.keyPolicies["asset"]? = some (.anyOf []) := by
  decide +kernel

end CeruleanLedger.HostCalls
