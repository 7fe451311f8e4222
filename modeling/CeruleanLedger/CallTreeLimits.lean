import CeruleanLedger.HostCalls

/-!
The limits of a whole tree of chaincodes that call each other. Every store is
held to the fuel and the memory it is given; what is asked here is what the
instances of one top-level `invoke` use together, and whether the memory limit
and the ACL of the top-level executor hold for all of them.
-/

namespace CeruleanLedger.CallTreeLimits

open ByteCodec
open HostCalls
open Simulation (SimulationWorldState)
open VersionedState

variable {State : Type} {runtime : Runtime} {ops : StateOps State} {executor : WasmExecutor}
  {nested : Invoker State}

def append (earlier later : Journal) : Journal :=
  ⟨earlier.instances ++ later.instances, earlier.calls ++ later.calls⟩

def shift (earlier : Journal) (running : Running State) : Running State :=
  { running with journal := append earlier running.journal }

def Blind (nested : Invoker State) : Prop :=
  ∀ earlier child function running, nested child function (shift earlier running) =
    (shift earlier (nested child function running).1, (nested child function running).2)

theorem host_call_shift (blind : Blind nested) (earlier : Journal) (data : Bytes)
    (running : Running State) (call : HostCall) :
    hostCall runtime ops executor nested data (shift earlier running) call =
      (shift earlier (hostCall runtime ops executor nested data running call).1,
        (hostCall runtime ops executor nested data running call).2) := by
  cases call with
  | getState key out =>
    simp only [hostCall]
    split
    · rfl
    · next name _ =>
      have same : (shift earlier running).state = running.state := rfl
      rw [same]
      cases ops.get running.state name with
      | mk state found => cases found <;> rfl
  | setEvent name payload =>
    simp only [hostCall]
    split
    · split <;> rfl
    · rfl
  | setKeyEndorsementPolicy key policy =>
    simp only [hostCall]
    split
    · split
      · split <;> rfl
      · rfl
    · rfl
  | invokeChaincode chaincodeId function out =>
    simp only [hostCall, invokeChaincode]
    split
    · split
      · rfl
      · next child _ =>
        have started : ∀ id, startCall executor (shift earlier running) id =
            shift earlier (startCall executor running id) := by
          simp [startCall, shift, append]
        rw [started, blind]
        cases nested child _ (startCall executor running _) with
        | mk after result =>
          cases result with
          | error halt => cases halt <;> rfl
          | ok bytes => rfl
    · rfl
  | _ =>
    simp only [hostCall]
    split <;> rfl

theorem execute_shift (blind : Blind nested) (earlier : Journal) (guest : Guest)
    (fuel memory : Nat) (running : Running State) :
    execute runtime ops executor nested guest fuel memory (shift earlier running) =
      { execute runtime ops executor nested guest fuel memory running with
        running := shift earlier
          (execute runtime ops executor nested guest fuel memory running).running } := by
  induction guest generalizing fuel memory running with
  | done exported ret =>
    cases exported with
    | none => rfl
    | some data =>
      simp only [execute]
      split <;> rfl
  | trap reason => rfl
  | burn units next ih =>
    simp only [execute]
    split
    · rfl
    · exact ih _ _ _
  | grow bytes next ih =>
    simp only [execute]
    split
    · exact ih _ _ _ _
    · exact ih _ _ _ _
  | host exported call next ih =>
    cases exported with
    | none => exact ih _ _ _ _ _
    | some data =>
      simp only [execute, host_call_shift blind]
      cases hostCall runtime ops executor nested data running call with
      | mk after answer =>
        cases answer with
        | error halt => rfl
        | ok written => exact ih _ _ _ _ _

theorem invoke_with_blind (blind : Blind nested) : Blind (invokeWith runtime ops nested) := by
  intro earlier child function running
  have ran : called runtime ops child nested function (shift earlier running) =
      { called runtime ops child nested function running with
        running := shift earlier (called runtime ops child nested function running).running } := by
    unfold called
    split
    · rfl
    · exact execute_shift blind _ _ _ _ _
  unfold invokeWith
  split
  · rw [ran]
    simp only [shift, append, List.append_assoc]
  · rfl

theorem invoke_at_blind (levels : Nat) : Blind (invokeAt runtime ops levels) := by
  induction levels with
  | zero =>
    apply invoke_with_blind
    intro earlier child function running
    rfl
  | succ levels ih => exact invoke_with_blind ih

def recorded (runtime : Runtime) (ops : StateOps State) (executor : WasmExecutor)
    (function : String) (state : State) (outside : Outside) : Journal :=
  (executor.invoke runtime ops function ⟨state, outside, ⟨[], []⟩⟩).1.journal

/-- The instances use no more than the budget together, each stays within the
memory limit of the executor, and its ACL permits every nested call. -/
structure Within (executor : WasmExecutor) (budget : Nat) (journal : Journal) : Prop where
  fuel : (journal.instances.map Instance.fuelUsed).sum ≤ budget
  memory : ∀ entry ∈ journal.instances, withinLimit executor entry.memory = true
  acl : ∀ call ∈ journal.calls, permitted executor.aclProvider call.chaincodeId = true

theorem within_append {left right : Nat} {earlier later : Journal}
    (first : Within executor left earlier) (second : Within executor right later) :
    Within executor (left + right) (append earlier later) := by
  constructor
  · have fuels := Nat.add_le_add first.fuel second.fuel
    simpa only [append, List.map_append, List.sum_append] using fuels
  · intro entry member
    rcases List.mem_append.mp member with old | new
    · exact first.memory entry old
    · exact second.memory entry new
  · intro call member
    rcases List.mem_append.mp member with old | new
    · exact first.acl call old
    · exact second.acl call new

theorem within_module (executor : WasmExecutor) (wasmModule : WasmModule) (budget : Nat)
    (journal : Journal) :
    Within (executor.withModule wasmModule) budget journal ↔ Within executor budget journal :=
  ⟨fun within => ⟨within.fuel, within.memory, within.acl⟩,
    fun within => ⟨within.fuel, within.memory, within.acl⟩⟩

theorem invoke_shift (child : WasmExecutor) (function : String) (running : Running State) :
    (child.invoke runtime ops function running).1.journal =
      append running.journal
        (recorded runtime ops child function running.state running.outside) := by
  have apart : running = shift running.journal ⟨running.state, running.outside, ⟨[], []⟩⟩ := by
    simp only [shift, append, List.append_nil]
  have ran := @invoke_at_blind State runtime ops (maxChaincodeDepth - child.invocationDepth)
    running.journal child function ⟨running.state, running.outside, ⟨[], []⟩⟩
  rw [← apart] at ran
  exact congrArg (fun ended => ended.1.journal) ran

/-- A nested call that some guest of the executor can make. -/
def CanCall (runtime : Runtime) (executor : WasmExecutor) (chaincodeId function : String)
    (child : WasmExecutor) : Prop :=
  Passed runtime chaincodeId function ∧ resolved runtime executor chaincodeId = some child

/-- Whatever can be called runs, with all that it calls, without fuel, within
the memory limit and along permitted calls. -/
def Harmless (runtime : Runtime) (ops : StateOps State) (executor : WasmExecutor) : Prop :=
  ∀ chaincodeId function child, CanCall runtime executor chaincodeId function child →
    ∀ state outside, Within executor 0 (recorded runtime ops child function state outside)

theorem harmless_effect {top : WasmExecutor}
    (sameChildren : ∀ chaincodeId,
      resolved runtime top chaincodeId = resolved runtime executor chaincodeId)
    (nestedInvoke : ∀ chaincodeId child, resolved runtime executor chaincodeId = some child →
      nested child = child.invoke runtime ops)
    (harmless : Harmless runtime ops executor) (running after : Running State)
    (effect : Effect runtime ops top nested running after)
    (within : Within executor 0 running.journal) : Within executor 0 after.journal := by
  cases effect with
  | invoked chaincodeId function child passed found =>
    rw [sameChildren] at found
    rw [nestedInvoke chaincodeId child found, invoke_shift]
    -- The call itself was permitted; the rest is what the called tree records.
    have started : Within executor 0 (startCall top running chaincodeId).journal := by
      constructor
      · exact within.fuel
      · exact within.memory
      · intro call member
        rcases List.mem_append.mp member with old | new
        · exact within.acl call old
        · cases List.mem_singleton.mp new
          exact (resolved_some found).2.1
    exact within_append started (harmless chaincodeId function child ⟨passed, found⟩ _ _)
  | _ => exact within

theorem own_instance {nested : Invoker State} (top : WasmExecutor) (function : String)
    (running : Running State)
    (quiet : Within top 0 (called runtime ops top nested function running).running.journal)
    (started : Within top 0 running.journal) :
    Within top top.fuelLimit (invokeWith runtime ops nested top function running).1.journal := by
  unfold invokeWith
  split
  · next fits =>
    have own : Within top top.fuelLimit ⟨[⟨top.invocationDepth,
        top.fuelLimit - (called runtime ops top nested function running).fuel,
        (called runtime ops top nested function running).memory⟩], []⟩ := by
      constructor
      · simp
      · intro entry member
        cases List.mem_singleton.mp member
        exact (called_limits function running fits).2
      · intro call member
        cases member
    have joined := within_append quiet own
    simpa only [append, Nat.zero_add, List.append_nil] using joined
  · exact ⟨started.fuel.trans (Nat.zero_le _), started.memory, started.acl⟩

theorem nothing_left {depth : Nat} {started : NestedCall} {under : Journal}
    (within : Within executor executor.fuelLimit
      ⟨under.instances ++ [⟨depth, executor.fuelLimit, 0⟩], started :: under.calls⟩) :
    Within executor 0 under := by
  constructor
  · have fuel := within.fuel
    simp only [List.map_append, List.map_cons, List.map_nil, List.sum_append, List.sum_cons,
      List.sum_nil] at fuel
    omega
  · intro entry member
    exact within.memory entry (List.mem_append_left _ member)
  · intro call member
    exact within.acl call (List.mem_cons_of_mem _ member)

/-- The limits of the executor hold over every tree of calls, whatever its own
module does, exactly when all that it can call is harmless: a nested call has a
full budget of its own, no memory limit and no ACL. -/
theorem tree_within_limits_iff (runtime : Runtime) (ops : StateOps State)
    (executor : WasmExecutor) :
    (∀ wasmModule function state outside, Within executor executor.fuelLimit
      (recorded runtime ops (executor.withModule wasmModule) function state outside)) ↔
      Harmless runtime ops executor := by
  obtain ⟨nested, invoked, nestedInvoke⟩ := invoke_nested runtime ops executor
  constructor
  · intro limited chaincodeId function child callable state outside
    obtain ⟨⟨data, first, second, named, called⟩, found⟩ := callable
    -- The caller burns all of its fuel before the call.
    have within := limited (oneCall executor.fuelLimit data (.invokeChaincode first second ⟨0, 0⟩))
      function state outside
    have same : ∀ wasmModule,
      resolved runtime (executor.withModule wasmModule) chaincodeId = some child := fun _ => found
    rw [recorded, invoked, one_call_invoked _ _ _ _ _ _ (Nat.le_refl _)] at within
    simp only [hostCall, named, called, invoke_chaincode_running (same _),
      nestedInvoke chaincodeId child found, record, invoke_shift] at within
    exact nothing_left within
  · intro harmless wasmModule function state outside
    rw [recorded, invoked, ← within_module executor wasmModule]
    have nothing : Within executor 0 ⟨[], []⟩ :=
      ⟨Nat.le_refl _, fun _ member => absurd member List.not_mem_nil,
        fun _ member => absurd member List.not_mem_nil⟩
    have quiet : Within executor 0 (called runtime ops (executor.withModule wasmModule) nested
        function ⟨state, outside, ⟨[], []⟩⟩).running.journal := by
      apply called_keeps (fun running => Within executor 0 running.journal)
      · exact harmless_effect (fun _ => rfl) nestedInvoke harmless
      · exact nothing
    exact own_instance (executor.withModule wasmModule) function _
      ((within_module executor wasmModule 0 _).mpr quiet)
      ((within_module executor wasmModule 0 _).mpr nothing)

def vaultModule : WasmModule :=
  ⟨65536, fun _ => some <| .burn 10 <| .grow 65536 fun _ =>
    .host (some (utf8 "secretrun")) (.invokeChaincode ⟨0, 6⟩ ⟨6, 3⟩ ⟨0, 0⟩) fun _ _ =>
    .done (some []) 0⟩

def vaultRuntime : Runtime :=
  runtimeOf fun wasmBytes =>
    if wasmBytes = [1] then some vaultModule
    else if wasmBytes = [2] then some ⟨0, fun _ => some (.done (some []) 0)⟩
    else none

def limitedExecutor : WasmExecutor :=
  { WasmExecutor.new (oneCall 10 (utf8 "vaultrun") (.invokeChaincode ⟨0, 5⟩ ⟨5, 3⟩ ⟨0, 0⟩)) 10 with
    memoryLimit := some 65536
    chaincodeResolver := some fun chaincodeId =>
      if chaincodeId = "vault" then some [1] else if chaincodeId = "secret" then some [2] else none
    aclProvider := some fun resource =>
      .ok (if resource = "chaincode/vault/invoke" then some ⟨resource, "members"⟩ else none) }

/-- Twenty units are used where ten are allowed, an instance has twice the memory
of the limit, and a chaincode runs that the ACL denies. -/
theorem tree_exceeds_limits :
    let journal := recorded vaultRuntime simulationOps limitedExecutor "run"
      (SimulationWorldState.new .new) ⟨[], ∅⟩
    journal.instances = [⟨2, 0, 0⟩, ⟨1, 10, 131072⟩, ⟨0, 10, 0⟩] ∧
      journal.calls = [⟨0, "vault"⟩, ⟨1, "secret"⟩] ∧
      limitedExecutor.fuelLimit < (journal.instances.map Instance.fuelUsed).sum ∧
      withinLimit limitedExecutor 131072 = false ∧
      permitted limitedExecutor.aclProvider "secret" = false := by
  decide +kernel

end CeruleanLedger.CallTreeLimits
