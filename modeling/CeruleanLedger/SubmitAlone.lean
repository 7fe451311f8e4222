import CeruleanLedger.GatewaySubmit

/-!
One client's `submit` with nobody else running, as far as it concerns the world
state. Endorsing again on a state that agrees on what was read gives the same
reads and the same writes, and a client whose steps nobody interrupts does to
the world state what `submitAlone` says.
-/

namespace CeruleanLedger.SubmitAlone

open VersionedState Mvcc Simulation GatewaySubmit GuardedRun

/-- `submit` as far as it reads and writes the world state, with nobody else
running. `none` stands for an error or `valid = false`. -/
def submitAlone (node : Node) (order : HashOrder) (request : Request)
    (world : Option WorldState) : Option (Option WorldState) :=
  match endorse node.guest order request world, world with
  | .error _, _ => none
  | .ok (some rwset), some state =>
    match validateRwset rwset state with
    | .ok () => some (some (applyWrites node.clock rwset.writes state))
    | .error _ => none
  | .ok _, _ => some world

theorem submit_alone_unchecked {node : Node} {order : HashOrder} {request : Request}
    {world : Option WorldState} {rwset : Option ReadWriteSet}
    (endorsed : endorse node.guest order request world = .ok rwset)
    (absent : rwset = none ∨ world = none) : submitAlone node order request world = some world := by
  unfold submitAlone
  rw [endorsed]
  rcases absent with unsimulated | worldless
  · subst unsimulated
    rfl
  · subst worldless
    cases rwset with
    | none => rfl
    | some rwset => rfl

theorem submit_alone_validated {node : Node} {order : HashOrder} {request : Request}
    {state : WorldState} {rwset : ReadWriteSet}
    (endorsed : endorse node.guest order request (some state) = .ok (some rwset))
    (valid : validateRwset rwset state = .ok ()) :
    submitAlone node order request (some state) =
      some (some (applyWrites node.clock rwset.writes state)) := by
  unfold submitAlone
  simp only [endorsed, valid]

section Endorsing

variable {guest : Option Guest} {order order' : HashOrder} {request : Request}

theorem endorse_cases {world : Option WorldState} {rwset : Option ReadWriteSet}
    (endorsed : endorse guest order request world = .ok rwset) :
    (∃ answer, rwset = some answer ∧
      ∀ order' world', endorse guest order' request world' = .ok (some answer)) ∨
    (∀ order' world', endorse guest order' request world' =
      simulateLocally guest order' request world') := by
  unfold endorse at endorsed ⊢
  cases kind : request.endorsers with
  | remote answer =>
    rw [kind] at endorsed
    cases answer with
    | error reason => cases endorsed
    | ok answer => exact Or.inl ⟨answer, by cases endorsed; rfl, fun _ _ => rfl⟩
  | discovered plan =>
    rw [kind] at endorsed
    cases decided : planned request plan with
    | error reason => simp only [decided] at endorsed; cases endorsed
    | ok passed => exact Or.inr fun _ _ => by simp only [decided]
  | registry =>
    rw [kind] at endorsed
    cases decided : selfEndorse request with
    | error reason => simp only [decided] at endorsed; cases endorsed
    | ok passed => exact Or.inr fun _ _ => rfl

theorem endorse_unsimulated {before after : Option WorldState} {rwset : Option ReadWriteSet}
    (endorsed : endorse guest order request before = .ok rwset)
    (unsimulated : rwset = none ∨ before = none) (alike : after.isSome = before.isSome) :
    endorse guest order' request after = .ok rwset := by
  rcases endorse_cases endorsed with ⟨answer, isAnswer, always⟩ | locally
  · rw [always, isAnswer]
  · rw [locally] at endorsed ⊢
    cases guest with
    | none => exact endorsed
    | some guest =>
      cases before with
      | none =>
        cases after with
        | none => exact endorsed
        | some state => cases alike
      | some state =>
        rcases unsimulated with absent | absent
        · subst absent
          simp only [simulateLocally] at endorsed
          split at endorsed
          · cases endorsed
          · split at endorsed
            · cases endorsed
            · cases endorsed
        · cases absent

theorem key_policies_iff (policies : String → Option EndorsementCheck.EndorsementPolicy)
    (writes : List KVWrite) :
    validateKeyPolicies request policies writes = .ok () ↔
      ∀ write ∈ writes, ∀ policy ∈ policies write.key,
        policy.evaluate request.registeredOrgs = true := by
  induction writes with
  | nil => simp [validateKeyPolicies]
  | cons write rest ih =>
    cases found : policies write.key with
    | none => simp [validateKeyPolicies, found, ih]
    | some policy =>
      by_cases passes : policy.evaluate request.registeredOrgs = true
      · simp [validateKeyPolicies, found, passes, ih]
      · simp [validateKeyPolicies, found, passes]

theorem key_policies_perm {reads : List KVRead} {writes writes' : List KVWrite}
    (same : writes'.Perm writes)
    (passed : validateKeyPoliciesForRwset request ⟨reads, writes⟩ = .ok ()) :
    validateKeyPoliciesForRwset request ⟨reads, writes'⟩ = .ok () := by
  unfold validateKeyPoliciesForRwset at passed ⊢
  cases kept : request.keyPolicies with
  | none => rfl
  | some policies =>
    rw [kept] at passed
    have all := (key_policies_iff policies writes).mp passed
    exact (key_policies_iff policies writes').mpr fun write member =>
    all write (same.mem_iff.mp member)

/-- A state that agrees on what was read endorses the same reads and, up to
order, the same writes. -/
theorem endorse_agrees {before after : WorldState} {rwset : ReadWriteSet}
    (noHistory : ∀ chaincode ∈ guest, chaincode.NoHistory)
    (endorsed : endorse guest order request (some before) = .ok (some rwset))
    (agree : ∀ read ∈ rwset.reads, read.version = before.versionOf read.key →
      after.get read.key = before.get read.key) :
    ∃ writes, endorse guest order' request (some after) = .ok (some ⟨rwset.reads, writes⟩) ∧
      ∀ clock state, applyWrites clock writes state = applyWrites clock rwset.writes state := by
  rcases endorse_cases endorsed with ⟨answer, isAnswer, always⟩ | locally
  · cases isAnswer
    exact ⟨rwset.writes, always _ _, fun _ _ => rfl⟩
  · rw [locally] at endorsed ⊢
    cases guest with
    | none => cases endorsed
    | some chaincode =>
      simp only [simulateLocally] at endorsed ⊢
      cases simulated : simulate chaincode order before with
      | error reason => simp only [simulated] at endorsed; cases endorsed
      | ok outcome =>
        obtain ⟨result, found⟩ := outcome
        simp only [simulated] at endorsed
        cases passed : validateKeyPoliciesForRwset request found with
        | error reason => simp only [passed] at endorsed; cases endorsed
        | ok checked =>
          simp only [passed] at endorsed
          cases endorsed
          have moved := simulate_agrees chaincode order before after result rwset
            (noHistory _ rfl) simulated fun key member => agree _ member rfl
          obtain ⟨writes, reordered, perm⟩ :=
            simulate_order chaincode order order' after result rwset moved
          have distinct := simulate_keys_nodup chaincode order' after result _ reordered
          refine ⟨writes, ?_, fun clock state => apply_writes_perm clock state perm distinct⟩
          have policies := key_policies_perm perm passed
          simp only [reordered, policies]

end Endorsing

/-- The writes a client has validated and not put yet. -/
def outstanding : Stage → List KVWrite
  | .applying _ rest => rest
  | _ => []

/-- The endorsement a client carries and has not validated yet. -/
def carried : Stage → Option (Option ReadWriteSet)
  | .endorsed rwset => some rwset
  | .queued rwset => some rwset
  | .atHeight rwset _ => some rwset
  | .cut rwset _ => some rwset
  | .indexing rwset _ _ => some rwset
  | _ => none

def committed : Stage → Bool
  | .applying _ _ => true
  | .finished (.ok result) => result.valid
  | _ => false

inductive Effect (node : Node) (request : Request) (order : HashOrder)
    (world : Option WorldState) (stage : Stage) : Stage → Option WorldState → Prop where
  | quiet (next : Stage) (sameWrites : outstanding next = outstanding stage)
      (sameCommit : committed next = committed stage)
      (sameCarried : ∀ rwset, carried next = some rwset → carried stage = some rwset) :
      Effect node request order world stage next world
  | simulated (rwset : Option ReadWriteSet) (fresh : stage = .start)
      (endorsed : endorse node.guest order request world = .ok rwset) :
      Effect node request order world stage (.endorsed rwset) world
  | unchecked (rwset : Option ReadWriteSet) (block : BlockStore.Block)
      (indexed : stage = .indexing rwset block []) (absent : rwset = none ∨ world = none) :
      Effect node request order world stage (returned request block true) world
  | validated (rwset : ReadWriteSet) (block : BlockStore.Block) (state : WorldState)
      (indexed : stage = .indexing (some rwset) block []) (present : world = some state)
      (valid : validateRwset rwset state = .ok ()) :
      Effect node request order world stage (.applying block rwset.writes) world
  | put (block : BlockStore.Block) (write : KVWrite) (rest : List KVWrite)
      (applying : stage = .applying block (write :: rest)) :
      Effect node request order world stage (.applying block rest)
        (world.map fun state => state.put node.clock write.key write.value)

theorem advance_effect (node : Node) (request : Request) (moment : Moment) (shared : Shared)
    (stage : Stage) :
    Effect node request moment.hashOrder shared.world stage
      (advance node request moment shared stage).1
      (advance node request moment shared stage).2.world := by
  have transition := advance_transition node request moment shared stage
  generalize advance node request moment shared stage = moved at transition ⊢
  cases transition with
  | endorsed rwset answered => exact .simulated rwset rfl answered
  | unchecked rwset block absent => exact .unchecked rwset block rfl absent
  | validated rwset block state present valid =>
    exact .validated rwset block state rfl present valid
  | put block write rest => exact .put block write rest rfl
  | refused reason failed => exact .quiet _ rfl rfl (by rintro rwset ⟨⟩)
  | nothingCut rwset height ordering cut => exact .quiet _ rfl rfl (by rintro rwset ⟨⟩)
  | writeFailed rwset block reason failed => exact .quiet _ rfl rfl (by rintro rwset ⟨⟩)
  | conflicted rwset block state conflict present invalid =>
    exact .quiet _ rfl rfl (by rintro rwset ⟨⟩)
  | _ => exact .quiet _ rfl rfl fun _ same => same

/-- How far a client that runs alone has brought the initial world state. -/
structure AloneAt (node : Node) (request : Request) (initial : Option WorldState) (stage : Stage)
    (world : Option WorldState) : Prop where
  untouched : committed stage = false → world = initial
  carried : ∀ rwset, carried stage = some rwset →
    ∃ order, endorse node.guest order request initial = .ok rwset
  commits : committed stage = true → ∃ order, submitAlone node order request initial =
    some (world.map (applyWrites node.clock (outstanding stage)))

theorem alone_effect {node : Node} {request : Request} {order : HashOrder}
    {initial world after : Option WorldState} {stage next : Stage}
    (alone : AloneAt node request initial stage world)
    (effect : Effect node request order world stage next after) :
    AloneAt node request initial next after := by
  cases effect with
  | quiet _ sameWrites sameCommit sameCarried =>
    refine ⟨?_, fun rwset carries => alone.carried rwset (sameCarried rwset carries), ?_⟩
    · rw [sameCommit]
      exact alone.untouched
    · rw [sameCommit, sameWrites]
      exact alone.commits
  | simulated rwset fresh endorsed =>
    have same : world = initial := alone.untouched (by rw [fresh]; rfl)
    refine ⟨fun _ => same, ?_, by rintro ⟨⟩⟩
    rintro _ ⟨⟩
    exact ⟨order, same ▸ endorsed⟩
  | unchecked rwset block indexed absent =>
    have same : world = initial := alone.untouched (by rw [indexed]; rfl)
    obtain ⟨earlier, endorsed⟩ := alone.carried rwset (by rw [indexed]; rfl)
    refine ⟨by rintro ⟨⟩, by rintro _ ⟨⟩, fun _ => ⟨earlier, ?_⟩⟩
    rw [same] at absent ⊢
    rw [submit_alone_unchecked endorsed absent]
    exact congrArg some Option.map_id'.symm
  | validated rwset block state indexed present valid =>
    have same : world = initial := alone.untouched (by rw [indexed]; rfl)
    obtain ⟨earlier, endorsed⟩ := alone.carried (some rwset) (by rw [indexed]; rfl)
    refine ⟨by rintro ⟨⟩, by rintro _ ⟨⟩, fun _ => ⟨earlier, ?_⟩⟩
    rw [← same, present] at endorsed ⊢
    exact submit_alone_validated endorsed valid
  | put block write rest applying =>
    refine ⟨by rintro ⟨⟩, by rintro _ ⟨⟩, fun _ => ?_⟩
    obtain ⟨earlier, commits⟩ := alone.commits (by rw [applying]; rfl)
    refine ⟨earlier, commits.trans ?_⟩
    rw [applying, Option.map_map]
    rfl

/-- A client whose steps nobody interrupts does to the world state what
`submitAlone` says. -/
theorem alone_steps {count : Nat} {node : Node} {requests : Fin count → Request}
    (client : Fin count) (system : System count) (inputs : List (Fin count × Moment))
    (fresh : system.stages client = .start)
    (only : AllMeet (stepClient node requests) (fun _ input => input.1 = client) system inputs)
    (valid : committed ((runClients node requests system inputs).stages client) = true)
    (finished : outstanding ((runClients node requests system inputs).stages client) = []) :
    ∃ order, submitAlone node order (requests client) system.shared.world =
      some (runClients node requests system inputs).shared.world := by
  have invariant := run_invariant_plain
    (fun reached => AloneAt node (requests client) system.shared.world (reached.stages client)
      reached.shared.world)
    system inputs
    ⟨fun _ => rfl, by rw [fresh]; rintro _ ⟨⟩, by rw [fresh]; rintro ⟨⟩⟩
    (by
      rintro reached input alone rfl
      have effect := advance_effect node (requests input.1) input.2 reached.shared
        (reached.stages input.1)
      simp only [stepClient, Function.update_self]
      exact alone_effect alone effect) only
  obtain ⟨order, commits⟩ := invariant.commits valid
  refine ⟨order, commits.trans ?_⟩
  change some (Option.map (applyWrites node.clock (outstanding
    ((runClients node requests system inputs).stages client))) _) = _
  rw [finished]
  exact congrArg some Option.map_id'

end CeruleanLedger.SubmitAlone
