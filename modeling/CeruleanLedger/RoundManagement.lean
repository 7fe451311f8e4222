import CeruleanLedger.GuardedRun
import CeruleanLedger.RoundSafety

/-!
Consecutive rounds of `consensus/bft/round_manager.rs`: leader rotation, timeouts with backoff
and the highest commit certificate. Methods that take `&mut self` return the changed manager
next to their action; counters and products wrap as in a release build.
-/

namespace CeruleanLedger.RoundManagement

open ByteCodec BftVotes QuorumValidation IterationOrder ConsensusRound RoundSafety GuardedRun

structure RoundManagerConfig where
  baseTimeoutMs : UInt64
  maxTimeoutMs : UInt64

def RoundManagerConfig.default : RoundManagerConfig := ⟨3000, 30000⟩

inductive ManagerAction where
  | round (action : RoundAction)
  | newRound (round : UInt64) (leaderId : String) (timeoutMs : UInt64)
  | none
  deriving DecidableEq

structure RoundManager where
  nodeId : String
  validators : List String
  verifier : SignatureVerifier
  config : RoundManagerConfig
  currentRound : UInt64
  current : Option BftRound
  consecutiveTimeouts : UInt32
  highestCommitQc : Option QuorumCertificate

def saturatingPow (base : UInt64) (exponent : UInt32) : UInt64 :=
  UInt64.ofNat (min (base.toNat ^ exponent.toNat) (2 ^ 64 - 1))

namespace RoundManager

def new (nodeId : String) (validators : List String) (verifier : SignatureVerifier)
    (config : RoundManagerConfig) : RoundManager :=
  { nodeId, validators, verifier, config, currentRound := 0, current := .none
    consecutiveTimeouts := 0, highestCommitQc := .none }

variable (manager : RoundManager)

def leaderForRound (round : UInt64) : String :=
  (manager.validators[round.toNat % manager.validators.length]?).getD ""

def currentTimeoutMs : UInt64 :=
  min (manager.config.baseTimeoutMs * saturatingPow 2 manager.consecutiveTimeouts)
    manager.config.maxTimeoutMs

def startRound (round : UInt64) : RoundManager × ManagerAction :=
  let leader := manager.leaderForRound round
  let started := { manager with
    currentRound := round
    current := some (.new round manager.nodeId leader manager.validators manager.verifier) }
  (started, .newRound round leader started.currentTimeoutMs)

def start : RoundManager × ManagerAction := manager.startRound 0

def settle : RoundAction → RoundManager
  | .decide _ _ commitQc =>
    { manager with highestCommitQc := some commitQc, consecutiveTimeouts := 0 }
  | _ => manager

def processEvent (listing : Arrangement VoteMessage) (event : RoundEvent) :
    RoundManager × ManagerAction :=
  match manager.current with
  | .none => (manager, .none)
  | some round =>
    let (round, action) := round.process listing event
    (({ manager with current := some round } : RoundManager).settle action, .round action)

def onTimeout : RoundManager × ManagerAction :=
  ({ manager with
      current := manager.current.map fun round => round.handleTimeout.1
      consecutiveTimeouts := manager.consecutiveTimeouts + 1 } : RoundManager).startRound
    (manager.currentRound + 1)

def advanceAfterDecide : RoundManager × ManagerAction :=
  ({ manager with consecutiveTimeouts := 0 } : RoundManager).startRound (manager.currentRound + 1)

end RoundManager

inductive Operation where
  | start
  | startRound (round : UInt64)
  | processEvent (listing : Arrangement VoteMessage) (event : RoundEvent)
  | onTimeout
  | advanceAfterDecide

def perform (manager : RoundManager) : Operation → RoundManager × ManagerAction
  | .start => manager.start
  | .startRound round => manager.startRound round
  | .processEvent listing event => manager.processEvent listing event
  | .onTimeout => manager.onTimeout
  | .advanceAfterDecide => manager.advanceAfterDecide

def decidedQc : ManagerAction → Option QuorumCertificate
  | .round (.decide _ _ commitQc) => some commitQc
  | _ => none

def Operation.timesOut : Operation → Bool
  | .onTimeout => true
  | _ => false

/-- Progress is a decision, or a call that reports one. -/
def progressed : Operation → ManagerAction → Bool
  | .advanceAfterDecide, _ => true
  | _, action => (decidedQc action).isSome

section Effects

variable (manager : RoundManager)

theorem process_event_idle (idle : manager.current = none) (listing : Arrangement VoteMessage)
    (event : RoundEvent) : manager.processEvent listing event = (manager, .none) := by
  rw [RoundManager.processEvent, idle]

theorem process_event_active {round : BftRound} (active : manager.current = some round)
    (listing : Arrangement VoteMessage) (event : RoundEvent) :
    manager.processEvent listing event =
      (({ manager with current := some (round.process listing event).1 } : RoundManager).settle
        (round.process listing event).2, .round (round.process listing event).2) := by
  rw [RoundManager.processEvent, active]

theorem perform_effects (operation : Operation) :
    (perform manager operation).1.config = manager.config ∧
      (perform manager operation).1.highestCommitQc =
        (decidedQc (perform manager operation).2).or manager.highestCommitQc ∧
      (perform manager operation).1.consecutiveTimeouts =
        if progressed operation (perform manager operation).2 then 0
        else if operation.timesOut then manager.consecutiveTimeouts + 1
        else manager.consecutiveTimeouts := by
  cases operation with
  | processEvent listing event =>
    cases current : manager.current with
    | none =>
      rw [perform, process_event_idle manager current]
      exact ⟨rfl, rfl, rfl⟩
    | some round =>
      rw [perform, process_event_active manager current]
      cases (round.process listing event).2 <;> exact ⟨rfl, rfl, rfl⟩
  | _ => exact ⟨rfl, rfl, rfl⟩

end Effects

structure Waiting where
  manager : RoundManager
  timeouts : Nat

def Waiting.step (state : Waiting) (operation : Operation) : Waiting :=
  let (manager, action) := perform state.manager operation
  { manager
    timeouts := if progressed operation action then 0
      else if operation.timesOut then state.timeouts + 1 else state.timeouts }

def waitingAfter (nodeId : String) (validators : List String) (verifier : SignatureVerifier)
    (config : RoundManagerConfig) (operations : List Operation) : Waiting :=
  operations.foldl Waiting.step ⟨.new nodeId validators verifier config, 0⟩

/-- The counter is the number of timeouts, as far as it can count. -/
def Tracks (config : RoundManagerConfig) (state : Waiting) : Prop :=
  state.manager.config = config ∧
    state.manager.consecutiveTimeouts = UInt32.ofNat state.timeouts

theorem tracks_step {config : RoundManagerConfig} (state : Waiting) (operation : Operation)
    (tracks : Tracks config state) : Tracks config (state.step operation) := by
  obtain ⟨sameConfig, _, timeouts⟩ := perform_effects state.manager operation
  refine ⟨sameConfig.trans tracks.1, ?_⟩
  simp only [Waiting.step]
  rw [timeouts]
  split
  · rfl
  · split
    · rw [tracks.2, UInt32.ofNat_add]
      rfl
    · exact tracks.2

def wrappedBackoff (config : RoundManagerConfig) (timeouts : Nat) : Nat :=
  config.baseTimeoutMs.toNat * min (2 ^ (timeouts % 2 ^ 32)) (2 ^ 64 - 1) % 2 ^ 64

theorem current_timeout_eq {config : RoundManagerConfig} {state : Waiting}
    (tracks : Tracks config state) :
    state.manager.currentTimeoutMs.toNat =
      min (wrappedBackoff config state.timeouts) config.maxTimeoutMs.toNat := by
  have saturated : min ((2 : UInt64).toNat ^ (UInt32.ofNat state.timeouts).toNat) (2 ^ 64 - 1) <
      UInt64.size := lt_of_le_of_lt (Nat.min_le_right _ _) (by decide)
  rw [RoundManager.currentTimeoutMs, UInt64.toNat_min, UInt64.toNat_mul, saturatingPow,
    tracks.1, tracks.2, UInt64.toNat_ofNat_of_lt' saturated, UInt32.toNat_ofNat']
  rfl

/-- The backoff that the configuration asks for, over unbounded integers. -/
def intendedBackoff (config : RoundManagerConfig) (timeouts : Nat) : Nat :=
  min (config.baseTimeoutMs.toNat * 2 ^ timeouts) config.maxTimeoutMs.toNat

/-- Either nothing wraps, or what is left of the product is still above the cap. -/
def StaysAbove (config : RoundManagerConfig) (timeouts : Nat) : Prop :=
  config.baseTimeoutMs.toNat * 2 ^ timeouts < 2 ^ 64 ∨
    config.maxTimeoutMs.toNat ≤ wrappedBackoff config timeouts

theorem wrapped_of_small {config : RoundManagerConfig} {timeouts : Nat}
    (small : config.baseTimeoutMs.toNat * 2 ^ timeouts < 2 ^ 64) :
    wrappedBackoff config timeouts = config.baseTimeoutMs.toNat * 2 ^ timeouts := by
  rcases Nat.eq_zero_or_pos config.baseTimeoutMs.toNat with zero | positive
  · rw [wrappedBackoff, zero, Nat.zero_mul, Nat.zero_mul]
    rfl
  · have power : 2 ^ timeouts < 2 ^ 64 := by
      apply lt_of_le_of_lt _ small
      exact Nat.le_mul_of_pos_left _ positive
    have few : timeouts < 64 := (Nat.pow_lt_pow_iff_right (by decide)).mp power
    rw [wrappedBackoff, Nat.mod_eq_of_lt (by omega : timeouts < 2 ^ 32),
      Nat.min_eq_left (by omega), Nat.mod_eq_of_lt small]

theorem backoff_intended_iff (config : RoundManagerConfig) (timeouts : Nat) :
    min (wrappedBackoff config timeouts) config.maxTimeoutMs.toNat =
      intendedBackoff config timeouts ↔ StaysAbove config timeouts := by
  unfold StaysAbove intendedBackoff
  by_cases small : config.baseTimeoutMs.toNat * 2 ^ timeouts < 2 ^ 64
  · simp only [wrapped_of_small small, small, true_or]
  · -- The intended product exceeds every cap that fits the type.
    have cap := config.maxTimeoutMs.toNat_lt
    rw [Nat.min_eq_right (by omega : config.maxTimeoutMs.toNat ≤
      config.baseTimeoutMs.toNat * 2 ^ timeouts)]
    simp only [small, false_or]
    exact min_eq_right_iff

theorem intended_grows (config : RoundManagerConfig) (timeouts : Nat) :
    intendedBackoff config timeouts ≤ intendedBackoff config (timeouts + 1) := by
  have doubled : config.baseTimeoutMs.toNat * 2 ^ timeouts ≤
      config.baseTimeoutMs.toNat * 2 ^ (timeouts + 1) :=
    Nat.mul_le_mul_left _ (Nat.pow_le_pow_right (by decide) (Nat.le_succ _))
  unfold intendedBackoff
  omega

/-- After every sequence of operations the timeout is the intended one exactly if
the product stays above the cap, and a timeout does not shorten it while that is so. -/
theorem backoff_law_iff (nodeId : String) (validators : List String)
    (verifier : SignatureVerifier) (config : RoundManagerConfig) (operations : List Operation) :
    let state := waitingAfter nodeId validators verifier config operations
    (state.manager.currentTimeoutMs.toNat = intendedBackoff config state.timeouts ↔
      StaysAbove config state.timeouts) ∧
    (StaysAbove config state.timeouts → StaysAbove config (state.timeouts + 1) →
      state.manager.currentTimeoutMs.toNat ≤
        state.manager.onTimeout.1.currentTimeoutMs.toNat) := by
  intro state
  have tracks : Tracks config state :=
    run_keeps (Tracks config) _ operations ⟨rfl, rfl⟩ tracks_step
  constructor
  · rw [current_timeout_eq tracks]
    exact backoff_intended_iff config state.timeouts
  · intro now next
    have later : Tracks config (state.step .onTimeout) := tracks_step state .onTimeout tracks
    have manager : (state.step .onTimeout).manager = state.manager.onTimeout.1 := rfl
    have count : (state.step .onTimeout).timeouts = state.timeouts + 1 := rfl
    have after := current_timeout_eq later
    rw [manager, count, (backoff_intended_iff config _).mpr next] at after
    rw [after, current_timeout_eq tracks, (backoff_intended_iff config _).mpr now]
    exact intended_grows config state.timeouts

def fourNodes : List String := ["v0", "v1", "v2", "v3"]

def acceptAll : SignatureVerifier := fun _ _ _ => true

def stalled (timeouts : Nat) : Waiting :=
  waitingAfter "v0" fourNodes acceptAll .default (List.replicate timeouts .onTimeout)

theorem four_timeouts_capped :
    (stalled 4).manager.currentTimeoutMs.toNat = intendedBackoff .default (stalled 4).timeouts :=
  (backoff_law_iff "v0" fourNodes acceptAll .default
    (List.replicate 4 .onTimeout)).1.mpr (Or.inl (by decide +kernel))

/-- With the default configuration, the 61st timeout in a row takes the timer from
the cap of 30 seconds to zero. -/
theorem timeout_drops_to_zero :
    (stalled 60).manager.currentTimeoutMs = 30000 ∧ (stalled 61).timeouts = 61 ∧
      (stalled 61).manager.currentTimeoutMs = 0 ∧
      intendedBackoff .default (stalled 61).timeouts = 30000 := by
  decide +kernel

structure Deciding where
  manager : RoundManager
  decided : List QuorumCertificate

def Deciding.new (nodeId : String) (validators : List String) (verifier : SignatureVerifier)
    (config : RoundManagerConfig) : Deciding :=
  ⟨.new nodeId validators verifier config, []⟩

def Deciding.step (state : Deciding) (operation : Operation) : Deciding :=
  let (manager, action) := perform state.manager operation
  { manager, decided := state.decided ++ (decidedQc action).toList }

/-- The stored certificate is one of greatest round among those emitted. -/
def HoldsHighest (state : Deciding) : Prop :=
  (state.manager.highestCommitQc = none → state.decided = []) ∧
    ∀ qc ∈ state.manager.highestCommitQc,
      qc ∈ state.decided ∧ ∀ other ∈ state.decided, other.round ≤ qc.round
  deriving Decidable

def Running (manager : RoundManager) : Prop :=
  ∀ round ∈ manager.current, Aligned manager.currentRound
    (QuorumValidator.new manager.validators manager.verifier) round

/-- A decision is not for a lower round than the stored certificate. -/
def NotBehind (state : Deciding) (operation : Operation) : Prop :=
  (decidedQc (perform state.manager operation).2).isSome = true →
    ∀ previous ∈ state.manager.highestCommitQc, previous.round ≤ state.manager.currentRound
  deriving Decidable

theorem settle_running {manager : RoundManager} (running : Running manager)
    (action : RoundAction) : Running (manager.settle action) := by
  cases action <;> exact running

theorem climbs_decided {number : UInt64} {validator : QuorumValidator} {ladder last : Ladder}
    {action : RoundAction} {qc : QuorumCertificate}
    (climbs : Climbs number validator ladder action last)
    (decided : decidedQc (.round action) = some qc) : qc.round = number := by
  cases climbs with
  | proposes hash action quiet waiting => cases quiet <;> cases decided
  | commits hash commitQc committing proposed certifies =>
    cases decided
    exact certifies.2.1
  | _ => cases decided

theorem perform_running {manager : RoundManager} (running : Running manager)
    (operation : Operation) :
    Running (perform manager operation).1 ∧
      ∀ qc ∈ decidedQc (perform manager operation).2, qc.round = manager.currentRound := by
  cases operation with
  | processEvent listing event =>
    cases current : manager.current with
    | none =>
      rw [perform, process_event_idle manager current]
      exact ⟨running, by intro qc none; cases none⟩
    | some round =>
      obtain ⟨aligned, climbs⟩ := process_steps (running round current) listing event
      rw [perform, process_event_active manager current]
      constructor
      · apply settle_running
        intro after same
        cases same
        exact aligned
      · exact fun qc decided => climbs_decided climbs decided
  | _ =>
    constructor
    · intro started same
      cases same
      exact new_aligned _ _ _ _ _
    · intro qc none
      cases none

theorem highest_step {state : Deciding} (running : Running state.manager)
    (holds : HoldsHighest state) (operation : Operation) :
    HoldsHighest (state.step operation) ↔ NotBehind state operation := by
  obtain ⟨_, highest, _⟩ := perform_effects state.manager operation
  have current := (perform_running running operation).2
  unfold HoldsHighest NotBehind
  simp only [Deciding.step, highest]
  cases decided : decidedQc (perform state.manager operation).2 with
  | none =>
    simp only [Option.none_or, Option.toList_none, List.append_nil, Option.isSome_none,
      Bool.false_eq_true, false_imp_iff, iff_true]
    exact holds
  | some qc =>
    have same : qc.round = state.manager.currentRound := current qc decided
    simp only [Option.some_or, Option.toList_some, Option.isSome_some, forall_const, ← same,
      reduceCtorEq, false_imp_iff, true_and, Option.mem_def, Option.some.injEq, forall_eq']
    constructor
    · rintro ⟨_, greatest⟩ previous stored
      exact greatest previous (List.mem_append_left _ (holds.2 previous stored).1)
    · intro ahead
      refine ⟨List.mem_append_right _ (List.mem_singleton_self _), ?_⟩
      intro other listed
      rcases List.mem_append.mp listed with earlier | last
      · -- Some certificate is stored, since one was emitted.
        cases stored : state.manager.highestCommitQc with
        | none =>
          rw [holds.1 stored] at earlier
          cases earlier
        | some previous =>
          exact UInt64.le_trans ((holds.2 previous stored).2 other earlier)
            (ahead previous stored)
      · rw [List.mem_singleton.mp last]
        exact UInt64.le_refl _

/-- The stored round does not go down, and a stored certificate does not vanish. -/
def NotLower (before after : Deciding) : Prop :=
  ∀ previous ∈ before.manager.highestCommitQc,
    ∃ next ∈ after.manager.highestCommitQc, previous.round ≤ next.round

theorem not_lower_step {state : Deciding} (holds : HoldsHighest state) (operation : Operation)
    (kept : HoldsHighest (state.step operation)) : NotLower state (state.step operation) := by
  intro previous stored
  have listed : previous ∈ (state.step operation).decided :=
    List.mem_append_left _ (holds.2 previous stored).1
  cases found : (state.step operation).manager.highestCommitQc with
  | none =>
    rw [kept.1 found] at listed
    cases listed
  | some next => exact ⟨next, rfl, (kept.2 next found).2 previous listed⟩

/-- Over every sequence of operations, the stored certificate has the greatest
round decided so far at every moment exactly if no decision is for a lower round
than the stored one; then its round never decreases. -/
theorem highest_certificate_iff (nodeId : String) (validators : List String)
    (verifier : SignatureVerifier) (config : RoundManagerConfig) (operations : List Operation) :
    let start := Deciding.new nodeId validators verifier config
    ((∀ count, HoldsHighest ((operations.take count).foldl Deciding.step start)) ↔
      AllMeet Deciding.step NotBehind start operations) ∧
    (AllMeet Deciding.step NotBehind start operations →
      ∀ earlier operation later, operations = earlier ++ operation :: later →
        NotLower (earlier.foldl Deciding.step start)
          ((earlier ++ [operation]).foldl Deciding.step start)) := by
  intro start
  have running : Running start.manager := by
    intro round none
    cases none
  have initial : HoldsHighest start := by
    refine ⟨fun _ => rfl, ?_⟩
    intro qc none
    cases none
  have law : (∀ count, HoldsHighest ((operations.take count).foldl Deciding.step start)) ↔
      AllMeet Deciding.step NotBehind start operations :=
    prefixes_hold_given_iff (fun state : Deciding => Running state.manager) HoldsHighest
      (fun _ operation aligned => (perform_running aligned operation).1)
      (fun _ operation aligned holds => highest_step aligned holds operation) start operations
      running initial
  refine ⟨law, ?_⟩
  intro meets earlier operation later split
  have before := law.mpr meets earlier.length
  have after := law.mpr meets (earlier.length + 1)
  have taken : operations.take (earlier.length + 1) = earlier ++ [operation] := by
    rw [split, List.take_length_add_append]
    rfl
  rw [split, List.take_left] at before
  rw [taken] at after
  rw [List.foldl_append] at after ⊢
  exact not_lower_step before operation after

def roundOf (number : UInt64) (hash : Hash32) : List Operation :=
  [.startRound number, .processEvent .asStored (.startAsLeader hash)] ++
    [BftPhase.prepare, .preCommit, .commit].flatMap fun phase =>
      ["v0", "v1", "v2"].map fun voter =>
        .processEvent .asStored (.vote ⟨hash, number, phase, voter, [1]⟩)

def decidingNode : Deciding := .new "v1" fourNodes acceptAll .default

theorem rising_rounds_kept :
    HoldsHighest ((roundOf 1 firstHash ++ roundOf 5 secondHash).foldl Deciding.step
      decidingNode) :=
  (highest_certificate_iff "v1" fourNodes acceptAll .default
    (roundOf 1 firstHash ++ roundOf 5 secondHash)).1.mpr (by decide +kernel) 22

/-- Round 5 is decided, then round 1 is started again and decided: the stored
certificate goes from round 5 back to round 1. -/
theorem certificate_round_falls :
    ((roundOf 5 firstHash).foldl Deciding.step decidingNode).manager.highestCommitQc.map
        QuorumCertificate.round = some 5 ∧
      ((roundOf 5 firstHash ++ roundOf 1 secondHash).foldl Deciding.step
        decidingNode).manager.highestCommitQc.map QuorumCertificate.round = some 1 ∧
      ¬ HoldsHighest ((roundOf 5 firstHash ++ roundOf 1 secondHash).foldl Deciding.step
        decidingNode) := by
  decide +kernel

end CeruleanLedger.RoundManagement
