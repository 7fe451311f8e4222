import Mathlib

/-!
The bonding registry of `oracle_collateral.rs`: one pool per oracle with the
buckets available, locked and in dispute, bonds, challenges that are voted on, and
slashing. Arithmetic wraps as in a release build. A method that fails leaves the
registry as it was: the pool operations inside `challenge_oracle` and
`resolve_challenge` move a whole bucket and cannot fail once it has been read.
-/

namespace CeruleanLedger.OracleCollateral

inductive BondingStatus where
  | pending
  | active
  | released
  deriving DecidableEq

inductive ChallengeStatus where
  | pending
  | voting
  | resolved
  | rejected
  deriving DecidableEq

inductive ChallengeOutcome where
  | challengeAccepted
  | challengeRejected
  | pending
  deriving DecidableEq

structure BondingRequest where
  oracleId : String
  amount : UInt64
  timestamp : UInt64
  status : BondingStatus
  deriving DecidableEq

structure DisputeChallenge where
  id : String
  oracleId : String
  challengerId : String
  reportHash : String
  evidence : String
  timestamp : UInt64
  status : ChallengeStatus
  votesFor : UInt64
  votesAgainst : UInt64
  votingEndTime : UInt64
  deriving DecidableEq

structure CollateralPool where
  oracleId : String
  lockedBalance : UInt64
  availableBalance : UInt64
  inDisputeBalance : UInt64
  slashingFactor : UInt8
  totalSlashed : UInt64
  deriving DecidableEq

namespace CollateralPool

def new (oracleId : String) : CollateralPool :=
  { oracleId, lockedBalance := 0, availableBalance := 0, inDisputeBalance := 0
    slashingFactor := 10, totalSlashed := 0 }

def deposit (pool : CollateralPool) (amount : UInt64) : CollateralPool :=
  { pool with availableBalance := pool.availableBalance + amount }

inductive Bucket where
  | available
  | locked
  | inDispute
  deriving DecidableEq

def balance (pool : CollateralPool) : Bucket → UInt64
  | .available => pool.availableBalance
  | .locked => pool.lockedBalance
  | .inDispute => pool.inDisputeBalance

def setBalance (pool : CollateralPool) (bucket : Bucket) (amount : UInt64) : CollateralPool :=
  match bucket with
  | .available => { pool with availableBalance := amount }
  | .locked => { pool with lockedBalance := amount }
  | .inDispute => { pool with inDisputeBalance := amount }

def move (source target : Bucket) (shortfall : String) (pool : CollateralPool) (amount : UInt64) :
    Except String CollateralPool :=
  if pool.balance source < amount then .error shortfall
  else
    let taken := pool.setBalance source (pool.balance source - amount)
    .ok (taken.setBalance target (taken.balance target + amount))

def lockCollateral : CollateralPool → UInt64 → Except String CollateralPool :=
  move .available .locked "Insufficient available balance"

def disputeCollateral : CollateralPool → UInt64 → Except String CollateralPool :=
  move .locked .inDispute "Insufficient locked balance"

def releaseCollateral : CollateralPool → UInt64 → Except String CollateralPool :=
  move .inDispute .available "Insufficient disputed balance"

def restoreCollateral : CollateralPool → UInt64 → Except String CollateralPool :=
  move .inDispute .available "Insufficient balance to restore"

/-- The whole amount leaves the dispute; the given percentage of it is booked. -/
def slashCollateral (pool : CollateralPool) (amount : UInt64) :
    Except String (CollateralPool × UInt64) :=
  if pool.inDisputeBalance < amount then .error "Insufficient balance to slash"
  else
    let slashAmount := amount * pool.slashingFactor.toUInt64 / 100
    .ok ({ pool with
        inDisputeBalance := pool.inDisputeBalance - amount
        totalSlashed := pool.totalSlashed + slashAmount }, slashAmount)

def canWithdraw (pool : CollateralPool) (amount : UInt64) : Bool :=
  pool.availableBalance ≥ amount && pool.inDisputeBalance == 0

def totalCollateral (pool : CollateralPool) : UInt64 :=
  pool.lockedBalance + pool.availableBalance + pool.inDisputeBalance

end CollateralPool

structure BondingRegistry where
  pools : Std.ExtTreeMap String CollateralPool
  pendingBonds : List BondingRequest
  challenges : List DisputeChallenge
  slashedTotal : UInt64
  slasherRewards : Std.ExtTreeMap String UInt64
  minCollateral : UInt64
  votingPeriodMs : UInt64
  challengeCounter : UInt64

def updateFirst {Item : Type} (found : Item → Bool) (change : Item → Item) :
    List Item → List Item
  | [] => []
  | item :: rest =>
    if found item then change item :: rest else item :: updateFirst found change rest

namespace BondingRegistry

def maxFutureDriftMs : UInt64 := 300000

def maxPastDriftMs : UInt64 := 3600000

def new (minCollateral : UInt64) : BondingRegistry :=
  { minCollateral, pools := ∅, pendingBonds := [], challenges := [], slashedTotal := 0
    slasherRewards := ∅, votingPeriodMs := 259200000, challengeCounter := 0 }

variable (registry : BondingRegistry)

def createPool (oracleId : String) : Except String BondingRegistry :=
  if registry.pools.contains oracleId then .error "Pool already exists"
  else .ok { registry with
    pools := registry.pools.insert oracleId (.new oracleId) }

def depositCollateral (oracleId : String) (amount : UInt64) : Except String BondingRegistry := do
  let registry ←
    if registry.pools.contains oracleId then .ok registry else registry.createPool oracleId
  match registry.pools[oracleId]? with
  | some pool =>
    .ok { registry with pools := registry.pools.insert oracleId (pool.deposit amount) }
  | none => .error "Pool not found"

/-- Bonds past the cap of the list: only those still pending stay. -/
def cappedBonds : List BondingRequest :=
  if registry.pendingBonds.length ≥ 10000 then
    registry.pendingBonds.filter fun bond => bond.status == .pending
  else registry.pendingBonds

def lockCollateral (oracleId : String) (amount timestamp : UInt64) :
    Except String BondingRegistry :=
  if amount < registry.minCollateral then
    .error ("Amount " ++ toString amount ++ " below minimum " ++ toString registry.minCollateral)
  else match registry.pools[oracleId]? with
    | none => .error "Pool not found"
    | some pool =>
      match pool.lockCollateral amount with
      | .error reason => .error reason
      | .ok pool => .ok { registry with
          pools := registry.pools.insert oracleId pool
          pendingBonds := registry.cappedBonds ++ [⟨oracleId, amount, timestamp, .pending⟩] }

/-- The first bond of the oracle, whatever its status. -/
def activateBond (oracleId : String) : Except String BondingRegistry :=
  if registry.pendingBonds.any fun bond => bond.oracleId == oracleId then
    .ok { registry with
      pendingBonds := updateFirst (fun bond => bond.oracleId == oracleId)
        (fun bond => { bond with status := .active }) registry.pendingBonds }
  else .error "Bond not found"

def validateChallengeTimestamp (currentTime challengeTime : UInt64) : Except String Unit :=
  if challengeTime > currentTime ∧ challengeTime - currentTime > maxFutureDriftMs then
    .error "Challenge timestamp too far in future"
  else if currentTime > challengeTime ∧ currentTime - challengeTime > maxPastDriftMs then
    .error "Challenge timestamp too old"
  else .ok ()

def hasActiveBond (oracleId : String) : Bool :=
  registry.pendingBonds.any fun bond => bond.oracleId == oracleId && bond.status == .active

/-- The pools with all that is locked for the oracle in dispute. -/
def disputedPools (oracleId : String) : Except String (Std.ExtTreeMap String CollateralPool) :=
  match registry.pools[oracleId]? with
  | none => .ok registry.pools
  | some pool =>
    match pool.disputeCollateral pool.lockedBalance with
    | .error reason => .error reason
    | .ok pool => .ok (registry.pools.insert oracleId pool)

/-- Challenges past the cap of the list: only those in voting stay. -/
def cappedChallenges : List DisputeChallenge :=
  if registry.challenges.length ≥ 10000 then
    registry.challenges.filter fun challenge => challenge.status == .voting
  else registry.challenges

def challengeOracle (oracleId challengerId reportHash evidence : String) (currentTime : UInt64) :
    Except String (BondingRegistry × String) := do
  validateChallengeTimestamp currentTime currentTime
  if !registry.hasActiveBond oracleId then .error "Oracle not bonded"
  else if registry.challenges.any fun challenge =>
      challenge.oracleId == oracleId && challenge.status == .voting then
    .error "Oracle already has an active challenge"
  else
    let pools ← registry.disputedPools oracleId
    let challengeId := "challenge_" ++ toString registry.challengeCounter
    let challenge : DisputeChallenge :=
      { id := challengeId, oracleId, challengerId, reportHash, evidence, timestamp := currentTime
        status := .voting, votesFor := 0, votesAgainst := 0
        votingEndTime := currentTime + registry.votingPeriodMs }
    .ok ({ registry with
      pools := pools
      challenges := registry.cappedChallenges ++ [challenge]
      challengeCounter := registry.challengeCounter + 1 }, challengeId)

/-- The collateral of a voter that is an oracle stands for its reputation. -/
def calculateVoteWeight (voterId : String) : UInt64 :=
  match registry.pools[voterId]? with
  | some pool => min (1 + max pool.totalCollateral 1 / 100) 10
  | none => 1

def getChallenge (challengeId : String) : Option DisputeChallenge :=
  registry.challenges.find? fun challenge => challenge.id == challengeId

def updateChallenge (challengeId : String) (change : DisputeChallenge → DisputeChallenge) :
    List DisputeChallenge :=
  updateFirst (fun challenge => challenge.id == challengeId) change registry.challenges

def voteOnChallenge (challengeId voterId : String) (voteYes : Bool) :
    Except String BondingRegistry :=
  match registry.getChallenge challengeId with
  | none => .error "Challenge not found"
  | some challenge =>
    if challenge.status ≠ .voting then .error "Challenge is not in voting period"
    else
      let weight := registry.calculateVoteWeight voterId
      .ok { registry with
        challenges := registry.updateChallenge challengeId fun challenge =>
          if voteYes then { challenge with votesFor := challenge.votesFor + weight }
          else { challenge with votesAgainst := challenge.votesAgainst + weight } }

/-- The challenger is credited with 5 % of what is booked as slashed. -/
def executeSlashing (oracleId challengerId : String) : Except String BondingRegistry :=
  match registry.pools[oracleId]? with
  | none => .ok registry
  | some pool =>
    match pool.slashCollateral pool.inDisputeBalance with
    | .error reason => .error reason
    | .ok (pool, slashAmount) =>
      let reward := slashAmount * 5 / 100
      .ok { registry with
        pools := registry.pools.insert oracleId pool
        slasherRewards := registry.slasherRewards.insert challengerId
          (registry.slasherRewards.getD challengerId 0 + reward)
        slashedTotal := registry.slashedTotal + slashAmount }

def restoreDisputed (oracleId : String) : Except String BondingRegistry :=
  match registry.pools[oracleId]? with
  | none => .ok registry
  | some pool =>
    match pool.restoreCollateral pool.inDisputeBalance with
    | .error reason => .error reason
    | .ok pool => .ok { registry with pools := registry.pools.insert oracleId pool }

def resolveChallenge (challengeId : String) (currentTime : UInt64) :
    Except String (BondingRegistry × ChallengeOutcome) :=
  match registry.getChallenge challengeId with
  | none => .error "Challenge not found"
  | some challenge =>
    if challenge.status ≠ .voting then .error "Challenge is not in voting period"
    else if currentTime < challenge.votingEndTime then .error "Voting period not ended"
    else
      let resolved := { registry with
        challenges := registry.updateChallenge challengeId fun challenge =>
          { challenge with status := .resolved } }
      if challenge.votesFor > challenge.votesAgainst then
        (resolved.executeSlashing challenge.oracleId challenge.challengerId).map
          fun registry => (registry, .challengeAccepted)
      else
        (resolved.restoreDisputed challenge.oracleId).map
          fun registry => (registry, .challengeRejected)

def releaseCollateral (oracleId : String) : Except String BondingRegistry :=
  if registry.challenges.any fun challenge =>
      challenge.oracleId == oracleId && challenge.status != .resolved then
    .error "Oracle has active disputes"
  else match registry.pools[oracleId]? with
    | none => .error "Pool not found"
    | some pool =>
      match pool.releaseCollateral pool.inDisputeBalance with
      | .error reason => .error reason
      | .ok pool => .ok { registry with pools := registry.pools.insert oracleId pool }

def withdrawCollateral (oracleId : String) (amount : UInt64) :
    Except String (BondingRegistry × UInt64) :=
  match registry.pools[oracleId]? with
  | none => .error "Pool not found"
  | some pool =>
    if !pool.canWithdraw amount then
      .error "Cannot withdraw now (disputes pending or insufficient balance)"
    else
      let pool := { pool with availableBalance := pool.availableBalance - amount }
      .ok ({ registry with pools := registry.pools.insert oracleId pool }, amount)

def claimSlasherReward (challengerId : String) : Except String (BondingRegistry × UInt64) :=
  match registry.slasherRewards[challengerId]? with
  | none => .error "No rewards available"
  | some reward =>
    .ok ({ registry with slasherRewards := registry.slasherRewards.erase challengerId }, reward)

def setVotingPeriod (periodMs : UInt64) : BondingRegistry :=
  { registry with votingPeriodMs := periodMs }

def setMinCollateral (min : UInt64) : BondingRegistry := { registry with minCollateral := min }

end BondingRegistry

inductive Operation where
  | createPool (oracleId : String)
  | depositCollateral (oracleId : String) (amount : UInt64)
  | lockCollateral (oracleId : String) (amount timestamp : UInt64)
  | activateBond (oracleId : String)
  | challengeOracle (oracleId challengerId reportHash evidence : String) (currentTime : UInt64)
  | voteOnChallenge (challengeId voterId : String) (voteYes : Bool)
  | resolveChallenge (challengeId : String) (currentTime : UInt64)
  | releaseCollateral (oracleId : String) (currentTime : UInt64)
  | withdrawCollateral (oracleId : String) (amount : UInt64)
  | claimSlasherReward (challengerId : String)
  | setVotingPeriod (periodMs : UInt64)
  | setMinCollateral (min : UInt64)

inductive Answer where
  | done
  | challenge (id : String)
  | outcome (outcome : ChallengeOutcome)
  | amount (amount : UInt64)
  deriving DecidableEq

def perform (registry : BondingRegistry) : Operation → Except String (BondingRegistry × Answer)
  | .createPool oracleId => (registry.createPool oracleId).map (·, .done)
  | .depositCollateral oracleId amount =>
    (registry.depositCollateral oracleId amount).map (·, .done)
  | .lockCollateral oracleId amount timestamp =>
    (registry.lockCollateral oracleId amount timestamp).map (·, .done)
  | .activateBond oracleId => (registry.activateBond oracleId).map (·, .done)
  | .challengeOracle oracleId challengerId reportHash evidence currentTime =>
    (registry.challengeOracle oracleId challengerId reportHash evidence currentTime).map
      fun (registry, id) => (registry, .challenge id)
  | .voteOnChallenge challengeId voterId voteYes =>
    (registry.voteOnChallenge challengeId voterId voteYes).map (·, .done)
  | .resolveChallenge challengeId currentTime =>
    (registry.resolveChallenge challengeId currentTime).map
      fun (registry, outcome) => (registry, .outcome outcome)
  | .releaseCollateral oracleId _ => (registry.releaseCollateral oracleId).map (·, .done)
  | .withdrawCollateral oracleId amount =>
    (registry.withdrawCollateral oracleId amount).map
      fun (registry, amount) => (registry, .amount amount)
  | .claimSlasherReward challengerId =>
    (registry.claimSlasherReward challengerId).map
      fun (registry, amount) => (registry, .amount amount)
  | .setVotingPeriod periodMs => .ok (registry.setVotingPeriod periodMs, .done)
  | .setMinCollateral min => .ok (registry.setMinCollateral min, .done)

end CeruleanLedger.OracleCollateral
