import CeruleanLedger.IterationOrder
import CeruleanLedger.Staking

/-!
Governance: the vote store of `governance/voting.rs`, the proposal store of
`governance/proposals.rs`, the parameters of `governance/params.rs` and the
handlers of `api/handlers/governance.rs` that delegate, vote and close a vote.
SHA-256 and Ed25519 are parameters, and the chain height is part of the state.
Amounts, heights and ids are `u64` and wrap, as in a release build. What the
handlers write to the block store is read by none of them and is left out.
-/

namespace CeruleanLedger.Governance

open ByteCodec EndorsementCheck IterationOrder Staking
open NativeLedger (saturatingSub)

abbrev ProposalId := UInt64

inductive VoteOption where
  | yes
  | no
  | abstain
  deriving DecidableEq

def VoteOption.name : VoteOption → String
  | .yes => "Yes"
  | .no => "No"
  | .abstain => "Abstain"

structure Vote where
  voter : String
  proposalId : ProposalId
  option : VoteOption
  power : UInt64
  votedAt : UInt64
  deriving DecidableEq

structure TallyResult where
  proposalId : ProposalId
  yesPower : UInt64
  noPower : UInt64
  abstainPower : UInt64
  totalVotedPower : UInt64
  totalStakedPower : UInt64
  quorumReached : Bool
  passed : Bool
  deriving DecidableEq

inductive VotingError where
  | alreadyVoted (id : ProposalId)
  | zeroPower
  | votingEnded (id : ProposalId)
  | selfDelegation
  | circularDelegation
  | hasDelegated
  deriving DecidableEq

def VotingError.display : VotingError → String
  | .alreadyVoted id => "already voted on proposal " ++ toString id
  | .zeroPower => "zero voting power"
  | .votingEnded id => "voting period ended for proposal " ++ toString id
  | .selfDelegation => "cannot delegate to self"
  | .circularDelegation => "circular delegation detected"
  | .hasDelegated => "voter has delegated power to another address; undelegate first"

/-- Delegators and their delegates. No two addresses delegate to each other, and
none to itself. -/
structure Delegations where
  map : Std.ExtTreeMap String String
  oneWay : ∀ delegator delegate : String, map[delegator]? = some delegate →
    map[delegate]? ≠ some delegator

namespace Delegations

def empty : Delegations := ⟨∅, by simp⟩

def point (delegations : Delegations) (delegator delegate : String)
    (apart : delegator ≠ delegate)
    (unanswered : delegations.map[delegate]? ≠ some delegator) : Delegations where
  map := delegations.map.insert delegator delegate
  oneWay := by
    intro first second pointed
    rw [OrderedMap.get_insert] at pointed ⊢
    split at pointed
    · next own =>
      cases pointed
      rw [← own, if_neg apart]
      exact unanswered
    · next other =>
      split
      · next back =>
        rintro same
        cases same
        exact unanswered (back ▸ pointed)
      · exact delegations.oneWay first second pointed

def remove (delegations : Delegations) (delegator : String) : Delegations where
  map := delegations.map.erase delegator
  oneWay := by
    intro first second pointed
    rw [OrderedMap.get_erase] at pointed ⊢
    split at pointed
    · cases pointed
    · split
      · exact nofun
      · exact delegations.oneWay first second pointed

end Delegations

structure VoteStore where
  votes : Std.ExtTreeMap ProposalId (Std.ExtTreeMap String Vote)
  delegations : Delegations

namespace VoteStore

def new : VoteStore := ⟨∅, .empty⟩

def delegate (store : VoteStore) (delegator delegate : String) : Except VotingError VoteStore :=
  if apart : delegator = delegate then .error .selfDelegation
  else if unanswered : store.delegations.map[delegate]? = some delegator then
    .error .circularDelegation
  else .ok { store with
    delegations := store.delegations.point delegator delegate apart unanswered }

def undelegate (store : VoteStore) (delegator : String) : VoteStore :=
  { store with delegations := store.delegations.remove delegator }

def getDelegate (store : VoteStore) (delegator : String) : Option String :=
  store.delegations.map[delegator]?

def getDelegators (store : VoteStore) (delegate : String) : List String :=
  (store.delegations.map.toList.filter fun entry => entry.2 = delegate).map Prod.fst

def votesOn (store : VoteStore) (proposalId : ProposalId) : Std.ExtTreeMap String Vote :=
  store.votes[proposalId]?.getD ∅

def castVote (store : VoteStore) (proposalId : ProposalId) (voter : String)
    (option : VoteOption) (power currentHeight votingEndsAt : UInt64) :
    Except VotingError VoteStore :=
  if power = 0 then .error .zeroPower
  else if votingEndsAt ≤ currentHeight then .error (.votingEnded proposalId)
  else if store.delegations.map.contains voter then .error .hasDelegated
  else if (store.votesOn proposalId).contains voter then .error (.alreadyVoted proposalId)
  else
    let vote := ⟨voter, proposalId, option, power, currentHeight⟩
    .ok { store with
      votes := store.votes.insert proposalId ((store.votesOn proposalId).insert voter vote) }

def getVotes (store : VoteStore) (proposalId : ProposalId) : List Vote :=
  (store.votesOn proposalId).toList.map Prod.snd

def loadVote (store : VoteStore) (vote : Vote) : VoteStore :=
  let proposalVotes := (store.votesOn vote.proposalId).insert vote.voter vote
  { store with votes := store.votes.insert vote.proposalId proposalVotes }

def saturatingMul (left right : UInt64) : UInt64 :=
  if left.toNat * right.toNat < 2 ^ 64 then left * right else UInt64.ofNat (2 ^ 64 - 1)

def powerFor (option : VoteOption) (votes : List Vote) : UInt64 :=
  votes.foldl
    (fun sum vote => if vote.option = option then saturatingAdd sum vote.power else sum) 0

/-- The votes are visited in the order of their hash map. -/
def tally (store : VoteStore) (order : Arrangement Vote) (proposalId : ProposalId)
    (totalStakedPower quorumPercent passThresholdPercent : UInt64) : TallyResult :=
  let votes := order.arrange (store.getVotes proposalId)
  let yes := powerFor .yes votes
  let no := powerFor .no votes
  let abstain := powerFor .abstain votes
  let totalVoted := saturatingAdd (saturatingAdd yes no) abstain
  let quorumReached := decide (0 < totalStakedPower) &&
    decide (quorumPercent ≤ saturatingMul totalVoted 100 / totalStakedPower)
  let yesNoTotal := saturatingAdd yes no
  let passed := quorumReached && decide (0 < yesNoTotal) &&
    decide (passThresholdPercent ≤ saturatingMul yes 100 / yesNoTotal)
  ⟨proposalId, yes, no, abstain, totalVoted, totalStakedPower, quorumReached, passed⟩

end VoteStore

inductive ParamValue where
  | u64 (value : UInt64)
  | bool (value : Bool)
  | string (value : String)
  deriving DecidableEq

abbrev ParamRegistry := Std.ExtTreeMap String ParamValue

def ParamRegistry.getU64 (registry : ParamRegistry) (key : String) (default : UInt64) : UInt64 :=
  match registry[key]? with
  | some (.u64 value) => value
  | _ => default

inductive ProposalStatus where
  | voting
  | passed
  | rejected
  | executed
  | cancelled
  | expired
  deriving DecidableEq

def ProposalStatus.name : ProposalStatus → String
  | .voting => "Voting"
  | .passed => "Passed"
  | .rejected => "Rejected"
  | .executed => "Executed"
  | .cancelled => "Cancelled"
  | .expired => "Expired"

inductive ProposalAction where
  | paramChange (changes : List (String × ParamValue))
  | textProposal (title description : String)
  deriving DecidableEq

structure Proposal where
  id : ProposalId
  proposer : String
  action : ProposalAction
  status : ProposalStatus
  deposit : UInt64
  submittedAt : UInt64
  votingEndsAt : UInt64
  timelockEndsAt : Option UInt64
  finalizedAt : Option UInt64
  description : String
  deriving DecidableEq

inductive ProposalError where
  | notFound (id : ProposalId)
  | insufficientDeposit (required offered : UInt64)
  | invalidState (expected : String) (got : ProposalStatus)
  | votingNotEnded (endsAt : UInt64)
  | timelockNotExpired (expiresAt : UInt64)
  | emptyChanges
  | notProposer
  | notAuthorized
  | rateLimited (waitUntil : UInt64)
  deriving DecidableEq

def ProposalError.display : ProposalError → String
  | .notFound id => "proposal not found: " ++ toString id
  | .insufficientDeposit required offered =>
    "insufficient deposit: need " ++ toString required ++ ", offered " ++ toString offered
  | .invalidState expected got => "invalid state: expected " ++ expected ++ ", got " ++ got.name
  | .votingNotEnded endsAt => "voting period not ended (ends at block " ++ toString endsAt ++ ")"
  | .timelockNotExpired expiresAt =>
    "timelock not expired (expires at block " ++ toString expiresAt ++ ")"
  | .emptyChanges => "no changes to apply"
  | .notProposer => "not the proposer"
  | .notAuthorized => "not authorized for emergency veto"
  | .rateLimited waitUntil =>
    "rate limited: next proposal allowed at block " ++ toString waitUntil

structure SubmitParams where
  proposer : String
  action : ProposalAction
  description : String
  deposit : UInt64
  requiredDeposit : UInt64
  currentHeight : UInt64
  votingPeriod : UInt64

structure ProposalStore where
  proposals : Std.ExtTreeMap ProposalId Proposal
  nextId : ProposalId
  lockedDeposits : Std.ExtTreeMap String UInt64
  lastSubmission : Std.ExtTreeMap String UInt64

def proposalRateLimitBlocks : UInt64 := 100

namespace ProposalStore

def new : ProposalStore := ⟨∅, 1, ∅, ∅⟩

def lockedDepositFor (store : ProposalStore) (proposer : String) : UInt64 :=
  store.lockedDeposits[proposer]?.getD 0

def get (store : ProposalStore) (id : ProposalId) : Option Proposal := store.proposals[id]?

/-- The height up to which a proposer has to wait, if the height is before it. -/
def rateLimit (store : ProposalStore) (proposer : String) (currentHeight : UInt64) :
    Option UInt64 :=
  (store.lastSubmission[proposer]?.map (· + proposalRateLimitBlocks)).filter (currentHeight < ·)

def SubmitParams.proposal (params : SubmitParams) (id : ProposalId) : Proposal where
  id
  proposer := params.proposer
  action := params.action
  status := .voting
  deposit := params.deposit
  submittedAt := params.currentHeight
  votingEndsAt := saturatingAdd params.currentHeight params.votingPeriod
  timelockEndsAt := none
  finalizedAt := none
  description := params.description

def submit (store : ProposalStore) (params : SubmitParams) :
    Except ProposalError (ProposalStore × ProposalId) :=
  if params.deposit < params.requiredDeposit then
    .error (.insufficientDeposit params.requiredDeposit params.deposit)
  else if params.action = .paramChange [] then .error .emptyChanges
  else match store.rateLimit params.proposer params.currentHeight with
    | some waitUntil => .error (.rateLimited waitUntil)
    | none =>
      let id := store.nextId
      let locked := store.lockedDepositFor params.proposer + params.deposit
      .ok ({ proposals := store.proposals.insert id (SubmitParams.proposal params id)
             nextId := id + 1
             lockedDeposits := store.lockedDeposits.insert params.proposer locked
             lastSubmission :=
               store.lastSubmission.insert params.proposer params.currentHeight }, id)

def refundDeposit (locked : Std.ExtTreeMap String UInt64) (proposer : String)
    (amount : UInt64) : Std.ExtTreeMap String UInt64 :=
  match locked[proposer]? with
  | none => locked
  | some total =>
    let left := saturatingSub total amount
    if left = 0 then locked.erase proposer else locked.insert proposer left

/-- The end of a proposal: its status, the height, and the refund. -/
def finalize (store : ProposalStore) (id : ProposalId) (proposal : Proposal)
    (status : ProposalStatus) (currentHeight : UInt64) : ProposalStore :=
  let final := { proposal with status, finalizedAt := some currentHeight }
  { store with
    proposals := store.proposals.insert id final
    lockedDeposits := refundDeposit store.lockedDeposits proposal.proposer proposal.deposit }

def markPassed (store : ProposalStore) (id : ProposalId) (currentHeight timelockBlocks : UInt64) :
    Except ProposalError ProposalStore :=
  match store.proposals[id]? with
  | none => .error (.notFound id)
  | some proposal =>
    if proposal.status ≠ .voting then .error (.invalidState "Voting" proposal.status)
    else if currentHeight < proposal.votingEndsAt then
      .error (.votingNotEnded proposal.votingEndsAt)
    else
      let passed := { proposal with
        status := .passed, timelockEndsAt := some (currentHeight + timelockBlocks) }
      .ok { store with proposals := store.proposals.insert id passed }

def markRejected (store : ProposalStore) (id : ProposalId) (currentHeight : UInt64) :
    Except ProposalError ProposalStore :=
  match store.proposals[id]? with
  | none => .error (.notFound id)
  | some proposal =>
    if proposal.status ≠ .voting then .error (.invalidState "Voting" proposal.status)
    else .ok (store.finalize id proposal .rejected currentHeight)

def markExecuted (store : ProposalStore) (id : ProposalId) (currentHeight : UInt64) :
    Except ProposalError ProposalStore :=
  match store.proposals[id]? with
  | none => .error (.notFound id)
  | some proposal =>
    if proposal.status ≠ .passed then .error (.invalidState "Passed" proposal.status)
    else match proposal.timelockEndsAt.filter (currentHeight < ·) with
      | some expiresAt => .error (.timelockNotExpired expiresAt)
      | none => .ok (store.finalize id proposal .executed currentHeight)

def cancel (store : ProposalStore) (id : ProposalId) (caller : String) (currentHeight : UInt64) :
    Except ProposalError ProposalStore :=
  match store.proposals[id]? with
  | none => .error (.notFound id)
  | some proposal =>
    if proposal.proposer ≠ caller then .error .notProposer
    else if proposal.status ≠ .voting then .error (.invalidState "Voting" proposal.status)
    else .ok (store.finalize id proposal .cancelled currentHeight)

/-- Hydration: no deposit is locked. -/
def loadProposal (store : ProposalStore) (proposal : Proposal) : ProposalStore :=
  { store with
    nextId := if store.nextId ≤ proposal.id then proposal.id + 1 else store.nextId
    proposals := store.proposals.insert proposal.id proposal }

/-- Refused for `Executed` and `Cancelled` only. -/
def emergencyVeto (store : ProposalStore) (id : ProposalId) (caller : String)
    (authorizedVetoers : List String) (currentHeight : UInt64) :
    Except ProposalError ProposalStore :=
  if !authorizedVetoers.contains caller then .error .notAuthorized
  else match store.proposals[id]? with
    | none => .error (.notFound id)
    | some proposal =>
      if proposal.status = .executed ∨ proposal.status = .cancelled then
        .error (.invalidState "Voting or Passed" proposal.status)
      else .ok (store.finalize id proposal .cancelled currentHeight)

end ProposalStore

structure Platform extends Ed25519 where
  sha256 : Bytes → Hash32

structure ErrorDto where
  code : String
  message : String
  field : Option String
  deriving DecidableEq

structure Failure where
  status : Nat
  error : ErrorDto
  deriving DecidableEq

def errDto (message : String) : ErrorDto := ⟨"GOVERNANCE_ERROR", message, none⟩

def errField (field message : String) : ErrorDto := ⟨"VALIDATION_ERROR", message, some field⟩

def maxVoterLen : Nat := 256

def validateBounded (field value : String) (max : Nat) : Except ErrorDto Unit :=
  if value.isEmpty then .error (errField field "must not be empty")
  else if max < value.utf8ByteSize then
    .error (errField field ("exceeds maximum length of " ++ toString max ++ " bytes"))
  else if value.toList.contains (Char.ofNat 0) then
    .error (errField field "contains null bytes")
  else .ok ()

structure GovernanceState where
  voteStore : Option VoteStore
  proposalStore : Option ProposalStore
  paramRegistry : Option ParamRegistry
  staking : StakingManager
  chainHeight : UInt64

def notConfigured : Failure := ⟨503, errDto "governance not configured"⟩

def GovernanceState.totalStakedPower (state : GovernanceState) : UInt64 :=
  (state.staking.getActiveValidators.map Validator.stakedAmount).sum

def voterPower (staking : StakingManager) (store : VoteStore) (voter : String) : UInt64 :=
  staking.stakeOf voter +
    (((store.getDelegators voter).filterMap staking.getValidator).map Validator.stakedAmount).sum

structure CastVoteRequest where
  voter : String
  option : VoteOption
  signature : Option String
  publicKey : Option String
  nonce : Option String

def shortDigest (platform : Platform) (data : Bytes) : String :=
  hexEncode ((platform.sha256 data).toList.take 20)

def checkSignature (platform : Platform) (id : ProposalId) (body : CastVoteRequest) :
    Except Failure Unit :=
  match body.signature, body.publicKey with
  | some signatureHex, some keyHex =>
    let keyBytes := (hexDecode keyHex).getD []
    let signatureBytes := (hexDecode signatureHex).getD []
    if known : keyBytes.length = 32 then
      let key : Hash32 := ⟨keyBytes.toArray, known⟩
      let payload := "vote:" ++ toString id ++ ":" ++ body.option.name ++ ":" ++ keyHex
      if signatureBytes.length ≠ 64 then
        .error ⟨400, errField "signature" "invalid Ed25519 signature (expected 64 bytes hex)"⟩
      else if !platform.keyDecodes key then
        .error ⟨400, errField "public_key" "invalid Ed25519 public key"⟩
      else if !platform.verify key (utf8 payload) signatureBytes then
        .error ⟨400, errDto "signature verification failed — vote rejected"⟩
      else if body.voter ≠ "did:cerulean:" ++ shortDigest platform keyBytes then
        .error ⟨400, errDto "voter DID does not match public key"⟩
      else .ok ()
    else
      .error ⟨400, errField "public_key" "invalid Ed25519 public key (expected 32 bytes hex)"⟩
  | _, _ => .ok ()

/-- The identity that a vote is stored under: blinded with the nonce when the
request has a signature. -/
def effectiveVoter (platform : Platform) (id : ProposalId) (body : CastVoteRequest) : String :=
  if body.signature.isSome then
    "blind:" ++ shortDigest platform
      (toLeBytes id ++ utf8 body.voter ++ (body.nonce.map utf8).getD [])
  else body.voter

structure Ballot where
  store : VoteStore
  voter : String
  power : UInt64
  votingEndsAt : UInt64

def prepareVote (platform : Platform) (permissive : Bool) (state : GovernanceState)
    (id : ProposalId) (body : CastVoteRequest) : Except Failure Ballot :=
  match validateBounded "voter" body.voter maxVoterLen with
  | .error reason => .error ⟨400, reason⟩
  | .ok () =>
    match state.voteStore, state.proposalStore with
    | some store, some proposals =>
      match proposals.get id with
      | none => .error ⟨404, errDto ("proposal " ++ toString id ++ " not found")⟩
      | some proposal =>
        match checkSignature platform id body with
        | .error failure => .error failure
        | .ok () =>
          let voter := effectiveVoter platform id body
          let real := voterPower state.staking store body.voter
          if 0 < real then .ok ⟨store, voter, real, proposal.votingEndsAt⟩
          else if permissive then .ok ⟨store, voter, 1, proposal.votingEndsAt⟩
          else .error ⟨400, errDto "voter has no staked tokens (zero voting power)"⟩
    | _, _ => .error notConfigured

/-- In one order of the votes; every other gives the same tally. -/
def tallyOf (state : GovernanceState) (registry : ParamRegistry) (store : VoteStore)
    (id : ProposalId) : TallyResult :=
  store.tally .asStored id (max state.totalStakedPower 1) (registry.getU64 "quorum_percent" 33)
    (registry.getU64 "pass_threshold_percent" 67)

def castGovernanceVote (platform : Platform) (permissive : Bool) (state : GovernanceState)
    (id : ProposalId) (body : CastVoteRequest) :
    GovernanceState × Except Failure TallyResult :=
  match prepareVote platform permissive state id body with
  | .error failure => (state, .error failure)
  | .ok ballot =>
    match ballot.store.castVote id ballot.voter body.option ballot.power state.chainHeight
        ballot.votingEndsAt with
    | .error reason => (state, .error ⟨400, errDto reason.display⟩)
    | .ok store =>
      let state := { state with voteStore := some store }
      match state.paramRegistry with
      | none => (state, .error notConfigured)
      | some registry => (state, .ok (tallyOf state registry store id))

def delegateVote (state : GovernanceState) (delegator delegate : String) :
    GovernanceState × Except Failure Unit :=
  match validateBounded "delegator" delegator maxVoterLen with
  | .error reason => (state, .error ⟨400, reason⟩)
  | .ok () =>
    match validateBounded "delegate" delegate maxVoterLen with
    | .error reason => (state, .error ⟨400, reason⟩)
    | .ok () =>
      match state.voteStore with
      | none => (state, .error notConfigured)
      | some store =>
        match store.delegate delegator delegate with
        | .error reason => (state, .error ⟨400, errDto reason.display⟩)
        | .ok store => ({ state with voteStore := some store }, .ok ())

/-- Closes a vote at the current height: by the tally, with no look at the end of
the voting period of its own. -/
def closeGovernanceVoting (state : GovernanceState) (id : ProposalId) :
    GovernanceState × Except Failure (Option Proposal) :=
  match state.proposalStore, state.voteStore, state.paramRegistry with
  | some proposals, some store, some registry =>
    let closed :=
      if (tallyOf state registry store id).passed then
        proposals.markPassed id state.chainHeight (registry.getU64 "timelock_blocks" 5760)
      else proposals.markRejected id state.chainHeight
    match closed with
    | .error reason => (state, .error ⟨400, errDto reason.display⟩)
    | .ok proposals => ({ state with proposalStore := some proposals }, .ok (proposals.get id))
  | _, _, _ => (state, .error notConfigured)

end CeruleanLedger.Governance
