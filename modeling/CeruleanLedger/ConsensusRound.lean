import CeruleanLedger.IterationOrder
import CeruleanLedger.QuorumValidation

/-!
One consensus round of `consensus/bft/round.rs` and the vote collector of
`consensus/bft/vote_collector.rs`. Methods that take `&mut self` return the
changed value next to their answer. The order in which the collector's hash
map lists the accepted votes is an argument of every call that may form a
certificate.
-/

namespace CeruleanLedger.ConsensusRound

open ByteCodec BftVotes QuorumValidation IterationOrder

inductive VoteResult where
  | pending (count : Nat)
  | quorumReached (qc : QuorumCertificate)
  | rejected (reason : QcError)
  deriving DecidableEq

/-- The accepted votes are keyed by voter, so no voter occurs twice, and only
`add_vote` adds to them. -/
structure VoteCollector where
  phase : BftPhase
  round : UInt64
  blockHash : Hash32
  votes : List VoteMessage
  quorumValidator : QuorumValidator
  quorumReached : Bool
  distinct : (votes.map VoteMessage.voterId).Nodup
  admitted : ∀ vote ∈ votes, vote.Names phase blockHash round ∧ quorumValidator.Admits vote

namespace VoteCollector

def new (phase : BftPhase) (round : UInt64) (blockHash : Hash32)
    (quorumValidator : QuorumValidator) : VoteCollector where
  phase := phase
  round := round
  blockHash := blockHash
  votes := []
  quorumValidator := quorumValidator
  quorumReached := false
  distinct := List.nodup_nil
  admitted := fun _ member => absurd member List.not_mem_nil

def insert (collector : VoteCollector) (vote : VoteMessage)
    (fresh : vote.voterId ∉ collector.votes.map VoteMessage.voterId)
    (names : vote.Names collector.phase collector.blockHash collector.round)
    (admits : collector.quorumValidator.Admits vote) : VoteCollector :=
  { collector with
    votes := vote :: collector.votes
    distinct := List.nodup_cons.mpr ⟨fresh, collector.distinct⟩
    admitted := List.forall_mem_cons.mpr ⟨⟨names, admits⟩, collector.admitted⟩ }

def markReached (collector : VoteCollector) : VoteCollector :=
  { collector with quorumReached := true }

def addVote (collector : VoteCollector) (listing : Arrangement VoteMessage)
    (vote : VoteMessage) : VoteCollector × VoteResult :=
  if collector.quorumReached then
    (collector, .rejected (.duplicateVoter "quorum already reached"))
  else if phase : vote.phase ≠ collector.phase then
    (collector, .rejected (.mismatchedPhase collector.phase vote.phase))
  else if round : vote.round ≠ collector.round then
    (collector, .rejected (.mismatchedRound collector.round vote.round))
  else if hash : vote.blockHash ≠ collector.blockHash then
    (collector, .rejected (.mismatchedBlockHash collector.blockHash vote.blockHash))
  else if repeated : vote.voterId ∈ collector.votes.map VoteMessage.voterId then
    (collector, .rejected (.duplicateVoter vote.voterId))
  else match checked : collector.quorumValidator.validateVote vote with
    | .error reason => (collector, .rejected reason)
    | .ok () =>
      let grown := collector.insert vote repeated
        ⟨not_not.mp phase, not_not.mp hash, not_not.mp round⟩
        ((collector.quorumValidator.validate_vote_iff vote).mp checked)
      if grown.votes.length ≥ grown.quorumValidator.quorumThreshold then
        match QuorumCertificate.new grown.phase grown.blockHash grown.round
            (listing.arrange grown.votes) with
        | .ok qc => (grown.markReached, .quorumReached qc)
        -- The flag is already set when no certificate can be formed.
        | .error reason => (grown.markReached, .rejected reason)
      else (grown, .pending grown.votes.length)

end VoteCollector

inductive RoundEvent where
  | startAsLeader (blockHash : Hash32)
  | proposal (blockHash : Hash32) (leaderId : String)
  | vote (vote : VoteMessage)
  | timeout
  deriving DecidableEq

inductive RoundAction where
  | broadcastProposal (blockHash : Hash32)
  | sendVote (vote : VoteMessage)
  | phaseComplete (phase : BftPhase) (qc : QuorumCertificate)
  | decide (blockHash : Hash32) (round : UInt64) (commitQc : QuorumCertificate)
  | none
  deriving DecidableEq

inductive RoundState where
  | awaitingProposal
  | preparing
  | preCommitting
  | committing
  | decided
  | failed
  deriving DecidableEq

def makeVote (phase : BftPhase) (blockHash : Hash32) (round : UInt64) (nodeId : String) :
    VoteMessage :=
  { blockHash, round, phase, voterId := nodeId, signature := [] }

structure BftRound where
  round : UInt64
  nodeId : String
  leaderId : String
  state : RoundState
  blockHash : Option Hash32
  prepareQc : Option QuorumCertificate
  precommitQc : Option QuorumCertificate
  commitQc : Option QuorumCertificate
  prepareCollector : Option VoteCollector
  precommitCollector : Option VoteCollector
  commitCollector : Option VoteCollector
  validators : List String
  verifier : SignatureVerifier

namespace BftRound

def new (round : UInt64) (nodeId leaderId : String) (validators : List String)
    (verifier : SignatureVerifier) : BftRound :=
  { round, nodeId, leaderId, state := .awaitingProposal, blockHash := .none
    prepareQc := .none, precommitQc := .none, commitQc := .none
    prepareCollector := .none, precommitCollector := .none, commitCollector := .none
    validators, verifier }

variable (round : BftRound)

def isLeader : Bool := round.nodeId == round.leaderId

def collector : BftPhase → Option VoteCollector
  | .prepare => round.prepareCollector
  | .preCommit => round.precommitCollector
  | .commit => round.commitCollector
  | .decide => .none

def setCollector (collector : VoteCollector) : BftPhase → BftRound
  | .prepare => { round with prepareCollector := some collector }
  | .preCommit => { round with precommitCollector := some collector }
  | .commit => { round with commitCollector := some collector }
  | .decide => round

def ensureCollector (phase : BftPhase) (hash : Hash32) : BftRound :=
  match round.collector phase with
  | some _ => round
  | .none => round.setCollector (.new phase round.round hash
      (QuorumValidator.new round.validators round.verifier)) phase

def handleStartAsLeader (hash : Hash32) : BftRound × RoundAction :=
  if round.state ≠ .awaitingProposal || !round.isLeader then (round, .none)
  else
    let proposed := { round with blockHash := some hash, state := .preparing }
    (proposed.ensureCollector .prepare hash, .broadcastProposal hash)

def handleProposal (hash : Hash32) (leaderId : String) : BftRound × RoundAction :=
  if round.state ≠ .awaitingProposal || leaderId ≠ round.leaderId then (round, .none)
  else
    let proposed := { round with blockHash := some hash, state := .preparing }
    (proposed.ensureCollector .prepare hash,
      .sendVote (makeVote .prepare hash round.round round.nodeId))

def advancePhase (completedPhase : BftPhase) (qc : QuorumCertificate) (hash : Hash32) :
    BftRound × RoundAction :=
  match completedPhase with
  | .prepare =>
    let advanced := { round with prepareQc := some qc, state := .preCommitting }
    (advanced.ensureCollector .preCommit hash, .phaseComplete .prepare qc)
  | .preCommit =>
    let advanced := { round with precommitQc := some qc, state := .committing }
    (advanced.ensureCollector .commit hash, .phaseComplete .preCommit qc)
  | .commit =>
    ({ round with commitQc := some qc, state := .decided }, .decide hash round.round qc)
  | .decide => (round, .none)

def onVote (listing : Arrangement VoteMessage) (phase : BftPhase) (vote : VoteMessage)
    (hash : Hash32) : BftRound × RoundAction :=
  let ensured := round.ensureCollector phase hash
  match ensured.collector phase with
  | .none => (ensured, .none)
  | some collector =>
    let (collector, result) := collector.addVote listing vote
    let counted := ensured.setCollector collector phase
    match result with
    | .quorumReached qc => counted.advancePhase phase qc hash
    | _ => (counted, .none)

def handleVote (listing : Arrangement VoteMessage) (vote : VoteMessage) :
    BftRound × RoundAction :=
  match round.blockHash with
  | .none => (round, .none)
  | some hash =>
    match round.state with
    | .preparing => round.onVote listing .prepare vote hash
    | .preCommitting => round.onVote listing .preCommit vote hash
    | .committing => round.onVote listing .commit vote hash
    | _ => (round, .none)

def handleTimeout : BftRound × RoundAction :=
  if round.state ≠ .decided && round.state ≠ .failed then
    ({ round with state := .failed }, .none)
  else (round, .none)

def process (listing : Arrangement VoteMessage) : RoundEvent → BftRound × RoundAction
  | .startAsLeader hash => round.handleStartAsLeader hash
  | .proposal hash leaderId => round.handleProposal hash leaderId
  | .vote vote => round.handleVote listing vote
  | .timeout => round.handleTimeout

end BftRound

/-- The actions of a sequence of events, each with the order in which the hash
map lists votes at that time. -/
def run (round : BftRound) :
    List (Arrangement VoteMessage × RoundEvent) → BftRound × List RoundAction
  | [] => (round, [])
  | (listing, event) :: rest =>
    let (round, action) := round.process listing event
    let (round, actions) := run round rest
    (round, action :: actions)

def Certifies (number : UInt64) (validator : QuorumValidator) (phase : BftPhase)
    (hash : Hash32) (qc : QuorumCertificate) : Prop :=
  qc.phase = phase ∧ qc.round = number ∧ qc.blockHash = hash ∧ validator.validateQc qc = .ok ()

namespace VoteCollector

variable (collector : VoteCollector) (listing : Arrangement VoteMessage) (vote : VoteMessage)

theorem listed_certifies (enough : collector.quorumValidator.quorumThreshold ≤
      collector.votes.length) {qc : QuorumCertificate}
    (formed : QuorumCertificate.new collector.phase collector.blockHash collector.round
      (listing.arrange collector.votes) = .ok qc) :
    Certifies collector.round collector.quorumValidator collector.phase collector.blockHash
      qc := by
  obtain ⟨same, _⟩ := (new_ok_iff _ _ _ _ _).mp formed
  subst same
  have reordered := listing.perm collector.votes
  refine ⟨rfl, rfl, rfl, (collector.quorumValidator.validate_qc_iff _).mpr ⟨?_, ?_, ?_⟩⟩
  · exact (reordered.map VoteMessage.voterId).nodup_iff.mpr collector.distinct
  · intro vote member
    exact (collector.admitted vote (reordered.mem_iff.mp member)).2
  · rw [reordered.length_eq]
    exact enough

theorem add_vote_cases :
    (collector.addVote listing vote).1.phase = collector.phase ∧
      (collector.addVote listing vote).1.round = collector.round ∧
      (collector.addVote listing vote).1.blockHash = collector.blockHash ∧
      (collector.addVote listing vote).1.quorumValidator = collector.quorumValidator ∧
      ∀ qc, (collector.addVote listing vote).2 = .quorumReached qc →
        Certifies collector.round collector.quorumValidator collector.phase
          collector.blockHash qc := by
  have refused : ∀ reason qc, VoteResult.rejected reason = .quorumReached qc →
      Certifies collector.round collector.quorumValidator collector.phase
        collector.blockHash qc := by
    intro reason qc same
    cases same
  unfold addVote
  split
  · exact ⟨rfl, rfl, rfl, rfl, refused _⟩
  split
  · exact ⟨rfl, rfl, rfl, rfl, refused _⟩
  split
  · exact ⟨rfl, rfl, rfl, rfl, refused _⟩
  split
  · exact ⟨rfl, rfl, rfl, rfl, refused _⟩
  split
  · exact ⟨rfl, rfl, rfl, rfl, refused _⟩
  split
  · exact ⟨rfl, rfl, rfl, rfl, refused _⟩
  dsimp only
  split
  · rename_i enough
    split
    · rename_i formed
      refine ⟨rfl, rfl, rfl, rfl, ?_⟩
      intro qc same
      cases same
      exact listed_certifies _ listing enough formed
    · exact ⟨rfl, rfl, rfl, rfl, refused _⟩
  · refine ⟨rfl, rfl, rfl, rfl, ?_⟩
    intro qc same
    cases same

end VoteCollector

end CeruleanLedger.ConsensusRound
