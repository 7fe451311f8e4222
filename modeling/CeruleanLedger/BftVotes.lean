import CeruleanLedger.ByteCodec

/-!
Votes and quorum certificates of `consensus/bft/types.rs`. A vote signs
`phase_byte || block_hash || round_le`; the phase byte separates the domains.
`QuorumCertificate::new` rejects votes that disagree with the certificate,
but a received certificate is a plain record and need not have passed it.
-/

namespace CeruleanLedger.BftVotes

open ByteCodec

inductive BftPhase where
  | prepare
  | preCommit
  | commit
  | decide
  deriving DecidableEq, Repr

def BftPhase.asByte : BftPhase → UInt8
  | .prepare => 0
  | .preCommit => 1
  | .commit => 2
  | .decide => 3

def BftPhase.debug : BftPhase → String
  | .prepare => "Prepare"
  | .preCommit => "PreCommit"
  | .commit => "Commit"
  | .decide => "Decide"

structure VoteMessage where
  blockHash : Hash32
  round : UInt64
  phase : BftPhase
  voterId : String
  signature : Bytes
  deriving DecidableEq

def signingPayload (phase : BftPhase) (blockHash : Hash32) (round : UInt64) : Bytes :=
  phase.asByte :: (blockHash.toList ++ toLeBytes round)

def VoteMessage.payload (vote : VoteMessage) : Bytes :=
  signingPayload vote.phase vote.blockHash vote.round

structure QuorumCertificate where
  blockHash : Hash32
  round : UInt64
  phase : BftPhase
  votes : List VoteMessage
  deriving DecidableEq

inductive QcError where
  | mismatchedPhase (expected got : BftPhase)
  | mismatchedBlockHash (expected got : Hash32)
  | mismatchedRound (expected got : UInt64)
  | insufficientVotes (needed have_ : Nat)
  | duplicateVoter (voterId : String)
  | unknownVoter (voterId : String)
  | invalidSignature (voterId : String)
  | insufficientValidators (min have_ : Nat)
  deriving DecidableEq

def QcError.display : QcError → String
  | .mismatchedPhase expected got =>
    "vote phase mismatch: expected " ++ expected.debug ++ ", got " ++ got.debug
  | .mismatchedBlockHash expected got =>
    "vote block_hash mismatch: expected " ++ toString expected.toList ++
      ", got " ++ toString got.toList
  | .mismatchedRound expected got =>
    "vote round mismatch: expected " ++ toString expected ++ ", got " ++ toString got
  | .insufficientVotes needed have_ =>
    "insufficient votes: need " ++ toString needed ++ ", have " ++ toString have_
  | .duplicateVoter voterId => "duplicate voter: " ++ voterId
  | .unknownVoter voterId => "unknown voter: " ++ voterId
  | .invalidSignature voterId => "invalid signature from voter: " ++ voterId
  | .insufficientValidators min have_ =>
    "insufficient validators for BFT: need >= " ++ toString min ++ ", have " ++ toString have_

/-- The consistency loop of `QuorumCertificate::new`. -/
def checkVotes (phase : BftPhase) (blockHash : Hash32) (round : UInt64) :
    List VoteMessage → Except QcError Unit
  | [] => .ok ()
  | vote :: rest =>
    if vote.phase ≠ phase then .error (.mismatchedPhase phase vote.phase)
    else if vote.blockHash ≠ blockHash then
      .error (.mismatchedBlockHash blockHash vote.blockHash)
    else if vote.round ≠ round then .error (.mismatchedRound round vote.round)
    else checkVotes phase blockHash round rest

def QuorumCertificate.new (phase : BftPhase) (blockHash : Hash32) (round : UInt64)
    (votes : List VoteMessage) : Except QcError QuorumCertificate :=
  match checkVotes phase blockHash round votes with
  | .error reason => .error reason
  | .ok () => .ok { blockHash, round, phase, votes }

def VoteMessage.Names (vote : VoteMessage) (phase : BftPhase) (blockHash : Hash32)
    (round : UInt64) : Prop :=
  vote.phase = phase ∧ vote.blockHash = blockHash ∧ vote.round = round
  deriving Decidable

theorem payload_of_names {vote : VoteMessage} {phase : BftPhase} {blockHash : Hash32}
    {round : UInt64} (names : vote.Names phase blockHash round) :
    vote.payload = signingPayload phase blockHash round := by
  obtain ⟨samePhase, sameHash, sameRound⟩ := names
  rw [VoteMessage.payload, samePhase, sameHash, sameRound]

theorem check_votes_iff (phase : BftPhase) (blockHash : Hash32) (round : UInt64)
    (votes : List VoteMessage) :
    checkVotes phase blockHash round votes = .ok () ↔
      ∀ vote ∈ votes, vote.Names phase blockHash round := by
  induction votes with
  | nil => simp [checkVotes]
  | cons vote rest ih =>
    simp only [checkVotes, List.forall_mem_cons, VoteMessage.Names]
    by_cases samePhase : vote.phase = phase
    · by_cases sameHash : vote.blockHash = blockHash
      · by_cases sameRound : vote.round = round
        · simpa [samePhase, sameHash, sameRound, VoteMessage.Names] using ih
        · simp [samePhase, sameHash, sameRound]
      · simp [samePhase, sameHash]
    · simp [samePhase]

/-- A certificate built by `new` carries votes for its own phase, block and
round, and keeps the votes it was given. -/
theorem new_ok_iff (phase : BftPhase) (blockHash : Hash32) (round : UInt64)
    (votes : List VoteMessage) (certificate : QuorumCertificate) :
    QuorumCertificate.new phase blockHash round votes = .ok certificate ↔
      certificate = { blockHash, round, phase, votes } ∧
        ∀ vote ∈ votes, vote.Names phase blockHash round := by
  rw [← check_votes_iff]
  unfold QuorumCertificate.new
  cases checked : checkVotes phase blockHash round votes with
  | error reason => simp
  | ok value => simp [eq_comm]

theorem as_byte_injective : Function.Injective BftPhase.asByte := by
  intro left right same
  cases left <;> cases right <;> first | rfl | (exact absurd same (by decide))

/-- Equal signing payloads name the same phase, block and round: no signed
vote can be replayed under other fields. -/
theorem signing_payload_inj {phase phase' : BftPhase} {blockHash blockHash' : Hash32}
    {round round' : UInt64}
    (same : signingPayload phase blockHash round = signingPayload phase' blockHash' round') :
    phase = phase' ∧ blockHash = blockHash' ∧ round = round' := by
  simp only [signingPayload, List.cons.injEq] at same
  obtain ⟨samePhase, sameTail⟩ := same
  obtain ⟨sameHash, sameRound⟩ := List.append_inj sameTail (by simp)
  exact ⟨as_byte_injective samePhase, hash_bytes_injective sameHash,
    to_le_bytes_injective sameRound⟩

end CeruleanLedger.BftVotes
