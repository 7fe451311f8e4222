import CeruleanLedger.BlockAdmission
import CeruleanLedger.RoundManagement

/-!
Agreement between round managers. The certificate of a decision comes from a vote collector, so
its votes are for its own phase, block and round; a received certificate need not have this.
-/

namespace CeruleanLedger.RoundAgreement

open ByteCodec BftVotes QuorumValidation IterationOrder ConsensusRound RoundSafety RoundManagement
open GuardedRun BlockAdmission BlockDag

def Named (qc : QuorumCertificate) : Prop :=
  ∀ vote ∈ qc.votes, vote.Names qc.phase qc.blockHash qc.round

theorem reached_named {collector : VoteCollector} {listing : Arrangement VoteMessage}
    {vote : VoteMessage} {qc : QuorumCertificate}
    (reached : (collector.addVote listing vote).2 = .quorumReached qc) : Named qc := by
  unfold VoteCollector.addVote at reached
  grind [new_ok_iff, Named]

theorem decide_named {round : BftRound} {listing : Arrangement VoteMessage} {event : RoundEvent}
    {hash : Hash32} {number : UInt64} {qc : QuorumCertificate}
    (decided : (round.process listing event).2 = .decide hash number qc) : Named qc := by
  cases event with
  | vote vote =>
    simp only [BftRound.process, BftRound.handleVote, BftRound.onVote] at decided
    grind [reached_named, BftRound.advancePhase]
  | _ =>
    grind [BftRound.process, BftRound.handleStartAsLeader, BftRound.handleProposal,
      BftRound.handleTimeout]

/-- A certificate that a round may decide on. -/
def Decisive (validator : QuorumValidator) (qc : QuorumCertificate) : Prop :=
  Named qc ∧ qc.phase = .commit ∧ validator.validateQc qc = .ok ()

theorem perform_decisive {manager : RoundManager} (running : Running manager)
    (operation : Operation) :
    (perform manager operation).1.validators = manager.validators ∧
      (perform manager operation).1.verifier = manager.verifier ∧
      ∀ qc ∈ decidedQc (perform manager operation).2,
        Decisive (.new manager.validators manager.verifier) qc := by
  cases operation with
  | processEvent listing event =>
    cases current : manager.current with
    | none => simp [perform, process_event_idle manager current, decidedQc]
    | some round =>
      have climbs := (process_steps (running round current) listing event).2
      rw [perform, process_event_active manager current]
      cases action : (round.process listing event).2 with
      | decide hash number certificate =>
        refine ⟨rfl, rfl, ?_⟩
        rintro qc ⟨⟩
        rw [action] at climbs
        generalize ladderOf (round.process listing event).1 = last at climbs
        cases climbs with
        | proposes hash action quiet => cases quiet
        | commits hash qc committing proposed certifies =>
          exact ⟨decide_named action, certifies.1, certifies.2.2.2⟩
      | _ => exact ⟨rfl, rfl, by rintro qc ⟨⟩⟩
  | _ => exact ⟨rfl, rfl, by rintro qc ⟨⟩⟩

section Agreement

variable (validators : List String) (verifier : SignatureVerifier)

def AllDecisive (state : Deciding) : Prop :=
  Running state.manager ∧ state.manager.validators = validators ∧
    state.manager.verifier = verifier ∧ ∀ qc ∈ state.decided, Decisive (.new validators verifier) qc

theorem decisive_step (state : Deciding) (operation : Operation)
    (holds : AllDecisive validators verifier state) :
    AllDecisive validators verifier (state.step operation) := by
  obtain ⟨running, rfl, rfl, decided⟩ := holds
  obtain ⟨members, checks, decisive⟩ := perform_decisive running operation
  refine ⟨(perform_running running operation).1, members, checks, ?_⟩
  intro qc member
  rcases List.mem_append.mp member with old | new
  · exact decided qc old
  · exact decisive qc (Option.mem_toList.mp new)

/-- The certificates that a manager has decided on, whatever it was called with. -/
def decidedBy (nodeId : String) (config : RoundManagerConfig) (operations : List Operation) :
    List QuorumCertificate :=
  (operations.foldl Deciding.step (.new nodeId validators verifier config)).decided

variable {nodeId : String} {config : RoundManagerConfig} {operations : List Operation}

theorem decided_decisive {qc : QuorumCertificate}
    (member : qc ∈ decidedBy validators verifier nodeId config operations) :
    Decisive (.new validators verifier) qc := by
  have fresh : AllDecisive validators verifier (.new nodeId validators verifier config) := by
    refine ⟨?_, rfl, rfl, ?_⟩ <;> (intro _ none; cases none)
  exact (run_keeps _ _ operations fresh (decisive_step validators verifier)).2.2.2 qc member

/-- With 3f + 1 validators, at most f of them faulty, no two managers decide on different blocks
in one round, whatever they are called with and however often they start it again. -/
theorem decisions_agree (whole : validators.toFinset.card % 3 = 1)
    (signed : String → Bytes → Prop) (faulty : Finset String)
    (known : faulty ⊆ validators.toFinset)
    (few : faulty.card ≤ (QuorumValidator.new validators verifier).maxFaulty)
    (unforged : Unforged verifier faulty signed)
    (once : SignsOnce validators.toFinset faulty signed)
    (left right : String) (leftConfig rightConfig : RoundManagerConfig)
    (leftCalls rightCalls : List Operation) :
    ∀ qc ∈ decidedBy validators verifier left leftConfig leftCalls,
      ∀ qc' ∈ decidedBy validators verifier right rightConfig rightCalls,
        qc.round = qc'.round → qc.blockHash = qc'.blockHash := by
  intro qc member qc' member' sameRound
  obtain ⟨named, phase, valid⟩ := decided_decisive validators verifier member
  obtain ⟨named', phase', valid'⟩ := decided_decisive validators verifier member'
  have votes : VotesAt .commit qc.round qc := fun vote cast =>
    ⟨(named vote cast).1.trans phase, (named vote cast).2.2⟩
  have votes' : VotesAt .commit qc.round qc' := fun vote cast =>
    ⟨(named' vote cast).1.trans phase', (named' vote cast).2.2.trans sameRound.symm⟩
  exact agreement_of_overlap validators.toFinset (by omega) whole verifier signed faulty .commit
    qc.round qc qc' known few unforged once valid valid' votes votes'
    (fun vote cast => (named vote cast).2.1) fun vote cast => (named' vote cast).2.1

/-- To a block with the certificate of its decision, the BFT check makes no difference. -/
theorem decided_block_passes (engine : ConsensusEngine) (surroundings : Surroundings)
    (block : DagBlock) (plain : engine.bftQuorumValidator = none)
    (decided : ∃ qc ∈ decidedBy validators verifier nodeId config operations,
      qc.blockHash = block.hash ∧ block.commitQc = some qc) :
    (engine.withBft validators verifier).admission surroundings block =
      engine.admission surroundings block := by
  obtain ⟨qc, member, hash, carried⟩ := decided
  obtain ⟨-, phase, valid⟩ := decided_decisive validators verifier member
  have certified := (ConsensusEngine.check_commit_qc_iff (.new validators verifier) block).mpr
    ⟨qc, carried, phase, hash, valid⟩
  have passes : (engine.withBft validators verifier).checkBft block = engine.checkBft block := by
    simp [ConsensusEngine.checkBft, ConsensusEngine.withBft, plain, certified]
  unfold ConsensusEngine.admission
  rw [passes]
  rfl

end Agreement

/-- Everyone signs one block in round 1. -/
def SignsFirst (_ : String) (payload : Bytes) : Prop :=
  ∃ phase ∈ [BftPhase.prepare, .preCommit, .commit], payload = signingPayload phase firstHash 1
  deriving Decidable

theorem signs_first_once (validators faulty : Finset String) :
    SignsOnce validators faulty SignsFirst := by
  rintro _ _ _ _ _ _ _ ⟨_, _, signed⟩ ⟨_, _, again⟩
  exact (signing_payload_inj signed).2.1.trans (signing_payload_inj again).2.1.symm

def firstSigned : SignatureVerifier := fun voter payload _ => decide (SignsFirst voter payload)

def decidedFirst : List QuorumCertificate :=
  decidedBy fourNodes firstSigned "v1" .default (roundOf 1 firstHash)

theorem round_retried_agrees :
    decidedFirst.length = 1 ∧ ∀ qc ∈ decidedFirst,
      ∀ qc' ∈ decidedBy fourNodes firstSigned "v2" .default
        (roundOf 1 secondHash ++ .onTimeout :: roundOf 1 firstHash),
        qc.round = qc'.round → qc.blockHash = qc'.blockHash :=
  ⟨by decide +kernel, decisions_agree fourNodes firstSigned (by decide) SignsFirst ∅ (by simp)
    (by simp) (fun _ _ _ _ => of_decide_eq_true) (signs_first_once _ _) _ _ _ _ _ _⟩

theorem decided_sample_passes :
    decidedFirst.length = 1 ∧ ∀ qc ∈ decidedFirst,
      let block := sampleBlock qc.blockHash secondHash (some qc)
      ((ConsensusEngine.new 6000 ["v1"] 0).withBft fourNodes firstSigned).admission calm block =
        (ConsensusEngine.new 6000 ["v1"] 0).admission calm block :=
  ⟨by decide +kernel, fun qc member => decided_block_passes _ _ _ calm _ rfl
    ⟨qc, member, rfl, rfl⟩⟩

end CeruleanLedger.RoundAgreement
