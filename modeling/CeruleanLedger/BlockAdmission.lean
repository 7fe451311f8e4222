import CeruleanLedger.BlockDag
import CeruleanLedger.BlockStore
import CeruleanLedger.QuorumValidation

/-!
`ConsensusEngine::accept_block` of `consensus/engine.rs` with the slot
scheduler of `consensus/scheduler.rs` and the block checks of
`consensus/validator.rs`. Slot arithmetic wraps as in a release build. The
fork-choice rule is not consulted when a block is accepted and is left out.
-/

namespace CeruleanLedger.BlockAdmission

open ByteCodec BftVotes EndorsementCheck BlockDag BlockStore QuorumValidation

structure SlotScheduler where
  slotDuration : UInt64
  validators : List String
  genesisTime : UInt64

namespace SlotScheduler

def getProposer (scheduler : SlotScheduler) (slotNumber : UInt64) : String :=
  (scheduler.validators[slotNumber.toNat % scheduler.validators.length]?).getD "unknown"

def slotToTimestamps (scheduler : SlotScheduler) (slotNumber : UInt64) : UInt64 × UInt64 :=
  let start := scheduler.genesisTime + slotNumber * scheduler.slotDuration
  (start, start + scheduler.slotDuration)

def validateBlockSlot (scheduler : SlotScheduler) (slotNumber timestamp : UInt64) : Bool :=
  let (start, stop) := scheduler.slotToTimestamps slotNumber
  timestamp ≥ start && timestamp < stop

end SlotScheduler

-- `ValidityResult` is `Ok` for `Valid` and carries the reason otherwise.

def validateFormat (block : DagBlock) : Except String Unit :=
  if block.hash = zeroHash then .error "Block hash cannot be zero"
  else if block.proposer.isEmpty then .error "Proposer cannot be empty"
  else if block.proposer.utf8ByteSize > 256 then .error "Proposer name too long"
  else .ok ()

def validateSignature (block : DagBlock) : Except String Unit :=
  if block.signature.all (· == 0) && block.signature.length == 64 then
    .error "Signature cannot be zero"
  else .ok ()

def validateParent (block : DagBlock) : Except String Unit :=
  if block.isGenesis then
    if block.parentHash ≠ zeroHash then .error "Genesis block must have zero parent" else .ok ()
  else if block.parentHash = zeroHash then .error "Non-genesis block cannot have zero parent"
  else .ok ()

def validateSlot (block : DagBlock) (scheduler : SlotScheduler) : Except String Unit :=
  if !scheduler.validateBlockSlot block.slot block.timestamp then
    .error ("Block timestamp " ++ toString block.timestamp ++ " not within slot " ++
      toString block.slot ++ " bounds")
  else if block.proposer ≠ scheduler.getProposer block.slot then
    .error ("Expected proposer " ++ scheduler.getProposer block.slot ++ " for slot " ++
      toString block.slot ++ ", got " ++ block.proposer)
  else .ok ()

def validate (block : DagBlock) (scheduler : SlotScheduler) : Except String Unit := do
  validateFormat block
  validateSignature block
  validateParent block
  validateSlot block scheduler

inductive ConsensusError where
  | invalidBlock (reason : String)
  | dagError (reason : String)
  | storePersist (reason : String)
  | endorsementError (reason : String)
  | bftError (reason : String)
  deriving DecidableEq

structure ConsensusEngine where
  dag : Dag
  scheduler : SlotScheduler
  store : Option Store
  policyStore : Option PolicyStore
  orgRegistry : Option OrgRegistry
  bftQuorumValidator : Option QuorumValidator

/-- What a call sees besides the engine: the environment flag, the Ed25519
primitives and whether the database write fails. -/
structure Surroundings where
  pqcRequired : Bool
  ed25519 : Ed25519
  fault : Option String

namespace ConsensusEngine

def new (slotDurationMs : UInt64) (validators : List String) (genesisTime : UInt64) :
    ConsensusEngine :=
  { dag := Dag.new
    scheduler := ⟨slotDurationMs / 1000, validators, genesisTime⟩
    store := none, policyStore := none, orgRegistry := none, bftQuorumValidator := none }

def withStore (engine : ConsensusEngine) (store : Store) : ConsensusEngine :=
  { engine with store := some store }

def withBft (engine : ConsensusEngine) (validators : List String)
    (verifier : SignatureVerifier) : ConsensusEngine :=
  { engine with bftQuorumValidator := some (QuorumValidator.new validators verifier) }

def checkCommitQc (validator : QuorumValidator) (block : DagBlock) :
    Except ConsensusError Unit :=
  match block.commitQc with
  | none => .error (.bftError "missing commit QC")
  | some certificate =>
    if certificate.phase ≠ .commit then
      .error (.bftError ("expected Commit QC, got " ++ certificate.phase.debug))
    else if certificate.blockHash ≠ block.hash then
      .error (.bftError "QC block_hash does not match block hash")
    else match validator.validateQc certificate with
      | .error reason => .error (.bftError reason.display)
      | .ok () => .ok ()

def checkBft (engine : ConsensusEngine) (block : DagBlock) : Except ConsensusError Unit :=
  match engine.bftQuorumValidator with
  | none => .ok ()
  | some validator => if block.isGenesis then .ok () else checkCommitQc validator block

/-- The endorsement list of a `DagBlock` is always empty here. -/
def checkEndorsements (engine : ConsensusEngine) (surroundings : Surroundings) :
    Except ConsensusError Unit :=
  match engine.policyStore, engine.orgRegistry with
  | some policies, some registry =>
    match policies["block"]? with
    | none => .ok ()
    | some policy =>
      match validateEndorsements surroundings.ed25519 surroundings.pqcRequired [] policy
          registry none with
      | .error reason => .error (.endorsementError reason.display)
      | .ok () => .ok ()
  | _, _ => .ok ()

/-- Everything `accept_block` checks before it touches the DAG. -/
def admission (engine : ConsensusEngine) (surroundings : Surroundings) (block : DagBlock) :
    Except ConsensusError Unit := do
  (validate block engine.scheduler).mapError .invalidBlock
  (validateSignatureConsistency block.signatureAlgorithm block.signature
    "block signature").mapError .invalidBlock
  (enforcePqc surroundings.pqcRequired block.signatureAlgorithm
    "block signature").mapError .invalidBlock
  engine.checkBft block
  engine.checkEndorsements surroundings

def storageBlock (block : DagBlock) : Block :=
  { height := block.height
    timestamp := block.timestamp
    parentHash := block.parentHash
    merkleRoot := block.hash
    transactions := block.transactions.map fun tx => hexEncode tx.toList
    proposer := block.proposer
    signature := block.signature
    signatureAlgorithm := block.signatureAlgorithm
    endorsements := []
    secondarySignature := block.secondarySignature
    secondarySignatureAlgorithm := block.secondarySignatureAlgorithm
    hashAlgorithm := .sha256
    ordererSignature := none }

/-- The DAG insertion stands when the store write after it fails. -/
def acceptBlock (engine : ConsensusEngine) (surroundings : Surroundings) (block : DagBlock) :
    ConsensusEngine × Except ConsensusError Hash32 :=
  match engine.admission surroundings block with
  | .error reason => (engine, .error reason)
  | .ok () =>
    match engine.dag.addBlock block with
    | .error reason => (engine, .error (.dagError reason))
    | .ok dag =>
      match engine.store with
      | none => ({ engine with dag }, .ok block.hash)
      | some store =>
        match store.writeBlock surroundings.fault (storageBlock block) with
        | .error reason => ({ engine with dag }, .error (.storePersist reason.display))
        | .ok store => ({ engine with dag, store := some store }, .ok block.hash)

theorem check_commit_qc_iff (validator : QuorumValidator) (block : DagBlock) :
    checkCommitQc validator block = .ok () ↔
      ∃ certificate, block.commitQc = some certificate ∧ certificate.phase = .commit ∧
        certificate.blockHash = block.hash ∧ validator.validateQc certificate = .ok () := by
  unfold checkCommitQc
  cases carried : block.commitQc with
  | none => simp
  | some certificate =>
    by_cases phase : certificate.phase = .commit
    · by_cases hash : certificate.blockHash = block.hash
      · cases checked : validator.validateQc certificate with
        | error reason => simp [phase, hash, checked]
        | ok value => simp [phase, hash, checked]
      · simp [phase, hash]
    · simp [phase]

theorem then_ok {Reason : Type} {first second : Except Reason Unit}
    (passed : (do first; second) = .ok ()) : first = .ok () ∧ second = .ok () := by
  cases first with
  | error reason => cases passed
  | ok value => exact ⟨rfl, passed⟩

theorem accept_block_cases (engine : ConsensusEngine) (surroundings : Surroundings)
    (block : DagBlock) :
    (engine.acceptBlock surroundings block).1.bftQuorumValidator =
        engine.bftQuorumValidator ∧
      ∀ hash, (engine.acceptBlock surroundings block).2 = .ok hash →
        hash = block.hash ∧ engine.admission surroundings block = .ok () := by
  unfold acceptBlock
  cases admitted : engine.admission surroundings block with
  | error reason => simp
  | ok value =>
    cases added : engine.dag.addBlock block with
    | error reason => simp
    | ok dag =>
      cases attached : engine.store with
      | none => simp [eq_comm]
      | some store =>
        cases written : store.writeBlock surroundings.fault (storageBlock block) with
        | error reason => simp [written]
        | ok store => simp [written, eq_comm]

end ConsensusEngine

structure Acceptance where
  block : DagBlock
  answer : Except ConsensusError Hash32
  deriving DecidableEq

def acceptAll (engine : ConsensusEngine) :
    List (Surroundings × DagBlock) → ConsensusEngine × List Acceptance
  | [] => (engine, [])
  | (surroundings, block) :: rest =>
    let (engine, answer) := engine.acceptBlock surroundings block
    let (engine, answers) := acceptAll engine rest
    (engine, ⟨block, answer⟩ :: answers)

/-- A quorum of known validators whose signatures in the block's certificate
verify over this block's own commit payload. -/
def Certified (validator : QuorumValidator) (block : DagBlock) : Prop :=
  ∃ certificate, block.commitQc = some certificate ∧ ∃ voters ⊆ validator.validators,
    validator.quorumThreshold ≤ voters.card ∧ ∀ voter ∈ voters,
      ∃ vote ∈ certificate.votes, vote.voterId = voter ∧ validator.verifier voter
        (signingPayload .commit block.hash certificate.round) vote.signature = true

def namingVotes (block : DagBlock) (certificate : QuorumCertificate) : List VoteMessage :=
  certificate.votes.filter fun vote => vote.Names .commit block.hash certificate.round

/-- Enough votes of the certificate name the commit of the block itself. -/
def QuorumNames (validator : QuorumValidator) (block : DagBlock) : Prop :=
  ∃ certificate, block.commitQc = some certificate ∧
    validator.quorumThreshold ≤ (namingVotes block certificate).length

/-- A signature verifies over at most one payload. -/
def SinglePayload (verifier : SignatureVerifier) : Prop :=
  ∀ voter signature first second, verifier voter first signature = true →
    verifier voter second signature = true → first = second

section Certificates

variable {validator : QuorumValidator} {block : DagBlock} {certificate : QuorumCertificate}

theorem certified_of_names (carried : block.commitQc = some certificate)
    (accepted : validator.validateQc certificate = .ok ())
    (enough : validator.quorumThreshold ≤ (namingVotes block certificate).length) :
    Certified validator block := by
  obtain ⟨distinct, admitted, _⟩ := (validator.validate_qc_iff certificate).mp accepted
  let naming := namingVotes block certificate
  have sub : naming.Sublist certificate.votes := List.filter_sublist
  have namingDistinct : (naming.map VoteMessage.voterId).Nodup := distinct.sublist (sub.map _)
  refine ⟨certificate, carried, (naming.map VoteMessage.voterId).toFinset, ?_, ?_, ?_⟩
  · intro voter member
    obtain ⟨vote, inside, same⟩ := List.mem_map.mp (List.mem_toFinset.mp member)
    exact same ▸ (admitted vote (sub.subset inside)).1
  · rw [List.toFinset_card_of_nodup namingDistinct, List.length_map]
    exact enough
  · intro voter member
    obtain ⟨vote, inside, same⟩ := List.mem_map.mp (List.mem_toFinset.mp member)
    have names : vote.Names .commit block.hash certificate.round := by
      simpa using (List.mem_filter.mp inside).2
    refine ⟨vote, sub.subset inside, same, ?_⟩
    rw [← payload_of_names names, ← same]
    exact (admitted vote (sub.subset inside)).2

/-- Where a signature fixes its payload, a vote that verifies over the block's
payload must have named the block. -/
theorem names_of_certified (single : SinglePayload validator.verifier)
    (carried : block.commitQc = some certificate)
    (accepted : validator.validateQc certificate = .ok ())
    (certified : Certified validator block) :
    validator.quorumThreshold ≤ (namingVotes block certificate).length := by
  obtain ⟨_, admitted, _⟩ := (validator.validate_qc_iff certificate).mp accepted
  obtain ⟨other, present, voters, _, enough, signed⟩ := certified
  have same : other = certificate := Option.some.inj (present.symm.trans carried)
  subst same
  have covered : voters ⊆ ((namingVotes block other).map VoteMessage.voterId).toFinset := by
    intro voter member
    obtain ⟨vote, inside, sameVoter, verified⟩ := signed voter member
    subst sameVoter
    have payload := single _ _ _ _ (admitted vote inside).2 verified
    have names : vote.Names .commit block.hash other.round := signing_payload_inj payload
    apply List.mem_toFinset.mpr
    exact List.mem_map.mpr ⟨vote, List.mem_filter.mpr ⟨inside, by simpa using names⟩, rfl⟩
  calc validator.quorumThreshold ≤ voters.card := enough
    _ ≤ ((namingVotes block other).map VoteMessage.voterId).toFinset.card :=
        Finset.card_le_card covered
    _ ≤ ((namingVotes block other).map VoteMessage.voterId).length := List.toFinset_card_le _
    _ = (namingVotes block other).length := List.length_map _

end Certificates

theorem accept_all_checked (engine : ConsensusEngine) (validator : QuorumValidator)
    (enabled : engine.bftQuorumValidator = some validator)
    (calls : List (Surroundings × DagBlock)) (entry : Acceptance) (hash : Hash32)
    (member : entry ∈ (acceptAll engine calls).2) (accepted : entry.answer = .ok hash)
    (child : entry.block.isGenesis = false) :
    ConsensusEngine.checkCommitQc validator entry.block = .ok () := by
  induction calls generalizing engine with
  | nil => simp [acceptAll] at member
  | cons call rest ih =>
    obtain ⟨surroundings, block⟩ := call
    obtain ⟨kept, passed⟩ := engine.accept_block_cases surroundings block
    simp only [acceptAll, List.mem_cons] at member
    rcases member with first | later
    · subst first
      obtain ⟨_, consistency⟩ := ConsensusEngine.then_ok (passed hash accepted).2
      obtain ⟨_, policy⟩ := ConsensusEngine.then_ok consistency
      obtain ⟨_, certificates⟩ := ConsensusEngine.then_ok policy
      have checked := (ConsensusEngine.then_ok certificates).1
      simpa [ConsensusEngine.checkBft, enabled, child] using checked
    · exact ih _ (kept.trans enabled) later

/-- An accepted block is certified when enough votes of its certificate name
it, and only then if a signature fixes its payload. -/
theorem accepted_certified_iff (engine : ConsensusEngine) (validator : QuorumValidator)
    (enabled : engine.bftQuorumValidator = some validator)
    (calls : List (Surroundings × DagBlock)) (entry : Acceptance) (hash : Hash32)
    (member : entry ∈ (acceptAll engine calls).2) (accepted : entry.answer = .ok hash)
    (child : entry.block.isGenesis = false) :
    (QuorumNames validator entry.block → Certified validator entry.block) ∧
      (SinglePayload validator.verifier →
        Certified validator entry.block → QuorumNames validator entry.block) := by
  have checked := accept_all_checked engine validator enabled calls entry hash member accepted
    child
  obtain ⟨certificate, carried, _, _, valid⟩ :=
    (ConsensusEngine.check_commit_qc_iff validator entry.block).mp checked
  constructor
  · rintro ⟨other, present, enough⟩
    have same : other = certificate := Option.some.inj (present.symm.trans carried)
    exact certified_of_names carried valid (same ▸ enough)
  · intro single certified
    exact ⟨certificate, carried, names_of_certified single carried valid certified⟩

def sampleBlock (hash parentHash : Hash32) (commitQc : Option QuorumCertificate) : DagBlock :=
  { hash, parentHash, height := 0, slot := 0, timestamp := 0, proposer := "v1"
    signature := List.replicate 64 1, signatureAlgorithm := .ed25519
    secondarySignature := none, secondarySignatureAlgorithm := none
    transactions := [], commitQc }

def calm : Surroundings := ⟨false, ⟨fun _ => true, fun _ _ _ => true⟩, none⟩

def fourVoters : List String := ["v1", "v2", "v3", "v4"]

def engineSigned (signed : Hash32) : ConsensusEngine :=
  (ConsensusEngine.new 6000 ["v1"] 0).withBft fourVoters (choiceVerifier ∅ fun _ => signed)

def offers (voted : Hash32) : List (Surroundings × DagBlock) :=
  [(calm, sampleBlock firstHash zeroHash none),
    (calm, sampleBlock secondHash firstHash
      (some (ballot .commit 0 secondHash voted ["v1", "v2", "v3"])))]

def childOffer (voted : Hash32) : Acceptance :=
  ⟨sampleBlock secondHash firstHash
    (some (ballot .commit 0 secondHash voted ["v1", "v2", "v3"])), .ok secondHash⟩

theorem certified_child_offer :
    Certified (QuorumValidator.new fourVoters (choiceVerifier ∅ fun _ => secondHash))
      (childOffer secondHash).block :=
  (accepted_certified_iff (engineSigned secondHash) _ rfl (offers secondHash)
    (childOffer secondHash) secondHash (by decide) rfl (by decide)).1
    ⟨_, rfl, by decide⟩

/-- Three signatures on the genesis commit pass as a certificate for the next
block, although nobody signed that block. -/
theorem foreign_votes_accepted :
    ∃ (engine : ConsensusEngine) (validator : QuorumValidator)
      (calls : List (Surroundings × DagBlock)) (entry : Acceptance) (hash : Hash32),
      engine.bftQuorumValidator = some validator ∧ entry ∈ (acceptAll engine calls).2 ∧
      entry.answer = .ok hash ∧ entry.block.isGenesis = false ∧
      ¬ Certified validator entry.block := by
  refine ⟨engineSigned firstHash, _, offers firstHash, childOffer firstHash, secondHash, rfl,
    by decide, rfl, by decide, ?_⟩
  rintro ⟨certificate, carried, voters, _, enough, signed⟩
  obtain ⟨voter, member⟩ : voters.Nonempty := by
    apply Finset.card_pos.mp
    exact lt_of_lt_of_le (by decide) enough
  obtain ⟨vote, _, _, verified⟩ := signed voter member
  have payload : signingPayload .commit secondHash certificate.round =
      signingPayload .commit firstHash 0 := by
    simpa [QuorumValidator.new, choiceVerifier, childOffer, sampleBlock] using verified
  exact hashes_differ (signing_payload_inj payload).2.1.symm

end CeruleanLedger.BlockAdmission
