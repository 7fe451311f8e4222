import CeruleanLedger.DedupLog
import CeruleanLedger.EndorsementCheck

/-!
The equivocation detector of `consensus/equivocation.rs`. The map of seen
proposals is only looked up and extended, so it is a function here; the two
hash sets are lists used through membership. A proof is recorded once per
unordered pair of block hashes, whoever signed them: the detector is a
`DedupLog` whose key does not name the proposer it is about.
-/

namespace CeruleanLedger.EquivocationDetection

open ByteCodec EndorsementCheck DedupLog

structure ConsensusPosition where
  height : UInt64
  slot : UInt64
  proposer : String
  deriving DecidableEq

structure EquivocationProof where
  position : ConsensusPosition
  blockHashA : Hash32
  blockHashB : Hash32
  signatureA : Bytes
  signatureB : Bytes
  algorithm : SigningAlgorithm
  deriving DecidableEq

namespace EquivocationProof

/-- No signature is verified, only that there are two. -/
def isValid (proof : EquivocationProof) : Bool :=
  proof.blockHashA != proof.blockHashB && !proof.signatureA.isEmpty && !proof.signatureB.isEmpty

def proofKey (proof : EquivocationProof) : Hash32 × Hash32 :=
  if compareHash proof.blockHashA proof.blockHashB = .lt then
    (proof.blockHashA, proof.blockHashB)
  else (proof.blockHashB, proof.blockHashA)

def proposer (proof : EquivocationProof) : String := proof.position.proposer

end EquivocationProof

structure EquivocationDetector where
  seen : ConsensusPosition → Option (Hash32 × Bytes)
  proofs : List EquivocationProof
  proofHashes : List (Hash32 × Hash32)
  penalized : List String

structure Proposal where
  height : UInt64
  slot : UInt64
  proposer : String
  blockHash : Hash32
  signature : Bytes
  algorithm : SigningAlgorithm
  deriving DecidableEq

def Proposal.position (proposal : Proposal) : ConsensusPosition :=
  ⟨proposal.height, proposal.slot, proposal.proposer⟩

namespace EquivocationDetector

def new : EquivocationDetector := ⟨fun _ => none, [], [], []⟩

/-- The deduplication both entry points end with: whether the proof was new. -/
def record (detector : EquivocationDetector) (proof : EquivocationProof) :
    EquivocationDetector × Bool :=
  if proof.proofKey ∈ detector.proofHashes then (detector, false)
  else
    ({ detector with
      proofHashes := proof.proofKey :: detector.proofHashes
      proofs := detector.proofs ++ [proof]
      penalized := detector.penalized.insert proof.proposer }, true)

def conflict (proposal : Proposal) (existingHash : Hash32) (existingSig : Bytes) :
    EquivocationProof :=
  { position := proposal.position
    blockHashA := existingHash
    blockHashB := proposal.blockHash
    signatureA := existingSig
    signatureB := proposal.signature
    algorithm := proposal.algorithm }

def remember (detector : EquivocationDetector) (proposal : Proposal) : EquivocationDetector :=
  { detector with
    seen := Function.update detector.seen proposal.position
      (some (proposal.blockHash, proposal.signature)) }

/-- The proof is returned whether or not it was recorded. -/
def checkProposal (detector : EquivocationDetector) (proposal : Proposal) :
    EquivocationDetector × Option EquivocationProof :=
  match detector.seen proposal.position with
  | some (existingHash, existingSig) =>
    if existingHash = proposal.blockHash then (detector, none)
    else
      let proof := conflict proposal existingHash existingSig
      ((detector.record proof).1, some proof)
  | none => (detector.remember proposal, none)

def receiveProof (detector : EquivocationDetector) (proof : EquivocationProof) :
    EquivocationDetector × Bool :=
  if !proof.isValid then (detector, false) else detector.record proof

def isPenalized (detector : EquivocationDetector) (proposer : String) : Bool :=
  detector.penalized.contains proposer

def proofCountFor (detector : EquivocationDetector) (proposer : String) : Nat :=
  (detector.proofs.filter fun proof => proof.proposer = proposer).length

end EquivocationDetector

inductive Call where
  | checkProposal (proposal : Proposal)
  | receiveProof (proof : EquivocationProof)
  deriving DecidableEq

def applyCall (detector : EquivocationDetector) : Call → EquivocationDetector
  | .checkProposal proposal => (detector.checkProposal proposal).1
  | .receiveProof proof => (detector.receiveProof proof).1

def detectorAfter (calls : List Call) : EquivocationDetector :=
  calls.foldl applyCall .new

def SamePair (left right : EquivocationProof) : Prop :=
  (left.blockHashA = right.blockHashA ∧ left.blockHashB = right.blockHashB) ∨
    (left.blockHashA = right.blockHashB ∧ left.blockHashB = right.blockHashA)
  deriving Decidable

theorem swapped_key {left right : Hash32} (notLess : compareHash left right ≠ .lt)
    (notMore : compareHash right left ≠ .lt) : left = right := by
  cases ordered : compareHash left right with
  | lt => exact absurd ordered notLess
  | eq => exact Std.LawfulEqCmp.eq_of_compare ordered
  | gt => exact absurd (Std.OrientedCmp.lt_of_gt ordered) notMore

/-- The key forgets the order of the hashes and everything else. -/
theorem proof_key_eq_iff (left right : EquivocationProof) :
    left.proofKey = right.proofKey ↔ SamePair left right := by
  unfold EquivocationProof.proofKey SamePair
  constructor
  · intro same
    split at same <;> split at same <;> simp only [Prod.mk.injEq] at same <;> tauto
  · rintro (⟨first, second⟩ | ⟨first, second⟩)
    · rw [first, second]
    · rw [first, second]
      by_cases less : compareHash right.blockHashA right.blockHashB = .lt
      · have notMore : compareHash right.blockHashB right.blockHashA ≠ .lt := by
          rw [Std.OrientedCmp.gt_of_lt less]
          decide
        rw [if_neg notMore, if_pos less]
      · by_cases more : compareHash right.blockHashB right.blockHashA = .lt
        · rw [if_pos more, if_neg less]
        · rw [if_neg more, if_neg less, swapped_key less more]

section Records

/-- The three structures tell the same story: the hash set holds the keys of
the proofs, and the penalized are the proposers they name. -/
structure Consistent (detector : EquivocationDetector) : Prop where
  hashes : ∀ key, key ∈ detector.proofHashes ↔
    key ∈ detector.proofs.map EquivocationProof.proofKey
  blamed : ∀ proposer, proposer ∈ detector.penalized ↔
    ∃ proof ∈ detector.proofs, proof.proposer = proposer

variable {detector : EquivocationDetector}

theorem record_offers (consistent : Consistent detector) (proof : EquivocationProof) :
    (detector.record proof).1.proofs =
      offer EquivocationProof.proofKey detector.proofs proof := by
  unfold EquivocationDetector.record
  by_cases known : proof.proofKey ∈ detector.proofHashes
  · rw [if_pos known, offer_known ((consistent.hashes _).mp known)]
  · rw [if_neg known, offer_fresh (fun listed => known ((consistent.hashes _).mpr listed))]

theorem mem_hashes_record (proof : EquivocationProof) (key : Hash32 × Hash32) :
    key ∈ (detector.record proof).1.proofHashes ↔
      key ∈ detector.proofHashes ∨ proof.proofKey = key := by
  unfold EquivocationDetector.record
  by_cases known : proof.proofKey ∈ detector.proofHashes
  · rw [if_pos known]
    constructor
    · exact Or.inl
    · rintro (listed | same)
      · exact listed
      · exact same ▸ known
  · rw [if_neg known]
    simp only [List.mem_cons]
    rw [or_comm, eq_comm]

theorem mem_penalized_record (proof : EquivocationProof) (proposer : String) :
    proposer ∈ (detector.record proof).1.penalized ↔
      proposer ∈ detector.penalized ∨
        (proof.proofKey ∉ detector.proofHashes ∧ proof.proposer = proposer) := by
  unfold EquivocationDetector.record
  by_cases known : proof.proofKey ∈ detector.proofHashes
  · rw [if_pos known]
    simp [known]
  · rw [if_neg known]
    simp only [List.mem_insert_iff, known, not_false_eq_true, true_and]
    rw [or_comm, eq_comm]

theorem record_consistent (consistent : Consistent detector) (proof : EquivocationProof) :
    Consistent (detector.record proof).1 := by
  constructor
  · intro key
    rw [mem_hashes_record, record_offers consistent, key_after_offer, consistent.hashes]
  · intro proposer
    rw [mem_penalized_record, record_offers consistent, subject_after_offer,
      consistent.blamed, consistent.hashes]

theorem remember_consistent (consistent : Consistent detector) (proposal : Proposal) :
    Consistent (detector.remember proposal) := ⟨consistent.hashes, consistent.blamed⟩

theorem check_proposal_cases (detector : EquivocationDetector) (proposal : Proposal) :
    (∃ signature, detector.seen proposal.position = some (proposal.blockHash, signature) ∧
      detector.checkProposal proposal = (detector, none)) ∨
    (∃ hash signature, detector.seen proposal.position = some (hash, signature) ∧
      hash ≠ proposal.blockHash ∧
      detector.checkProposal proposal =
        ((detector.record (EquivocationDetector.conflict proposal hash signature)).1,
          some (EquivocationDetector.conflict proposal hash signature))) ∨
    (detector.seen proposal.position = none ∧
      detector.checkProposal proposal = (detector.remember proposal, none)) := by
  unfold EquivocationDetector.checkProposal
  cases found : detector.seen proposal.position with
  | none => exact Or.inr (Or.inr ⟨rfl, rfl⟩)
  | some entry =>
    obtain ⟨hash, signature⟩ := entry
    by_cases same : hash = proposal.blockHash
    · subst same
      exact Or.inl ⟨signature, rfl, if_pos rfl⟩
    · exact Or.inr (Or.inl ⟨hash, signature, rfl, same, if_neg same⟩)

theorem apply_call_consistent (consistent : Consistent detector) (call : Call) :
    Consistent (applyCall detector call) := by
  cases call with
  | receiveProof proof =>
    simp only [applyCall, EquivocationDetector.receiveProof]
    split
    · exact consistent
    · exact record_consistent consistent proof
  | checkProposal proposal =>
    simp only [applyCall]
    rcases check_proposal_cases detector proposal with
      ⟨_, _, same⟩ | ⟨_, _, _, _, conflicting⟩ | ⟨_, first⟩
    · rw [same]
      exact consistent
    · rw [conflicting]
      exact record_consistent consistent _
    · rw [first]
      exact remember_consistent consistent proposal

theorem new_consistent : Consistent .new := by
  constructor
  · intro key
    simp [EquivocationDetector.new]
  · intro proposer
    simp [EquivocationDetector.new]

theorem detector_after_consistent (calls : List Call) : Consistent (detectorAfter calls) := by
  have run : ∀ detector, Consistent detector → Consistent (calls.foldl applyCall detector) := by
    induction calls with
    | nil => exact fun _ consistent => consistent
    | cons call rest ih =>
      intro detector consistent
      exact ih _ (apply_call_consistent consistent call)
  exact run .new new_consistent

theorem is_penalized_iff (proposer : String) :
    detector.isPenalized proposer = true ↔ proposer ∈ detector.penalized :=
  List.contains_iff_mem

theorem proof_count_pos_iff (proposer : String) :
    1 ≤ detector.proofCountFor proposer ↔
      ∃ proof ∈ detector.proofs, proof.proposer = proposer := by
  rw [EquivocationDetector.proofCountFor, Nat.one_le_iff_ne_zero, ← Nat.pos_iff_ne_zero,
    List.length_pos_iff_exists_mem]
  simp

end Records

/-- A detected equivocation is punished exactly when its proposer was punished
before or no recorded proof names the same two hashes. -/
theorem equivocation_punished_iff (calls : List Call) (proposal : Proposal)
    (proof : EquivocationProof)
    (detected : ((detectorAfter calls).checkProposal proposal).2 = some proof) :
    (((detectorAfter calls).checkProposal proposal).1.isPenalized proof.proposer = true ∧
      1 ≤ ((detectorAfter calls).checkProposal proposal).1.proofCountFor proof.proposer) ↔
    (∃ earlier ∈ (detectorAfter calls).proofs, earlier.proposer = proof.proposer) ∨
      ∀ earlier ∈ (detectorAfter calls).proofs, ¬ SamePair earlier proof := by
  have consistent := detector_after_consistent calls
  have next := apply_call_consistent consistent (.checkProposal proposal)
  rw [applyCall] at next
  rw [is_penalized_iff, proof_count_pos_iff, next.blamed, and_self]
  rcases check_proposal_cases (detectorAfter calls) proposal with
    ⟨_, _, same⟩ | ⟨_, _, _, _, conflicting⟩ | ⟨_, first⟩
  · rw [same] at detected
    cases detected
  · rw [conflicting] at detected ⊢
    -- The proof that is reported is the one that was offered to the log.
    cases detected
    rw [record_offers consistent, subject_after_offer, and_iff_left rfl]
    simp only [List.mem_map, not_exists, not_and, proof_key_eq_iff]
  · rw [first] at detected
    cases detected

def sampleHash (tag : UInt8) : Hash32 := Vector.replicate 32 tag

def proposalOf (proposer : String) (tag : UInt8) : Proposal :=
  ⟨7, 7, proposer, sampleHash tag, [tag], .ed25519⟩

def claimOn (proposer : String) : EquivocationProof :=
  ⟨⟨7, 7, proposer⟩, sampleHash 1, sampleHash 2, [1], [2], .ed25519⟩

theorem first_conflict_punished :
    ((detectorAfter [.checkProposal (proposalOf "alice" 1)]).checkProposal
      (proposalOf "alice" 2)).1.isPenalized "alice" = true :=
  ((equivocation_punished_iff [.checkProposal (proposalOf "alice" 1)] (proposalOf "alice" 2)
    (claimOn "alice") (by decide)).mpr (Or.inr (by decide))).1

/-- After any peer's proof about another name with the same two hashes, the
detector reports the equivocation and punishes nobody for it. -/
theorem conflict_unpunished :
    ((detectorAfter [.receiveProof (claimOn "mallory"),
        .checkProposal (proposalOf "alice" 1)]).checkProposal (proposalOf "alice" 2)).2 =
      some (claimOn "alice") ∧
    ((detectorAfter [.receiveProof (claimOn "mallory"),
        .checkProposal (proposalOf "alice" 1)]).checkProposal
          (proposalOf "alice" 2)).1.isPenalized "alice" = false ∧
    ((detectorAfter [.receiveProof (claimOn "mallory"),
        .checkProposal (proposalOf "alice" 1)]).checkProposal
          (proposalOf "alice" 2)).1.proofCountFor "alice" = 0 := by
  decide

end CeruleanLedger.EquivocationDetection
