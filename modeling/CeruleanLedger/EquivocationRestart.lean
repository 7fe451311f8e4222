import CeruleanLedger.EquivocationDetection
import CeruleanLedger.IterationOrder

/-!
Saving and restoring the equivocation detector: `to_bytes` and `from_bytes` of
`consensus/equivocation.rs`. JSON is any codec that round-trips. The saved state has the proofs
and the penalized, not the proposals seen so far.
-/

namespace CeruleanLedger.EquivocationRestart

open ByteCodec EquivocationDetection IterationOrder EquivocationDetector

structure EquivocationPersistState where
  proofs : List EquivocationProof
  penalized : List String

section Model

variable {Json : Type}

/-- The penalized are listed in the order the hash set yields them. -/
def toBytes (json : Codec EquivocationPersistState Json) (order : Arrangement String)
    (detector : EquivocationDetector) : Json :=
  json.encode ⟨detector.proofs, order.arrange detector.penalized⟩

def receiveAll (detector : EquivocationDetector) (proofs : List EquivocationProof) :
    EquivocationDetector :=
  proofs.foldl (fun detector proof => (detector.receiveProof proof).1) detector

/-- The proofs are received again one by one; then the penalized are added. -/
def restore (state : EquivocationPersistState) : EquivocationDetector :=
  let detector := receiveAll .new state.proofs
  { detector with
    penalized := state.penalized.foldl (fun penalized proposer => penalized.insert proposer)
      detector.penalized }

def fromBytes (json : Codec EquivocationPersistState Json) (data : Json) :
    Option EquivocationDetector :=
  (json.decode data).map restore

end Model

def scan (detector : EquivocationDetector) (proposals : List Proposal) : EquivocationDetector :=
  proposals.foldl (fun detector proposal => (detector.checkProposal proposal).1) detector

/-- Every position seen before a restart is first proposed after it, if at
all, with the block seen before. -/
def Resumed (detector : EquivocationDetector) (after : List Proposal) : Prop :=
  ∀ position hash signature, detector.seen position = some (hash, signature) →
    ∀ first, after.find? (fun proposal => proposal.position = position) = some first →
      first.blockHash = hash

theorem record_seen (detector : EquivocationDetector) (proof : EquivocationProof) :
    (detector.record proof).1.seen = detector.seen := by
  unfold record
  split
  · rfl
  · rfl

/-- Receiving valid proofs again: their keys are known, their proposers may be
penalized and nobody else, and no proposal is seen. -/
theorem receive_all_valid (proofs : List EquivocationProof)
    (valid : ∀ proof ∈ proofs, proof.isValid = true) (detector : EquivocationDetector) :
    (∀ key, key ∈ (receiveAll detector proofs).proofHashes ↔
      key ∈ detector.proofHashes ∨ key ∈ proofs.map EquivocationProof.proofKey) ∧
    (∀ proposer, proposer ∈ (receiveAll detector proofs).penalized →
      proposer ∈ detector.penalized ∨ ∃ proof ∈ proofs, proof.proposer = proposer) ∧
    (receiveAll detector proofs).seen = detector.seen := by
  induction proofs generalizing detector with
  | nil => simp [receiveAll]
  | cons proof rest ih =>
    obtain ⟨head, tail⟩ := List.forall_mem_cons.mp valid
    obtain ⟨hashes, penalized, seen⟩ := ih tail (detector.record proof).1
    have next : receiveAll detector (proof :: rest) =
        receiveAll (detector.record proof).1 rest := by
      simp [receiveAll, receiveProof, head]
    rw [next]
    refine ⟨?_, ?_, ?_⟩
    · intro key
      rw [hashes, mem_hashes_record, List.map_cons, List.mem_cons, or_assoc, eq_comm]
    · intro proposer listed
      rcases penalized proposer listed with earlier | ⟨other, member, same⟩
      · rw [mem_penalized_record] at earlier
        rcases earlier with before | ⟨_, same⟩
        · exact Or.inl before
        · exact Or.inr ⟨proof, List.mem_cons_self, same⟩
      · exact Or.inr ⟨other, List.mem_cons_of_mem _ member, same⟩
    · rw [seen, record_seen]

theorem mem_insert_all (added penalized : List String) (proposer : String) :
    proposer ∈ added.foldl (fun penalized proposer => penalized.insert proposer) penalized ↔
      proposer ∈ penalized ∨ proposer ∈ added := by
  induction added generalizing penalized with
  | nil => simp
  | cons first rest ih =>
    rw [List.foldl_cons, ih, List.mem_insert_iff, List.mem_cons]
    tauto

structure Restored (saved restored : EquivocationDetector) : Prop where
  hashes : ∀ key, key ∈ restored.proofHashes ↔ key ∈ saved.proofHashes
  penalized : ∀ proposer, proposer ∈ restored.penalized ↔ proposer ∈ saved.penalized
  seen : ∀ position, restored.seen position = none

theorem from_to_bytes {Json : Type} (json : Codec EquivocationPersistState Json)
    (order : Arrangement String) {saved : EquivocationDetector} (consistent : Consistent saved)
    (signed : ∀ proof ∈ saved.proofs, proof.isValid = true) :
    ∃ restored, fromBytes json (toBytes json order saved) = some restored ∧
      Restored saved restored := by
  obtain ⟨hashes, penalized, seen⟩ := receive_all_valid saved.proofs signed .new
  refine ⟨_, by rw [fromBytes, toBytes, json.roundTrip]; rfl, ⟨?_, ?_, ?_⟩⟩
  · intro key
    rw [consistent.hashes]
    simpa [restore, new] using hashes key
  · intro proposer
    simp only [restore, mem_insert_all, Arrangement.mem_arrange]
    constructor
    · rintro (received | kept)
      · rcases penalized proposer received with impossible | named
        · cases impossible
        · exact (consistent.blamed proposer).mpr named
      · exact kept
    · exact Or.inr
  · intro position
    exact congrFun seen position

section Lockstep

/-- How the restarted detector follows the other one, with the proposals still
to come: what it has seen agrees, and what it has forgotten will come back
unchanged. -/
structure Follows (kept restarted : EquivocationDetector) (rest : List Proposal) : Prop where
  hashes : ∀ key, key ∈ restarted.proofHashes ↔ key ∈ kept.proofHashes
  penalized : ∀ proposer, proposer ∈ restarted.penalized ↔ proposer ∈ kept.penalized
  seen : ∀ position hash signature, restarted.seen position = some (hash, signature) →
    ∃ original, kept.seen position = some (hash, original)
  forgotten : ∀ position, restarted.seen position = none →
    ∀ hash signature, kept.seen position = some (hash, signature) →
    ∀ first, rest.find? (fun proposal => proposal.position = position) = some first →
      first.blockHash = hash

variable {kept restarted : EquivocationDetector} {proposal : Proposal} {rest : List Proposal}

theorem follows_start (restored : Restored kept restarted) (resumed : Resumed kept rest) :
    Follows kept restarted rest := by
  constructor
  · exact restored.hashes
  · exact restored.penalized
  · intro position hash signature found
    rw [restored.seen] at found
    cases found
  · intro position _
    exact resumed position

theorem remember_seen (detector : EquivocationDetector) (position : ConsensusPosition) :
    (detector.remember proposal).seen position =
      if position = proposal.position then some (proposal.blockHash, proposal.signature)
      else detector.seen position := by
  simp [remember, Function.update_apply]

theorem Follows.elsewhere (follows : Follows kept restarted (proposal :: rest))
    {position : ConsensusPosition} (apart : proposal.position ≠ position)
    (forgotten : restarted.seen position = none) :
    ∀ hash signature, kept.seen position = some (hash, signature) →
      ∀ first, rest.find? (fun proposal => proposal.position = position) = some first →
        first.blockHash = hash := by
  have later := follows.forgotten position forgotten
  rwa [List.find?_cons_of_neg (by simpa using apart)] at later

theorem Follows.seen_again (follows : Follows kept restarted (proposal :: rest))
    {entry : Hash32 × Bytes} (found : restarted.seen proposal.position = some entry)
    (position : ConsensusPosition) (forgotten : restarted.seen position = none) :
    ∀ hash signature, kept.seen position = some (hash, signature) →
      ∀ first, rest.find? (fun proposal => proposal.position = position) = some first →
        first.blockHash = hash := by
  refine follows.elsewhere ?_ forgotten
  intro same
  rw [same, forgotten] at found
  cases found

theorem follows_conflict (follows : Follows kept restarted (proposal :: rest))
    {hash : Hash32} {signature original : Bytes}
    (found : restarted.seen proposal.position = some (hash, signature)) :
    Follows (kept.record (conflict proposal hash original)).1
      (restarted.record (conflict proposal hash signature)).1 rest := by
  have sameKey : (conflict proposal hash signature).proofKey =
      (conflict proposal hash original).proofKey := rfl
  constructor
  · intro key
    rw [mem_hashes_record, mem_hashes_record, follows.hashes, sameKey]
  · intro proposer
    rw [mem_penalized_record, mem_penalized_record, follows.penalized, follows.hashes, sameKey]
    rfl
  · rw [record_seen, record_seen]
    exact follows.seen
  · rw [record_seen, record_seen]
    exact follows.seen_again found

/-- A position that is new after the restart was new before it too, or comes back
with the block seen there: the other detector has it either way, and records
nothing. -/
theorem Follows.first_again (follows : Follows kept restarted (proposal :: rest))
    (unseen : restarted.seen proposal.position = none) :
    ∃ original, (kept.checkProposal proposal).1.seen proposal.position =
        some (proposal.blockHash, original) ∧
      (kept.checkProposal proposal).1.proofHashes = kept.proofHashes ∧
      (kept.checkProposal proposal).1.penalized = kept.penalized ∧
      ∀ position, proposal.position ≠ position →
        (kept.checkProposal proposal).1.seen position = kept.seen position := by
  rcases check_proposal_cases kept proposal with
    ⟨original, keptSeen, same⟩ | ⟨hash, original, keptSeen, differs, _⟩ | ⟨_, alsoFirst⟩
  · rw [same]
    exact ⟨original, keptSeen, rfl, rfl, fun _ _ => rfl⟩
  · -- A conflict would be a forgotten position that comes back changed.
    have back := follows.forgotten proposal.position unseen hash original keptSeen proposal
      (List.find?_cons_of_pos (by simp))
    exact absurd back.symm differs
  · rw [alsoFirst]
    refine ⟨proposal.signature, ?_, rfl, rfl, ?_⟩
    · rw [remember_seen, if_pos rfl]
    · intro position apart
      rw [remember_seen, if_neg (Ne.symm apart)]

theorem follows_step (follows : Follows kept restarted (proposal :: rest)) :
    Follows (kept.checkProposal proposal).1 (restarted.checkProposal proposal).1 rest := by
  rcases check_proposal_cases restarted proposal with
    ⟨signature, found, same⟩ | ⟨hash, signature, found, differs, conflicting⟩ | ⟨unseen, first⟩
  · -- Seen again after the restart: a duplicate on both sides.
    obtain ⟨original, kept'⟩ := follows.seen _ _ _ found
    have duplicate : kept.checkProposal proposal = (kept, none) := by
      simp [checkProposal, kept']
    rw [same, duplicate]
    exact ⟨follows.hashes, follows.penalized, follows.seen, follows.seen_again found⟩
  · -- Seen since the restart with another block: both have that block.
    obtain ⟨original, kept'⟩ := follows.seen _ _ _ found
    have conflict : (kept.checkProposal proposal).1 =
        (kept.record (conflict proposal hash original)).1 := by
      simp [checkProposal, kept', differs]
    rw [conflicting, conflict]
    exact follows_conflict follows found
  · -- First after the restart: new on both sides, or the block seen before.
    obtain ⟨original, keptSeen, keptHashes, keptPenalized, keptElsewhere⟩ :=
      follows.first_again unseen
    rw [first]
    constructor
    · intro key
      rw [keptHashes]
      exact follows.hashes key
    · intro proposer
      rw [keptPenalized]
      exact follows.penalized proposer
    · intro position hash signature found
      rw [remember_seen] at found
      by_cases same : position = proposal.position
      · rw [if_pos same] at found
        cases found
        exact ⟨original, same ▸ keptSeen⟩
      · rw [if_neg same] at found
        rw [keptElsewhere position (Ne.symm same)]
        exact follows.seen position hash signature found
    · intro position forgotten
      rw [remember_seen] at forgotten
      by_cases same : position = proposal.position
      · rw [if_pos same] at forgotten
        cases forgotten
      · rw [if_neg same] at forgotten
        rw [keptElsewhere position (Ne.symm same)]
        exact follows.elsewhere (Ne.symm same) forgotten

theorem follows_scan (follows : Follows kept restarted rest) (proposer : String) :
    proposer ∈ (scan restarted rest).penalized ↔ proposer ∈ (scan kept rest).penalized := by
  induction rest generalizing kept restarted with
  | nil => exact follows.penalized proposer
  | cons proposal rest ih => exact ih (follows_step follows)

end Lockstep

theorem scan_append (detector : EquivocationDetector) (before after : List Proposal) :
    scan detector (before ++ after) = scan (scan detector before) after :=
  List.foldl_append

theorem scan_one (detector : EquivocationDetector) (proposal : Proposal) :
    scan detector [proposal] = (detector.checkProposal proposal).1 := rfl

theorem scan_consistent (proposals : List Proposal) : Consistent (scan .new proposals) := by
  have calls := detector_after_consistent (proposals.map .checkProposal)
  rw [detectorAfter, List.foldl_map] at calls
  exact calls

/-- With signed proofs only, a restart changes no penalty as long as the
proposals seen before come back first. One that comes back changed is punished
without the restart and not with it, if its proposer had no penalty yet and its
pair of hashes no proof. -/
theorem restart_keeps_penalties {Json : Type} (json : Codec EquivocationPersistState Json)
    (order : Arrangement String) (before : List Proposal)
    (signed : ∀ proof ∈ (scan .new before).proofs, proof.isValid = true) :
    ∃ restored, fromBytes json (toBytes json order (scan .new before)) = some restored ∧
      (∀ after, Resumed (scan .new before) after → ∀ proposer,
        (scan restored after).isPenalized proposer =
          (scan .new (before ++ after)).isPenalized proposer) ∧
      ∀ proposal hash signature,
        (scan .new before).seen proposal.position = some (hash, signature) →
        hash ≠ proposal.blockHash →
        (scan .new before).isPenalized proposal.proposer = false →
        (∀ proof ∈ (scan .new before).proofs, ¬ SamePair proof
          (conflict proposal hash signature)) →
        (scan .new (before ++ [proposal])).isPenalized proposal.proposer = true ∧
          (scan restored [proposal]).isPenalized proposal.proposer = false := by
  obtain ⟨restored, read, agrees⟩ := from_to_bytes json order (scan_consistent before) signed
  refine ⟨restored, read, ?_, ?_⟩
  · intro after resumed proposer
    have same := follows_scan (follows_start agrees resumed) proposer
    rw [Bool.eq_iff_iff, is_penalized_iff, is_penalized_iff, same, scan_append]
  · intro proposal hash signature found differs innocent fresh
    have unlisted : proposal.proposer ∉ (scan .new before).penalized := by
      rw [← is_penalized_iff, innocent]
      decide
    have unrecorded : (conflict proposal hash signature).proofKey ∉
        (scan .new before).proofHashes := by
      rw [(scan_consistent before).hashes, List.mem_map]
      rintro ⟨proof, member, same⟩
      exact fresh proof member ((proof_key_eq_iff _ _).mp same)
    constructor
    · rw [is_penalized_iff, scan_append, scan_one]
      rcases check_proposal_cases (scan .new before) proposal with
        ⟨_, again, _⟩ | ⟨other, original, again, _, conflicting⟩ | ⟨unseen, _⟩
      · rw [found] at again
        cases again
        exact absurd rfl differs
      · rw [found] at again
        cases again
        rw [conflicting, mem_penalized_record]
        exact Or.inr ⟨unrecorded, rfl⟩
      · rw [found] at unseen
        cases unseen
    · rw [Bool.eq_false_iff, ne_eq, is_penalized_iff]
      have first : scan restored [proposal] = restored.remember proposal := by
        simp [scan_one, checkProposal, agrees.seen]
      rw [first]
      intro listed
      exact unlisted ((agrees.penalized _).mp listed)

def penalizedAcross (before after : List Proposal) (proposer : String) : Option Bool :=
  (fromBytes .plain (toBytes .plain .asStored (scan .new before))).map fun restored =>
    (scan restored after).isPenalized proposer

theorem sample_resumed : Resumed (scan .new [proposalOf "alice" 1])
    [proposalOf "alice" 1, proposalOf "alice" 2] := by
  intro position hash signature found first isFirst
  change (new.remember (proposalOf "alice" 1)).seen position = _ at found
  rw [remember_seen] at found
  by_cases same : position = (proposalOf "alice" 1).position
  · subst same
    rw [if_pos rfl] at found
    cases found
    rw [List.find?_cons_of_pos (by simp)] at isFirst
    cases isFirst
    rfl
  · rw [if_neg same] at found
    cases found

theorem repeated_block_resumes :
    ∃ restored, fromBytes .plain (toBytes .plain .asStored
        (scan .new [proposalOf "alice" 1])) = some restored ∧
      (scan restored [proposalOf "alice" 1, proposalOf "alice" 2]).isPenalized "alice" =
        (scan .new ([proposalOf "alice" 1] ++
          [proposalOf "alice" 1, proposalOf "alice" 2])).isPenalized "alice" := by
  obtain ⟨restored, read, kept, _⟩ := restart_keeps_penalties .plain .asStored
    [proposalOf "alice" 1] (by decide)
  exact ⟨restored, read, kept _ sample_resumed "alice"⟩

def unsigned (proposal : Proposal) : Proposal := { proposal with signature := [] }

/-- The second block after the restart goes unpunished; and a proof with empty
signatures, which the restart drops, no longer shields another proposer. -/
theorem restart_changes_penalties :
    (scan .new ([proposalOf "alice" 1] ++ [proposalOf "alice" 2])).isPenalized "alice" = true ∧
    penalizedAcross [proposalOf "alice" 1] [proposalOf "alice" 2] "alice" = some false ∧
    (scan .new ([unsigned (proposalOf "mallory" 1), unsigned (proposalOf "mallory" 2)] ++
      [proposalOf "alice" 1, proposalOf "alice" 2])).isPenalized "alice" = false ∧
    penalizedAcross [unsigned (proposalOf "mallory" 1), unsigned (proposalOf "mallory" 2)]
      [proposalOf "alice" 1, proposalOf "alice" 2] "alice" = some true := by
  decide

end CeruleanLedger.EquivocationRestart
