import CeruleanLedger.BftVotes
import CeruleanLedger.QuorumCounting

/-!
`QuorumValidator` of `consensus/bft/quorum.rs`. The validator set is the
deduplicated `HashSet`; the signature verifier is the trait object, so it is
an arbitrary predicate here. Agreement is stated against a record of what
each validator signed: the verifier is trusted only for honest voters.
-/

namespace CeruleanLedger.QuorumValidation

open ByteCodec BftVotes QuorumCounting

abbrev SignatureVerifier := String → Bytes → Bytes → Bool

structure QuorumValidator where
  validators : Finset String
  verifier : SignatureVerifier

def QuorumValidator.new (validators : List String) (verifier : SignatureVerifier) :
    QuorumValidator :=
  { validators := validators.toFinset, verifier }

namespace QuorumValidator

variable (validator : QuorumValidator)

def maxFaulty : Nat :=
  if validator.validators.card = 0 then 0 else (validator.validators.card - 1) / 3

def quorumThreshold : Nat :=
  if validator.validators = ∅ then 0 else 2 * validator.maxFaulty + 1

def validateVote (vote : VoteMessage) : Except QcError Unit :=
  if vote.voterId ∉ validator.validators then .error (.unknownVoter vote.voterId)
  else if !validator.verifier vote.voterId vote.payload vote.signature then
    .error (.invalidSignature vote.voterId)
  else .ok ()

/-- The vote loop of `validate_qc`; `seen` is the `HashSet` of voters. -/
def validateVotes : List VoteMessage → Finset String → Except QcError (Finset String)
  | [], seen => .ok seen
  | vote :: rest, seen =>
    if vote.voterId ∈ seen then .error (.duplicateVoter vote.voterId)
    else match validator.validateVote vote with
      | .error reason => .error reason
      | .ok () => validateVotes rest (insert vote.voterId seen)

def validateQc (certificate : QuorumCertificate) : Except QcError Unit :=
  match validator.validateVotes certificate.votes ∅ with
  | .error reason => .error reason
  | .ok seen =>
    if seen.card < validator.quorumThreshold then
      .error (.insufficientVotes validator.quorumThreshold seen.card)
    else .ok ()

/-- What `validate_vote` checks: a known voter and a signature the verifier
accepts over the vote's own fields. -/
def Admits (vote : VoteMessage) : Prop :=
  vote.voterId ∈ validator.validators ∧
    validator.verifier vote.voterId vote.payload vote.signature = true

theorem validate_vote_iff (vote : VoteMessage) :
    validator.validateVote vote = .ok () ↔ validator.Admits vote := by
  unfold validateVote Admits
  by_cases known : vote.voterId ∈ validator.validators
  · by_cases signed : validator.verifier vote.voterId vote.payload vote.signature = true
    · simp [known, signed]
    · simp [known, signed]
  · simp [known]

theorem validate_votes_iff (votes : List VoteMessage) (seen result : Finset String) :
    validator.validateVotes votes seen = .ok result ↔
      (votes.map VoteMessage.voterId).Nodup ∧
      (∀ vote ∈ votes, vote.voterId ∉ seen ∧ validator.Admits vote) ∧
      result = seen ∪ (votes.map VoteMessage.voterId).toFinset := by
  induction votes generalizing seen with
  | nil => simp [validateVotes, eq_comm]
  | cons vote rest ih =>
    simp only [validateVotes]
    by_cases repeated : vote.voterId ∈ seen
    · simp [repeated]
    · by_cases admitted : validator.Admits vote
      · -- The head is accepted, so the tail runs with one more seen voter.
        rw [if_neg repeated, (validator.validate_vote_iff vote).mpr admitted]
        simp only [ih, List.map_cons, List.nodup_cons, List.toFinset_cons,
          List.forall_mem_cons, Finset.mem_insert, not_or]
        have union : insert vote.voterId seen ∪ (rest.map VoteMessage.voterId).toFinset =
            seen ∪ insert vote.voterId (rest.map VoteMessage.voterId).toFinset := by
          rw [Finset.insert_union, Finset.union_insert]
        rw [union]
        constructor
        · rintro ⟨distinct, tail, same⟩
          refine ⟨⟨?_, distinct⟩, ⟨⟨repeated, admitted⟩, ?_⟩, same⟩
          · intro member
            obtain ⟨other, inside, sameVoter⟩ := List.mem_map.mp member
            exact (tail other inside).1.1 sameVoter
          · intro other inside
            exact ⟨(tail other inside).1.2, (tail other inside).2⟩
        · rintro ⟨⟨fresh, distinct⟩, ⟨_, tail⟩, same⟩
          refine ⟨distinct, ?_, same⟩
          intro other inside
          refine ⟨⟨?_, (tail other inside).1⟩, (tail other inside).2⟩
          intro sameVoter
          exact fresh (List.mem_map.mpr ⟨other, inside, sameVoter⟩)
      · rw [if_neg repeated]
        cases checked : validator.validateVote vote with
        | error reason => simp [admitted]
        | ok value => exact absurd ((validator.validate_vote_iff vote).mp checked) admitted

/-- Acceptance of a certificate: distinct voters, each admitted, and enough
of them. No clause relates a vote to the certificate's own fields. -/
theorem validate_qc_iff (certificate : QuorumCertificate) :
    validator.validateQc certificate = .ok () ↔
      (certificate.votes.map VoteMessage.voterId).Nodup ∧
      (∀ vote ∈ certificate.votes, validator.Admits vote) ∧
      validator.quorumThreshold ≤ certificate.votes.length := by
  have size : (certificate.votes.map VoteMessage.voterId).Nodup →
      (certificate.votes.map VoteMessage.voterId).toFinset.card =
        certificate.votes.length := by
    intro distinct
    rw [List.toFinset_card_of_nodup distinct, List.length_map]
  unfold validateQc
  cases checked : validator.validateVotes certificate.votes ∅ with
  | error reason =>
    simp only [reduceCtorEq, false_iff]
    rintro ⟨distinct, admitted, _⟩
    have accepted := (validator.validate_votes_iff certificate.votes ∅ _).mpr
      ⟨distinct, fun vote inside => ⟨by simp, admitted vote inside⟩, rfl⟩
    rw [checked] at accepted
    cases accepted
  | ok seen =>
    obtain ⟨distinct, admitted, same⟩ :=
      (validator.validate_votes_iff certificate.votes ∅ seen).mp checked
    rw [Finset.empty_union] at same
    subst same
    simp only [size distinct]
    by_cases short : certificate.votes.length < validator.quorumThreshold
    · simp [short, Nat.not_le.mpr short]
    · simp only [short, ↓reduceIte, true_iff]
      exact ⟨distinct, fun vote inside => (admitted vote inside).2, Nat.le_of_not_lt short⟩

theorem threshold_of_nonempty (populated : 0 < validator.validators.card) :
    validator.quorumThreshold = 2 * ((validator.validators.card - 1) / 3) + 1 ∧
      validator.maxFaulty = (validator.validators.card - 1) / 3 := by
  have nonempty : validator.validators ≠ ∅ := by
    intro empty
    simp [empty] at populated
  have nonzero : validator.validators.card ≠ 0 := Nat.ne_of_gt populated
  simp [quorumThreshold, maxFaulty, nonempty, nonzero]

theorem accepted_voters (certificate : QuorumCertificate)
    (accepted : validator.validateQc certificate = .ok ()) :
    (certificate.votes.map VoteMessage.voterId).toFinset ⊆ validator.validators ∧
      validator.quorumThreshold ≤ (certificate.votes.map VoteMessage.voterId).toFinset.card := by
  obtain ⟨distinct, admitted, enough⟩ := (validator.validate_qc_iff certificate).mp accepted
  constructor
  · intro voter member
    obtain ⟨vote, inside, same⟩ := List.mem_map.mp (List.mem_toFinset.mp member)
    exact same ▸ (admitted vote inside).1
  · rw [List.toFinset_card_of_nodup distinct, List.length_map]
    exact enough

end QuorumValidator

/-- The verifier accepts a vote of an honest voter only if that voter signed
the payload. -/
def Unforged (verifier : SignatureVerifier) (faulty : Finset String)
    (signed : String → Bytes → Prop) : Prop :=
  ∀ voter payload signature, voter ∉ faulty →
    verifier voter payload signature = true → signed voter payload

/-- Every validator outside the faulty set signs at most one block hash for
each phase and round. -/
def SignsOnce (validators faulty : Finset String) (signed : String → Bytes → Prop) : Prop :=
  ∀ voter ∈ validators, voter ∉ faulty → ∀ phase round first second,
    signed voter (signingPayload phase first round) →
    signed voter (signingPayload phase second round) → first = second

def VotesAt (phase : BftPhase) (round : UInt64) (certificate : QuorumCertificate) : Prop :=
  ∀ vote ∈ certificate.votes, vote.phase = phase ∧ vote.round = round

def VotesNameBlock (certificate : QuorumCertificate) : Prop :=
  ∀ vote ∈ certificate.votes, vote.blockHash = certificate.blockHash

/-- Any two accepted certificates of one phase and round, among those that
satisfy `eligible`, certify the same block. -/
def Agreement (validators : Finset String) (eligible : QuorumCertificate → Prop) : Prop :=
  ∀ (verifier : SignatureVerifier) (signed : String → Bytes → Prop) (faulty : Finset String)
    (phase : BftPhase) (round : UInt64) (left right : QuorumCertificate),
    faulty ⊆ validators →
    faulty.card ≤ (QuorumValidator.mk validators verifier).maxFaulty →
    Unforged verifier faulty signed → SignsOnce validators faulty signed →
    (QuorumValidator.mk validators verifier).validateQc left = .ok () →
    (QuorumValidator.mk validators verifier).validateQc right = .ok () →
    VotesAt phase round left → VotesAt phase round right → eligible left → eligible right →
    left.blockHash = right.blockHash

theorem agreement_of_overlap (validators : Finset String) (populated : 0 < validators.card)
    (exact : validators.card % 3 = 1) : Agreement validators VotesNameBlock := by
  intro verifier signed faulty phase round left right _ bounded unforged once
    leftOk rightOk leftAt rightAt leftNames rightNames
  let validator := QuorumValidator.mk validators verifier
  obtain ⟨threshold, budget⟩ := validator.threshold_of_nonempty populated
  obtain ⟨leftKnown, leftSize⟩ := validator.accepted_voters left leftOk
  obtain ⟨rightKnown, rightSize⟩ := validator.accepted_voters right rightOk
  have large := (two_thirds_overlap_iff validators.card populated).mpr exact
  obtain ⟨voter, inLeft, inRight, honest⟩ := common_member_outside validators
    (left.votes.map VoteMessage.voterId).toFinset (right.votes.map VoteMessage.voterId).toFinset
    faulty leftKnown rightKnown (by simp only [validator] at *; omega)
  obtain ⟨vote, voteIn, voteBy⟩ := List.mem_map.mp (List.mem_toFinset.mp inLeft)
  obtain ⟨vote', voteIn', voteBy'⟩ := List.mem_map.mp (List.mem_toFinset.mp inRight)
  have admitted := ((validator.validate_qc_iff left).mp leftOk).2.1 vote voteIn
  have admitted' := ((validator.validate_qc_iff right).mp rightOk).2.1 vote' voteIn'
  have signedLeft := unforged vote.voterId _ _ (voteBy ▸ honest) admitted.2
  have signedRight := unforged vote'.voterId _ _ (voteBy' ▸ honest) admitted'.2
  rw [payload_of_names ⟨(leftAt vote voteIn).1, leftNames vote voteIn, (leftAt vote voteIn).2⟩,
    voteBy] at signedLeft
  rw [payload_of_names ⟨(rightAt vote' voteIn').1, rightNames vote' voteIn',
    (rightAt vote' voteIn').2⟩, voteBy'] at signedRight
  exact once voter (leftKnown inLeft) honest phase round _ _ signedLeft signedRight

def ballot (phase : BftPhase) (round : UInt64) (certified voted : Hash32)
    (voters : List String) : QuorumCertificate :=
  { blockHash := certified, round, phase
    votes := voters.map fun voter => { blockHash := voted, round, phase, voterId := voter,
                                       signature := [1] } }

theorem ballot_accepted (validator : QuorumValidator) (phase : BftPhase) (round : UInt64)
    (certified voted : Hash32) (voters : List String) (distinct : voters.Nodup)
    (known : ∀ voter ∈ voters, voter ∈ validator.validators)
    (verified : ∀ voter ∈ voters,
      validator.verifier voter (signingPayload phase voted round) [1] = true)
    (enough : validator.quorumThreshold ≤ voters.length) :
    validator.validateQc (ballot phase round certified voted voters) = .ok () := by
  apply (validator.validate_qc_iff _).mpr
  refine ⟨?_, ?_, by simpa [ballot] using enough⟩
  · simpa [ballot, Function.comp_def] using distinct
  · intro vote inside
    obtain ⟨voter, listed, same⟩ := List.mem_map.mp inside
    subst same
    exact ⟨known voter listed, verified voter listed⟩

theorem ballot_votes_at (phase : BftPhase) (round : UInt64) (certified voted : Hash32)
    (voters : List String) : VotesAt phase round (ballot phase round certified voted voters) := by
  intro vote inside
  obtain ⟨voter, _, same⟩ := List.mem_map.mp inside
  subst same
  exact ⟨rfl, rfl⟩

theorem ballot_names_block (phase : BftPhase) (round : UInt64) (voted : Hash32)
    (voters : List String) : VotesNameBlock (ballot phase round voted voted voters) := by
  intro vote inside
  obtain ⟨voter, _, same⟩ := List.mem_map.mp inside
  subst same
  rfl

def SignsChoice (choice : String → Hash32) (voter : String) (payload : Bytes) : Prop :=
  payload = signingPayload .commit (choice voter) 0

theorem signs_choice_once (validators faulty : Finset String) (choice : String → Hash32) :
    SignsOnce validators faulty (SignsChoice choice) := by
  -- A record for the wrong phase or round is never signed, so only commit,
  -- round 0 is left, where the payload fixes the hash.
  intro voter _ _ phase round first second signedFirst signedSecond
  have leftHash := (signing_payload_inj signedFirst).2.1
  have rightHash := (signing_payload_inj signedSecond).2.1
  exact leftHash.trans rightHash.symm

def choiceVerifier (faulty : Finset String) (choice : String → Hash32) : SignatureVerifier :=
  fun voter payload _ => voter ∈ faulty || payload == signingPayload .commit (choice voter) 0

theorem choice_verifier_unforged (faulty : Finset String) (choice : String → Hash32) :
    Unforged (choiceVerifier faulty choice) faulty (SignsChoice choice) := by
  intro voter payload signature honest accepted
  simpa [choiceVerifier, honest, SignsChoice] using accepted

def firstHash : Hash32 := Vector.replicate 32 1
def secondHash : Hash32 := Vector.replicate 32 2

theorem hashes_differ : firstHash ≠ secondHash := by decide

theorem split_of_small_overlap (validators : Finset String) (populated : 0 < validators.card)
    (inexact : validators.card % 3 ≠ 1) : ¬ Agreement validators VotesNameBlock := by
  intro agreement
  have small : ¬ _ := fun large => inexact ((two_thirds_overlap_iff _ populated).mp large)
  obtain ⟨left, right, leftKnown, rightKnown, leftSize, rightSize, overlap⟩ :=
    exists_small_overlap validators (2 * ((validators.card - 1) / 3) + 1)
      ((validators.card - 1) / 3) (by omega) (by omega)
  let choice : String → Hash32 := fun voter => if voter ∈ left then firstHash else secondHash
  let verifier := choiceVerifier (left ∩ right) choice
  obtain ⟨threshold, budget⟩ :=
    (QuorumValidator.mk validators verifier).threshold_of_nonempty populated
  have leftOk : (QuorumValidator.mk validators verifier).validateQc
      (ballot .commit 0 firstHash firstHash left.toList) = .ok () := by
    apply ballot_accepted
    · exact left.nodup_toList
    · intro voter listed
      exact leftKnown (Finset.mem_toList.mp listed)
    · intro voter listed
      simp [verifier, choiceVerifier, choice, Finset.mem_toList.mp listed]
    · rw [threshold, Finset.length_toList, leftSize]
  have rightOk : (QuorumValidator.mk validators verifier).validateQc
      (ballot .commit 0 secondHash secondHash right.toList) = .ok () := by
    apply ballot_accepted
    · exact right.nodup_toList
    · intro voter listed
      exact rightKnown (Finset.mem_toList.mp listed)
    · intro voter listed
      by_cases shared : voter ∈ left
      · simp [verifier, choiceVerifier, shared, Finset.mem_toList.mp listed]
      · simp [verifier, choiceVerifier, choice, shared]
    · rw [threshold, Finset.length_toList, rightSize]
  have same := agreement verifier (SignsChoice choice) (left ∩ right) .commit 0 _ _
    (Finset.inter_subset_left.trans leftKnown) (by rw [budget]; exact overlap)
    (choice_verifier_unforged _ _) (signs_choice_once _ _ _) leftOk rightOk
    (ballot_votes_at _ _ _ _ _) (ballot_votes_at _ _ _ _ _)
    (ballot_names_block _ _ _ _) (ballot_names_block _ _ _ _)
  exact absurd same hashes_differ

theorem relabelled_votes_split (validators : Finset String) (populated : 0 < validators.card) :
    ¬ Agreement validators fun _ => True := by
  intro agreement
  let verifier := choiceVerifier ∅ fun _ => firstHash
  have accepted : ∀ certified, (QuorumValidator.mk validators verifier).validateQc
      (ballot .commit 0 certified firstHash validators.toList) = .ok () := by
    intro certified
    apply ballot_accepted
    · exact validators.nodup_toList
    · intro voter listed
      exact Finset.mem_toList.mp listed
    · intro voter _
      simp [verifier, choiceVerifier]
    · rw [((QuorumValidator.mk validators verifier).threshold_of_nonempty populated).1,
        Finset.length_toList]
      simp only
      omega
  have same := agreement verifier (SignsChoice fun _ => firstHash) ∅ .commit 0 _ _
    (Finset.empty_subset _) (by simp) (choice_verifier_unforged _ _) (signs_choice_once _ _ _)
    (accepted firstHash) (accepted secondHash)
    (ballot_votes_at _ _ _ _ _) (ballot_votes_at _ _ _ _ _) trivial trivial
  exact absurd same hashes_differ

/-- Agreement holds exactly for `n = 3f + 1` validators and certificates whose
votes name the certified block; `validate_qc` checks neither. -/
theorem quorum_agreement_iff (validators : Finset String) (viable : 4 ≤ validators.card) :
    (Agreement validators VotesNameBlock ↔ validators.card % 3 = 1) ∧
      ¬ Agreement validators fun _ => True := by
  have populated : 0 < validators.card := by omega
  refine ⟨⟨?_, agreement_of_overlap validators populated⟩,
    relabelled_votes_split validators populated⟩
  intro agreement
  by_contra inexact
  exact split_of_small_overlap validators populated inexact agreement

theorem seven_validators_agree :
    4 ≤ (["v0", "v1", "v2", "v3", "v4", "v5", "v6"].toFinset).card ∧
      Agreement ["v0", "v1", "v2", "v3", "v4", "v5", "v6"].toFinset VotesNameBlock :=
  ⟨by decide, (quorum_agreement_iff _ (by decide)).1.mpr (by decide)⟩

def sixValidators : Finset String := ["v0", "v1", "v2", "v3", "v4", "v5"].toFinset

def halves (voter : String) : Hash32 :=
  if voter ∈ ["v0", "v1", "v2"] then firstHash else secondHash

/-- Six honest validators, threshold three: two disjoint halves certify two
blocks in one phase and round with no faulty validator at all. -/
theorem six_honest_validators_split :
    4 ≤ sixValidators.card ∧ ¬ Agreement sixValidators fun _ => True := by
  refine ⟨by decide, ?_⟩
  intro agreement
  have same := agreement (choiceVerifier ∅ halves) (SignsChoice halves) ∅ .commit 0
    (ballot .commit 0 firstHash firstHash ["v0", "v1", "v2"])
    (ballot .commit 0 secondHash secondHash ["v3", "v4", "v5"])
    (by decide) (by decide) (choice_verifier_unforged _ _) (signs_choice_once _ _ _)
    (by decide) (by decide) (ballot_votes_at _ _ _ _ _) (ballot_votes_at _ _ _ _ _)
    trivial trivial
  exact absurd same hashes_differ

end CeruleanLedger.QuorumValidation
