import CeruleanLedger.ConsensusRound
import CeruleanLedger.GuardedRun

/-!
What a vote collector has gathered after any sequence of votes. The vote that completes the
quorum finds exactly one voter missing, so only the set of voters matters.
-/

namespace CeruleanLedger.VoteCollection

open ByteCodec BftVotes QuorumValidation IterationOrder ConsensusRound GuardedRun

def isComplete (collector : VoteCollector) : Bool := collector.quorumReached

def threshold (collector : VoteCollector) : Nat := collector.quorumValidator.quorumThreshold

structure Question where
  phase : BftPhase
  round : UInt64
  blockHash : Hash32
  quorumValidator : QuorumValidator

def questionOf (collector : VoteCollector) : Question :=
  ⟨collector.phase, collector.round, collector.blockHash, collector.quorumValidator⟩

def Question.collector (question : Question) : VoteCollector :=
  .new question.phase question.round question.blockHash question.quorumValidator

def Question.Accepts (question : Question) (vote : VoteMessage) : Prop :=
  vote.Names question.phase question.blockHash question.round ∧
    vote.voterId ∈ question.quorumValidator.validators ∧
    question.quorumValidator.verifier vote.voterId vote.payload vote.signature = true
  deriving Decidable

def Question.voters (question : Question) (votes : List VoteMessage) : Finset String :=
  ((votes.filter fun vote => question.Accepts vote).map VoteMessage.voterId).toFinset

section Voters

variable {question : Question} {votes : List VoteMessage} {vote : VoteMessage}

theorem voters_perm {reordered : List VoteMessage} (same : votes.Perm reordered) :
    question.voters votes = question.voters reordered :=
  List.toFinset_eq_of_perm _ _ ((same.filter _).map _)

theorem voters_refused (refused : ¬ question.Accepts vote) :
    question.voters (votes ++ [vote]) = question.voters votes := by
  simp [Question.voters, refused]

theorem voters_accepted (accepted : question.Accepts vote) :
    question.voters (votes ++ [vote]) = insert vote.voterId (question.voters votes) := by
  ext voter
  simp [Question.voters, accepted]

end Voters

section OneVote

variable (collector : VoteCollector) (vote : VoteMessage)

def holds (voter : String) : Prop := voter ∈ collector.votes.map VoteMessage.voterId

/-- What a call can do. A refused vote changes nothing; an accepted one is added,
and the certificate is made of the votes then held. -/
inductive Outcome : VoteCollector × VoteResult → Prop
  | refused (reason : QcError) (why : collector.quorumReached = true ∨
      ¬ (questionOf collector).Accepts vote ∨ holds collector vote.voterId) :
      Outcome (collector, .rejected reason)
  | waits (after : VoteCollector) (running : collector.quorumReached = false)
      (accepts : (questionOf collector).Accepts vote) (fresh : ¬ holds collector vote.voterId)
      (same : questionOf after = questionOf collector)
      (votes : after.votes = vote :: collector.votes) (still : after.quorumReached = false)
      (short : collector.votes.length + 1 < threshold collector) :
      Outcome (after, .pending after.votes.length)
  | completes (after : VoteCollector) (qc : QuorumCertificate)
      (running : collector.quorumReached = false)
      (accepts : (questionOf collector).Accepts vote) (fresh : ¬ holds collector vote.voterId)
      (same : questionOf after = questionOf collector)
      (votes : after.votes = vote :: collector.votes) (ended : after.quorumReached = true)
      (enough : threshold collector ≤ collector.votes.length + 1)
      (made : qc.votes.Perm after.votes) :
      Outcome (after, .quorumReached qc)

theorem add_vote_outcome (listing : Arrangement VoteMessage) :
    Outcome collector vote (collector.addVote listing vote) := by
  unfold VoteCollector.addVote
  split
  · rename_i reached
    exact .refused _ (Or.inl reached)
  rename_i unfinished
  have running : collector.quorumReached = false := by simpa using unfinished
  split
  · rename_i phase
    exact .refused _ (Or.inr (Or.inl fun accepts => phase accepts.1.1))
  rename_i phase
  split
  · rename_i round
    exact .refused _ (Or.inr (Or.inl fun accepts => round accepts.1.2.2))
  rename_i round
  split
  · rename_i hash
    exact .refused _ (Or.inr (Or.inl fun accepts => hash accepts.1.2.1))
  rename_i hash
  split
  · rename_i repeated
    exact .refused _ (Or.inr (Or.inr repeated))
  rename_i fresh
  split
  · rename_i reason checked
    refine .refused _ (Or.inr (Or.inl fun accepts => ?_))
    rw [(collector.quorumValidator.validate_vote_iff vote).mpr accepts.2] at checked
    cases checked
  rename_i checked
  have admits := (collector.quorumValidator.validate_vote_iff vote).mp checked
  have accepts : (questionOf collector).Accepts vote :=
    ⟨⟨not_not.mp phase, not_not.mp hash, not_not.mp round⟩, admits⟩
  dsimp only
  split
  · rename_i enough
    split
    · rename_i qc formed
      obtain ⟨same, _⟩ := (new_ok_iff _ _ _ _ _).mp formed
      exact .completes _ qc running accepts fresh rfl rfl rfl enough
        (by rw [same]; exact listing.perm _)
    · -- Every vote that is held names what the collector is for.
      rename_i reason failed
      rw [(new_ok_iff _ _ _ _ _).mpr ⟨rfl, fun held member =>
        (VoteCollector.admitted _ held ((listing.perm _).mem_iff.mp member)).1⟩] at failed
      cases failed
  · rename_i short
    exact .waits _ running accepts fresh rfl rfl running (by
      simpa [VoteCollector.insert, threshold] using short)

end OneVote

structure Tally where
  collector : VoteCollector
  sent : List VoteMessage
  answers : List VoteResult

def Tally.step (tally : Tally) (call : Arrangement VoteMessage × VoteMessage) : Tally :=
  let (collector, answer) := tally.collector.addVote call.1 call.2
  ⟨collector, tally.sent ++ [call.2], tally.answers ++ [answer]⟩

def collect (question : Question) (calls : List (Arrangement VoteMessage × VoteMessage)) :
    Tally :=
  calls.foldl Tally.step ⟨question.collector, [], []⟩

def certificateOf : VoteResult → Option QuorumCertificate
  | .quorumReached qc => some qc
  | _ => none

def Tally.certificates (tally : Tally) : List QuorumCertificate :=
  tally.answers.filterMap certificateOf

structure ExactQuorum (question : Question) (qc : QuorumCertificate) : Prop where
  size : qc.votes.length = question.quorumValidator.quorumThreshold
  distinct : (qc.votes.map VoteMessage.voterId).Nodup

/-- The collector is complete once enough voters have sent an acceptable vote;
before that it holds one vote of each of them. -/
inductive Gathered (question : Question) (tally : Tally) : Prop
  | running (open_ : tally.collector.quorumReached = false)
      (voters : (tally.collector.votes.map VoteMessage.voterId).toFinset =
        question.voters tally.sent)
      (short : tally.collector.votes.length < question.quorumValidator.quorumThreshold)
      (none : tally.certificates = [])
  | finished (qc : QuorumCertificate) (closed : tally.collector.quorumReached = true)
      (enough : question.quorumValidator.quorumThreshold ≤ (question.voters tally.sent).card)
      (exact : ExactQuorum question qc) (one : tally.certificates = [qc])

theorem held_card (collector : VoteCollector) :
    (collector.votes.map VoteMessage.voterId).toFinset.card = collector.votes.length := by
  rw [List.toFinset_card_of_nodup collector.distinct, List.length_map]

theorem certificates_append (collector : VoteCollector) (sent : List VoteMessage)
    (answers : List VoteResult) (answer : VoteResult) :
    (Tally.mk collector sent (answers ++ [answer])).certificates =
      answers.filterMap certificateOf ++ (certificateOf answer).toList := by
  rw [Tally.certificates, List.filterMap_append]
  cases reported : certificateOf answer <;> simp [reported]

section Step

variable {question : Question} {tally : Tally} {vote : VoteMessage}

theorem voters_added {after : VoteCollector} (asked : questionOf tally.collector = question)
    (accepts : (questionOf tally.collector).Accepts vote)
    (votes : after.votes = vote :: tally.collector.votes)
    (voters : (tally.collector.votes.map VoteMessage.voterId).toFinset =
      question.voters tally.sent) :
    (after.votes.map VoteMessage.voterId).toFinset = question.voters (tally.sent ++ [vote]) := by
  rw [voters_accepted (asked ▸ accepts), votes, List.map_cons, List.toFinset_cons, voters]

theorem gathered_outcome (asked : questionOf tally.collector = question)
    (gathered : Gathered question tally) {outcome : VoteCollector × VoteResult}
    (happened : Outcome tally.collector vote outcome) :
    questionOf outcome.1 = question ∧
      Gathered question ⟨outcome.1, tally.sent ++ [vote], tally.answers ++ [outcome.2]⟩ := by
  have needed : threshold tally.collector = question.quorumValidator.quorumThreshold := by
    rw [← asked]
    rfl
  cases happened with
  | refused reason why =>
    refine ⟨asked, ?_⟩
    cases gathered with
    | running open_ voters short none =>
      have late : ¬ tally.collector.quorumReached = true := by simp [open_]
      refine .running open_ ?_ short ?_
      · by_cases accepts : question.Accepts vote
        · rw [voters_accepted accepts, Finset.insert_eq_self.mpr, voters]
          rw [← voters, List.mem_toFinset]
          exact (why.resolve_left late).resolve_left (fun refused => refused (asked ▸ accepts))
        · exact voters.trans (voters_refused accepts).symm
      · rw [certificates_append]
        exact congrArg (· ++ []) none
    | finished qc closed enough exact one =>
      refine .finished qc closed ?_ exact ?_
      · refine enough.trans (Finset.card_le_card ?_)
        by_cases accepts : question.Accepts vote
        · rw [voters_accepted accepts]
          exact Finset.subset_insert _ _
        · rw [voters_refused accepts]
      · rw [certificates_append]
        exact congrArg (· ++ []) one
  | waits after running accepts fresh same votes still short =>
    refine ⟨same.trans asked, ?_⟩
    cases gathered with
    | running open_ voters few none =>
      refine .running still (voters_added asked accepts votes voters) ?_ ?_
      · rw [votes, List.length_cons, ← needed]
        exact short
      · rw [certificates_append]
        exact congrArg (· ++ []) none
    | finished qc closed => exact absurd (running.symm.trans closed) (by decide)
  | completes after qc running accepts fresh same votes ended enough made =>
    refine ⟨same.trans asked, ?_⟩
    cases gathered with
    | running open_ voters few none =>
      have size : after.votes.length = tally.collector.votes.length + 1 := by
        rw [votes, List.length_cons]
      refine .finished qc ended ?_ ⟨?_, ?_⟩ ?_
      · rw [← voters_added asked accepts votes voters, held_card, size, ← needed]
        exact enough
      · -- One vote was missing before, and one was added.
        rw [made.length_eq]
        omega
      · exact (made.map VoteMessage.voterId).nodup_iff.mpr after.distinct
      · rw [certificates_append]
        exact congrArg (· ++ [qc]) none
    | finished qc closed => exact absurd (running.symm.trans closed) (by decide)

end Step

theorem collect_gathered (question : Question)
    (known : question.quorumValidator.validators.Nonempty)
    (calls : List (Arrangement VoteMessage × VoteMessage)) :
    Gathered question (collect question calls) := by
  have positive : 0 < question.quorumValidator.quorumThreshold := by
    rw [(question.quorumValidator.threshold_of_nonempty known.card_pos).1]
    exact Nat.succ_pos _
  have step : ∀ (tally : Tally) call,
      questionOf tally.collector = question ∧ Gathered question tally →
      questionOf (tally.step call).collector = question ∧ Gathered question (tally.step call) := by
    rintro tally call ⟨asked, gathered⟩
    exact gathered_outcome asked gathered (add_vote_outcome tally.collector call.2 call.1)
  exact (run_keeps (fun tally : Tally => questionOf tally.collector = question ∧
    Gathered question tally) ⟨question.collector, [], []⟩ calls
      ⟨rfl, .running rfl rfl positive rfl⟩ step).2

theorem collect_sent (question : Question)
    (calls : List (Arrangement VoteMessage × VoteMessage)) :
    (collect question calls).sent = calls.map Prod.snd := by
  have grows : ∀ tally : Tally, (calls.foldl Tally.step tally).sent =
      tally.sent ++ calls.map Prod.snd := by
    induction calls with
    | nil => simp
    | cons call rest ih =>
      intro tally
      rw [List.foldl_cons, ih, List.map_cons]
      simp [Tally.step]
  exact grows _

/-- A collector is complete after a sequence of votes, in any order, exactly if
enough distinct known voters have an acceptable vote in it. The quorum is then
reported once, with exactly the threshold of votes, by distinct voters. -/
theorem collection_order_free (phase : BftPhase) (round : UInt64) (blockHash : Hash32)
    (validator : QuorumValidator) (known : validator.validators.Nonempty)
    (votes : List VoteMessage) (calls : List (Arrangement VoteMessage × VoteMessage))
    (reordered : (calls.map Prod.snd).Perm votes) :
    let question : Question := ⟨phase, round, blockHash, validator⟩
    (isComplete (collect question calls).collector = true ↔
      validator.quorumThreshold ≤ (question.voters votes).card) ∧
    (isComplete (collect question calls).collector = true →
      ∃ qc, (collect question calls).certificates = [qc] ∧ ExactQuorum question qc) ∧
    (isComplete (collect question calls).collector = false →
      (collect question calls).certificates = []) := by
  intro question
  have voters : question.voters (collect question calls).sent = question.voters votes := by
    rw [collect_sent]
    exact voters_perm reordered
  cases collect_gathered question known calls with
  | running open_ held short none =>
    have few : ¬ validator.quorumThreshold ≤ (question.voters votes).card := by
      rw [← voters, ← held, held_card]
      exact Nat.not_le_of_lt short
    simp [isComplete, open_, few, none]
  | finished qc closed enough exact one =>
    rw [voters] at enough
    have complete : validator.quorumThreshold ≤ (question.voters votes).card := enough
    simp only [isComplete, closed, complete, one, forall_const, Bool.true_eq_false,
      false_imp_iff, and_true, true_and]
    exact ⟨qc, rfl, exact⟩

def mixedVotes : List VoteMessage :=
  [⟨firstHash, 0, .prepare, "v1", []⟩, ⟨firstHash, 0, .prepare, "v2", [1]⟩,
    ⟨firstHash, 0, .prepare, "x", [1]⟩, ⟨firstHash, 0, .prepare, "v1", [1]⟩,
    ⟨firstHash, 0, .prepare, "v2", [2]⟩, ⟨firstHash, 0, .prepare, "v3", [1]⟩]

def signedFour : QuorumValidator :=
  .new ["v1", "v2", "v3", "v4"] fun _ _ signature => !signature.isEmpty

theorem mixed_votes_complete :
    isComplete (collect ⟨.prepare, 0, firstHash, signedFour⟩
      (mixedVotes.reverse.map fun vote => (.asStored, vote))).collector = true :=
  (collection_order_free .prepare 0 firstHash signedFour (by decide) mixedVotes
    (mixedVotes.reverse.map fun vote => (.asStored, vote))
    (by simp [Function.comp_def, List.reverse_perm])).1.mpr (by decide)

end CeruleanLedger.VoteCollection
