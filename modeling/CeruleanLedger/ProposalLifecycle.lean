import CeruleanLedger.DepositLedger

/-!
The life of a proposal over whole runs of the proposal and vote stores. The stores keep it
lawful except where a proposal is rejected early, the end of a timelock wraps around or is
replaced by a load, a veto meets a rejected proposal, or an id is used again. No order of the
heights is assumed.
-/

namespace CeruleanLedger.ProposalLifecycle

open Governance DepositLedger GuardedRun OrderedMap

inductive VoteOp where
  | castVote (id : ProposalId) (voter : String) (option : VoteOption)
      (power currentHeight votingEndsAt : UInt64)
  | delegate (delegator delegate : String)
  | undelegate (delegator : String)
  | loadVote (vote : Vote)

def applyVote (store : VoteStore) : VoteOp → VoteStore
  | .castVote id voter option power height endsAt =>
    (store.castVote id voter option power height endsAt).toOption.getD store
  | .delegate delegator delegate => (store.delegate delegator delegate).toOption.getD store
  | .undelegate delegator => store.undelegate delegator
  | .loadVote vote => store.loadVote vote

inductive Op where
  | proposal (op : StoreOp)
  | vote (op : VoteOp)

/-- The two stores, and for each proposal that passed the height and the timelock
when it last did. -/
structure Life where
  proposals : ProposalStore
  votes : VoteStore
  passes : Std.ExtTreeMap ProposalId (UInt64 × UInt64)

def Life.new : Life := ⟨.new, .new, ∅⟩

/-- A pass stays on record until the proposal passes again, whatever is loaded. -/
def recordPass (passes : Std.ExtTreeMap ProposalId (UInt64 × UInt64)) :
    StoreOp → Std.ExtTreeMap ProposalId (UInt64 × UInt64)
  | .markPassed id height timelock => passes.insert id (height, timelock)
  | _ => passes

def step (life : Life) : Op → Life
  | .vote op => { life with votes := applyVote life.votes op }
  | .proposal op =>
    { life with
      proposals := apply life.proposals op
      passes :=
        if accepted life.proposals op then recordPass life.passes op else life.passes }

def heightOf : Op → Option UInt64
  | .proposal (.submit params) => some params.currentHeight
  | .proposal (.markPassed _ height _) => some height
  | .proposal (.markRejected _ height) => some height
  | .proposal (.markExecuted _ height) => some height
  | .proposal (.cancel _ _ height) => some height
  | .proposal (.emergencyVeto _ _ _ height) => some height
  | .proposal (.loadProposal _) => none
  | .vote _ => none

def Final (status : ProposalStatus) : Prop :=
  status = .executed ∨ status = .rejected ∨ status = .cancelled
  deriving Decidable

/-- What may become of a proposal at a height, given when it passed. -/
structure LawfulChange (height : Option UInt64) (pass : Option (UInt64 × UInt64))
    (before after : Proposal) : Prop where
  final : Final before.status → after.status = before.status
  decided : after.status ≠ before.status → after.status = .passed ∨ after.status = .rejected →
    ∃ now ∈ height, before.votingEndsAt ≤ now
  executed : after.status ≠ before.status → after.status = .executed →
    ∃ now ∈ height, ∀ passed ∈ pass, passed.1.toNat + passed.2.toNat ≤ now.toNat

def Lawful (life : Life) (op : Op) : Prop :=
  ∀ (id : ProposalId) before, life.proposals.proposals[id]? = some before →
    ∃ after, (step life op).proposals.proposals[id]? = some after ∧
      LawfulChange (heightOf op) life.passes[id]? before after

/-- Where an operation is accepted, no proposal is rejected early, vetoed after a
rejection or replaced after its end. A proposal that is executed has the end of
the timelock that was set when it passed, and that sum did not wrap; or a load has
brought another end, and the execution is late enough all the same. -/
def Orderly (life : Life) : Op → Prop
  | .vote _ => True
  | .proposal (.submit params) => accepted life.proposals (.submit params) →
    ∀ old ∈ life.proposals.proposals[life.proposals.nextId]?, ¬ Final old.status
  | .proposal (.markRejected id height) => accepted life.proposals (.markRejected id height) →
    ∀ proposal ∈ life.proposals.proposals[id]?, proposal.votingEndsAt ≤ height
  | .proposal (.markExecuted id height) => accepted life.proposals (.markExecuted id height) →
    ∀ proposal ∈ life.proposals.proposals[id]?, ∀ passed ∈ life.passes[id]?,
      if proposal.timelockEndsAt = some (passed.1 + passed.2) then
        passed.1.toNat + passed.2.toNat < 2 ^ 64
      else passed.1.toNat + passed.2.toNat ≤ height.toNat
  | .proposal (.emergencyVeto id caller authorized height) =>
    accepted life.proposals (.emergencyVeto id caller authorized height) →
      ∀ proposal ∈ life.proposals.proposals[id]?, proposal.status ≠ .rejected
  | .proposal (.loadProposal proposal) =>
    ∀ old ∈ life.proposals.proposals[proposal.id]?, proposal.status = old.status ∨
      ¬ Final old.status ∧ proposal.status ≠ .passed ∧ proposal.status ≠ .rejected ∧
        proposal.status ≠ .executed
  | .proposal _ => True

section Steps

variable {life : Life}

theorem unchanged_lawful (height : Option UInt64) (pass : Option (UInt64 × UInt64))
    (proposal : Proposal) : LawfulChange height pass proposal proposal :=
  ⟨fun _ => rfl, fun changed => absurd rfl changed, fun changed => absurd rfl changed⟩

theorem unchanged_step_lawful {op : Op}
    (same : (step life op).proposals.proposals = life.proposals.proposals) : Lawful life op := by
  intro id before found
  exact ⟨before, by rw [same, found], unchanged_lawful _ _ before⟩

theorem lawful_insert_iff {op : Op} {id : ProposalId} {after : Proposal}
    (written : (step life op).proposals.proposals = life.proposals.proposals.insert id after) :
    Lawful life op ↔ ∀ before ∈ life.proposals.proposals[id]?,
      LawfulChange (heightOf op) life.passes[id]? before after := by
  constructor
  · intro lawful before found
    obtain ⟨proposal, stored, change⟩ := lawful id before found
    rw [written, get_insert, if_pos rfl] at stored
    cases stored
    exact change
  · intro change other before found
    rw [written, get_insert]
    by_cases same : id = other
    · subst same
      exact ⟨after, if_pos rfl, change before found⟩
    · exact ⟨before, by rw [if_neg same, found], unchanged_lawful _ _ before⟩

section Changes

variable {height : Option UInt64} {pass : Option (UInt64 × UInt64)} {before after : Proposal}

theorem change_to_voting_iff (status : after.status = .voting) :
    LawfulChange height pass before after ↔ ¬ Final before.status := by
  constructor
  · intro lawful ended
    have same := lawful.final ended
    rw [status] at same
    rw [← same] at ended
    exact absurd ended (by decide)
  · intro going
    refine ⟨fun ended => absurd ended going, fun _ decided => ?_, fun _ executed => ?_⟩
    · rw [status] at decided
      exact absurd decided (by decide)
    · rw [status] at executed
      cases executed

theorem change_after_vote {now : UInt64} (voting : before.status = .voting)
    (ended : before.votingEndsAt ≤ now) (pending : after.status ≠ .executed) :
    LawfulChange (some now) pass before after := by
  refine ⟨fun final => ?_, fun _ _ => ⟨now, rfl, ended⟩, fun _ executed => ?_⟩
  · rw [voting] at final
    exact absurd final (by decide)
  · exact absurd executed pending

theorem change_to_rejected_iff {now : UInt64} (voting : before.status = .voting)
    (status : after.status = .rejected) :
    LawfulChange (some now) pass before after ↔ before.votingEndsAt ≤ now := by
  constructor
  · intro lawful
    obtain ⟨_, same, ended⟩ := lawful.decided (by rw [status, voting]; exact nofun) (.inr status)
    cases same
    exact ended
  · intro ended
    exact change_after_vote voting ended (by rw [status]; exact nofun)

theorem change_to_executed_iff {now : UInt64} (passed : before.status = .passed)
    (status : after.status = .executed) :
    LawfulChange (some now) pass before after ↔
      ∀ times ∈ pass, times.1.toNat + times.2.toNat ≤ now.toNat := by
  constructor
  · intro lawful
    obtain ⟨_, same, waited⟩ := lawful.executed (by rw [status, passed]; exact nofun) status
    cases same
    exact waited
  · intro waited
    refine ⟨fun final => ?_, fun _ decided => ?_, fun _ _ => ⟨now, rfl, waited⟩⟩
    · rw [passed] at final
      exact absurd final (by decide)
    · rw [status] at decided
      exact absurd decided (by decide)

theorem change_to_cancelled_iff (status : after.status = .cancelled)
    (unexecuted : before.status ≠ .executed) :
    LawfulChange height pass before after ↔ before.status ≠ .rejected := by
  constructor
  · intro lawful rejected
    have same := lawful.final (.inr (.inl rejected))
    rw [status, rejected] at same
    cases same
  · intro unrejected
    refine ⟨?_, fun _ decided => ?_, fun _ executed => ?_⟩
    · rintro (executed | rejected | cancelled)
      · exact absurd executed unexecuted
      · exact absurd rejected unrejected
      · rw [status, cancelled]
    · rw [status] at decided
      exact absurd decided (by decide)
    · rw [status] at executed
      cases executed

/-- Without a height a proposal may only change to a status that needs none. -/
theorem change_by_loading_iff :
    LawfulChange none pass before after ↔ after.status = before.status ∨
      ¬ Final before.status ∧ after.status ≠ .passed ∧ after.status ≠ .rejected ∧
        after.status ≠ .executed := by
  constructor
  · intro lawful
    by_cases same : after.status = before.status
    · exact .inl same
    · refine .inr ⟨fun ended => same (lawful.final ended), fun passed => ?_, fun rejected => ?_,
        fun executed => ?_⟩
      · obtain ⟨_, none, _⟩ := lawful.decided same (.inl passed)
        cases none
      · obtain ⟨_, none, _⟩ := lawful.decided same (.inr rejected)
        cases none
      · obtain ⟨_, none, _⟩ := lawful.executed same executed
        cases none
  · rintro (same | ⟨going, unpassed, unrejected, unexecuted⟩)
    · exact ⟨fun _ => same, fun changed => absurd same changed, fun changed => absurd same changed⟩
    · refine ⟨fun ended => absurd ended going, ?_, fun _ executed => absurd executed unexecuted⟩
      rintro _ (passed | rejected)
      · exact absurd passed unpassed
      · exact absurd rejected unrejected

end Changes

/-- A timelock that has run out by the wrapped sum has run out by the true one
exactly if the sum did not wrap. -/
theorem waited_iff {passedAt timelock now : UInt64} (expired : passedAt + timelock ≤ now) :
    passedAt.toNat + timelock.toNat ≤ now.toNat ↔ passedAt.toNat + timelock.toNat < 2 ^ 64 := by
  have bound := now.toNat_lt
  rw [UInt64.le_iff_toNat_le, UInt64.toNat_add] at expired
  omega

theorem found_iff {found? : Option Proposal} {proposal : Proposal} {Holds : Proposal → Prop}
    (found : found? = some proposal) : (∀ other ∈ found?, Holds other) ↔ Holds proposal := by
  subst found
  simp only [Option.mem_some_iff, forall_eq']

theorem accepted_step {op : StoreOp} {after : ProposalStore}
    (attempted : attempt life.proposals op = .ok after) :
    step life (.proposal op) =
      ⟨after, life.votes, recordPass life.passes op⟩ := by
  have next : apply life.proposals op = after := by rw [apply, attempted]
  simp only [step, next, accepted_of_ok attempted, if_true]

theorem refused_step {op : StoreOp} {reason : ProposalError}
    (attempted : attempt life.proposals op = .error reason) :
    step life (.proposal op) = life := by
  have refused : accepted life.proposals op = false := by rw [accepted, attempted]; rfl
  simp only [step, apply, attempted, refused, Bool.false_eq_true, if_false]

theorem refused_orderly {op : StoreOp} {reason : ProposalError}
    (attempted : attempt life.proposals op = .error reason) : Orderly life (.proposal op) := by
  have refused : accepted life.proposals op = false := by rw [accepted, attempted]; rfl
  cases op with
  | markPassed _ _ _ => trivial
  | cancel _ _ _ => trivial
  | loadProposal proposal => cases attempted
  | _ => exact fun taken => absurd taken (by simp [refused])

/-- Where the recorded end is the sum of the two times, it is waited for unless that
sum has wrapped. -/
theorem waited_unless_wrapped {ends : Option UInt64} {height : UInt64}
    (expired : ∀ time, ends = some time → time ≤ height) (times : UInt64 × UInt64) :
    times.1.toNat + times.2.toNat ≤ height.toNat ↔
      if ends = some (times.1 + times.2) then times.1.toNat + times.2.toNat < 2 ^ 64
      else times.1.toNat + times.2.toNat ≤ height.toNat := by
  split
  · next same => exact waited_iff (expired _ same)
  · exact Iff.rfl

theorem lawful_iff_orderly (life : Life) (op : Op) : Lawful life op ↔ Orderly life op := by
  cases op with
  | vote op => exact iff_of_true (unchanged_step_lawful rfl) trivial
  | proposal op =>
    cases attempted : attempt life.proposals op with
    | error reason =>
      have lawful : Lawful life (.proposal op) :=
        unchanged_step_lawful (by rw [refused_step attempted])
      exact iff_of_true lawful (refused_orderly attempted)
    | ok after =>
      have next := accepted_step attempted
      have taken := accepted_of_ok attempted
      have outcome := attempt_ok attempted
      cases outcome with
      | submitted params =>
        rw [lawful_insert_iff (congrArg (·.proposals.proposals) next)]
        simp only [change_to_voting_iff
          (show (ProposalStore.SubmitParams.proposal params _).status = .voting from rfl)]
        exact ⟨fun going _ => going, fun orderly => orderly taken⟩
      | passed timelock found status ended =>
        rw [lawful_insert_iff (congrArg (·.proposals.proposals) next), found_iff found]
        exact iff_of_true (change_after_vote status ended (by simp)) trivial
      | rejected height found status =>
        rw [lawful_insert_iff (congrArg (·.proposals.proposals) next), found_iff found,
          heightOf, change_to_rejected_iff status rfl, Orderly, found_iff found]
        exact ⟨fun ended _ => ended, fun orderly => orderly taken⟩
      | @executed id proposal height found status expired =>
        rw [lawful_insert_iff (congrArg (·.proposals.proposals) next), found_iff found,
          heightOf, change_to_executed_iff status rfl, Orderly, found_iff found,
          forall₂_congr fun times _ => waited_unless_wrapped expired times]
        exact ⟨fun late _ => late, fun orderly => orderly taken⟩
      | cancelled height found status =>
        rw [lawful_insert_iff (congrArg (·.proposals.proposals) next), found_iff found]
        refine iff_of_true ((change_to_cancelled_iff rfl ?_).mpr ?_) trivial
        · rw [status]; decide
        · rw [status]; decide
      | vetoed height found unexecuted _ =>
        rw [lawful_insert_iff (congrArg (·.proposals.proposals) next), found_iff found,
          change_to_cancelled_iff rfl unexecuted, Orderly, found_iff found]
        exact ⟨fun unrejected _ => unrejected, fun orderly => orderly taken⟩
      | loaded proposal =>
        rw [lawful_insert_iff (congrArg (·.proposals.proposals) next), Orderly]
        simp only [heightOf, change_by_loading_iff]

end Steps

/-- In every run from new stores, all changes of proposals are lawful exactly if
all steps are orderly. -/
theorem life_lawful_iff (ops : List Op) :
    AllMeet step Lawful Life.new ops ↔ AllMeet step Orderly Life.new ops :=
  all_meet_iff (fun _ => True) Orderly (fun _ _ _ => trivial)
    (fun life op _ => lawful_iff_orderly life op) Life.new ops trivial

/-- Closing a vote is one of two operations at the height of the chain, or none. -/
theorem close_applies (state : GovernanceState) (id : ProposalId) (proposals : ProposalStore)
    (stored : state.proposalStore = some proposals) :
    (closeGovernanceVoting state id).1 = state ∨ ∃ op,
      ((∃ timelock, op = .markPassed id state.chainHeight timelock) ∨
        op = .markRejected id state.chainHeight) ∧
      (closeGovernanceVoting state id).1 =
        { state with proposalStore := some (apply proposals op) } := by
  unfold closeGovernanceVoting
  rw [stored]
  split
  · next store registry same _ _ =>
    cases same
    dsimp only
    split
    · exact .inl rfl
    next closed =>
      right
      split at closed
      · refine ⟨_, .inl ⟨registry.getU64 "timelock_blocks" 5760, rfl⟩, ?_⟩
        rw [apply, attempt, closed]
      · refine ⟨_, .inr rfl, ?_⟩
        rw [apply, attempt, closed]
  · exact .inl rfl

def lifeAfter (ops : List StoreOp) : Option (ProposalStatus × UInt64 × Option UInt64) :=
  ((ops.map Op.proposal).foldl step Life.new).proposals.proposals[(1 : ProposalId)]?.map
    fun proposal => (proposal.status, proposal.votingEndsAt, proposal.finalizedAt)

def earlyState : GovernanceState where
  voteStore := some VoteStore.new
  proposalStore := some (apply ProposalStore.new (.submit (pollParams "alice" 1)))
  paramRegistry := some ∅
  staking := Staking.StakingManager.new none none none
  chainHeight := 2

/-- The record of the proposal after it passed at block 11, as a load brings it. -/
def passedRecord (timelockEndsAt : Option UInt64) : Proposal :=
  { ProposalStore.SubmitParams.proposal (pollParams "alice" 1) 1 with
    status := .passed, timelockEndsAt }

/-- A proposal is rejected at block 2 although its vote ends at block 11, by the
store and by the handler; one that passes at block 11 with the largest timelock
is executed in that block, loaded anew or not; one with a timelock of 100 blocks
is so after a load without its end; and a rejected one is cancelled. -/
theorem life_broken :
    lifeAfter [.submit (pollParams "alice" 1), .markRejected 1 2] =
        some (.rejected, 11, some 2) ∧
      ((closeGovernanceVoting earlyState 1).1.proposalStore.bind (·.get 1)).map
        Proposal.status = some .rejected ∧
      lifeAfter [.submit (pollParams "alice" 1), .markPassed 1 11 (UInt64.ofNat (2 ^ 64 - 1)),
        .markExecuted 1 11] = some (.executed, 11, some 11) ∧
      lifeAfter [.submit (pollParams "alice" 1), .markPassed 1 11 (UInt64.ofNat (2 ^ 64 - 1)),
        .loadProposal (passedRecord (some 10)), .markExecuted 1 11] =
          some (.executed, 11, some 11) ∧
      lifeAfter [.submit (pollParams "alice" 1), .markPassed 1 11 100,
        .loadProposal (passedRecord none), .markExecuted 1 11] = some (.executed, 11, some 11) ∧
      lifeAfter [.submit (pollParams "alice" 1), .markRejected 1 11,
        .emergencyVeto 1 "admin" ["admin"] 12] = some (.cancelled, 11, some 12) := by
  decide +kernel

end CeruleanLedger.ProposalLifecycle
