import CeruleanLedger.Governance
import CeruleanLedger.GuardedRun

/-!
Whose stake is in the power of which counted vote. A vote is stored under a name that a
signature and a nonce change, while its power is read off the delegations at that moment. So one
stake can be counted again: under another name, or after its holder has delegated or taken a
delegation back.
-/

namespace CeruleanLedger.VotePower

open Governance Staking GuardedRun OrderedMap

section Watching

variable (platform : Platform) (id : ProposalId)

/-- A vote that was counted: who sent it, its power, and the validators whose
stakes are in that power. -/
structure Counted where
  voter : String
  power : UInt64
  sources : List String

inductive Request where
  | delegate (delegator delegate : String)
  | undelegate (delegator : String)
  | vote (body : CastVoteRequest) (height : UInt64)

structure Watched where
  state : GovernanceState
  counted : List Counted

def sourcesOf (staking : StakingManager) (store : VoteStore) (voter : String) : List String :=
  (voter :: store.getDelegators voter).filter fun address => staking.validators.contains address

def countedVote (state : GovernanceState) (body : CastVoteRequest) : Option Counted :=
  match prepareVote platform false state id body with
  | .error _ => none
  | .ok ballot =>
    match ballot.store.castVote id ballot.voter body.option ballot.power state.chainHeight
        ballot.votingEndsAt with
    | .error _ => none
    | .ok _ => some ⟨body.voter, ballot.power, sourcesOf state.staking ballot.store body.voter⟩

def watch (watched : Watched) : Request → Watched
  | .delegate delegator delegate =>
    { watched with state := (delegateVote watched.state delegator delegate).1 }
  | .undelegate delegator =>
    { watched with state := { watched.state with
        voteStore := watched.state.voteStore.map (·.undelegate delegator) } }
  | .vote body height =>
    let state := { watched.state with chainHeight := height }
    ⟨(castGovernanceVote platform false state id body).1,
      (countedVote platform id state body).toList ++ watched.counted⟩

def votedPower (state : GovernanceState) : ℕ :=
  total (fun _ vote => vote.power.toNat) ((state.voteStore.map (·.votesOn id)).getD ∅)

def allStakes (staking : StakingManager) : ℕ :=
  total (fun _ validator => validator.stakedAmount.toNat) staking.validators

structure OneStakeOneVote (watched : Watched) : Prop where
  apart : watched.counted.Pairwise fun first second => first.sources.Disjoint second.sources
  bounded : votedPower id watched.state ≤ allStakes watched.state.staking

/-- If the request is counted, none of its stakes was counted before. -/
def Fresh (watched : Watched) : Request → Prop
  | .delegate _ _ => True
  | .undelegate _ => True
  | .vote body height =>
    ∀ counted ∈ countedVote platform id { watched.state with chainHeight := height } body,
      ∀ earlier ∈ watched.counted, counted.sources.Disjoint earlier.sources

def delegateOf (state : GovernanceState) (address : String) : Option String :=
  state.voteStore.bind (·.getDelegate address)

/-- A request of an address leaves its delegate as it is, unless its stake has not
been counted. -/
def Stays (watched : Watched) (request : Request) (address : String) : Prop :=
  delegateOf (watch platform id watched request).state address =
      delegateOf watched.state address ∨
    ∀ earlier ∈ watched.counted, address ∉ earlier.sources

/-- Counted stakes stay where they are delegated, and nobody is counted twice or
while delegating. -/
def Settled (watched : Watched) : Request → Prop
  | .delegate delegator delegate =>
    Stays platform id watched (.delegate delegator delegate) delegator
  | .undelegate delegator => Stays platform id watched (.undelegate delegator) delegator
  | .vote body height =>
    (countedVote platform id { watched.state with chainHeight := height } body).isSome →
      delegateOf watched.state body.voter = none ∧
        ∀ earlier ∈ watched.counted, earlier.voter ≠ body.voter

end Watching

section Powers

variable (staking : StakingManager) (store : VoteStore) (addresses : List String)

theorem mem_delegators (delegator delegate : String) :
    delegator ∈ store.getDelegators delegate ↔ store.getDelegate delegator = some delegate := by
  simp only [VoteStore.getDelegators, List.mem_map, List.mem_filter, decide_eq_true_eq,
    Prod.exists, exists_and_right, exists_eq_right, Std.ExtTreeMap.mem_toList_iff_getElem?_eq_some,
    VoteStore.getDelegate, exists_eq_right]

theorem sources_nodup (voter : String) : (sourcesOf staking store voter).Nodup := by
  apply List.Nodup.filter
  rw [List.nodup_cons]
  constructor
  · rw [mem_delegators]
    intro own
    exact store.delegations.oneWay voter voter own own
  · exact (keys_nodup store.delegations.map).sublist (List.filter_sublist.map _)

theorem stake_of_stranger {staking : StakingManager} {address : String}
    (stranger : staking.validators.contains address = false) : staking.stakeOf address = 0 := by
  have absent : staking.validators[address]? = none := by
    rw [Std.ExtTreeMap.getElem?_eq_none_of_contains_eq_false stranger]
  rw [StakingManager.stakeOf, StakingManager.getValidator, absent]
  rfl

theorem sum_stakes_filter :
    ((addresses.filter fun address => staking.validators.contains address).map
      staking.stakeOf).sum = (addresses.map staking.stakeOf).sum := by
  induction addresses with
  | nil => rfl
  | cons address rest ih =>
    cases known : staking.validators.contains address with
    | true => simp only [List.filter_cons, known, if_true, List.map_cons, List.sum_cons, ih]
    | false =>
      simp only [List.filter_cons, known, Bool.false_eq_true, if_false, List.map_cons,
        List.sum_cons, ih, stake_of_stranger known, UInt64.zero_add]

theorem sum_validators :
    ((addresses.filterMap staking.getValidator).map Validator.stakedAmount).sum =
      (addresses.map staking.stakeOf).sum := by
  induction addresses with
  | nil => rfl
  | cons address rest ih =>
    cases found : staking.getValidator address with
    | none =>
      simp only [List.filterMap_cons, found, ih, List.map_cons, List.sum_cons,
        StakingManager.stakeOf, Option.map_none, Option.getD_none, UInt64.zero_add]
    | some validator =>
      simp only [List.filterMap_cons, found, ih, List.map_cons, List.sum_cons,
        StakingManager.stakeOf, Option.map_some, Option.getD_some]

theorem voter_power_sources (voter : String) :
    voterPower staking store voter =
      ((sourcesOf staking store voter).map staking.stakeOf).sum := by
  rw [voterPower, sum_validators, sourcesOf, sum_stakes_filter, List.map_cons, List.sum_cons]

theorem sum_toNat_le (values : List UInt64) :
    values.sum.toNat ≤ (values.map UInt64.toNat).sum := by
  induction values with
  | nil => exact Nat.le_refl 0
  | cons value rest ih =>
    rw [List.sum_cons, List.map_cons, List.sum_cons, UInt64.toNat_add]
    exact (Nat.mod_le _ _).trans (Nat.add_le_add_left ih _)

theorem stake_weight (address : String) :
    weightAt (fun _ validator => validator.stakedAmount.toNat) staking.validators address =
      (staking.stakeOf address).toNat := by
  rw [weightAt, StakingManager.stakeOf, StakingManager.getValidator]
  cases staking.validators[address]? <;> rfl

theorem distinct_stakes_le (distinct : addresses.Nodup) :
    (addresses.map fun address => (staking.stakeOf address).toNat).sum ≤ allStakes staking := by
  rw [← funext (stake_weight staking)]
  exact sum_weightAt_le _ _ addresses distinct

end Powers

section Steps

variable {platform : Platform} {id : ProposalId}

theorem prepare_ok {state : GovernanceState} {body : CastVoteRequest} {ballot : Ballot}
    (prepared : prepareVote platform false state id body = .ok ballot) :
    state.voteStore = some ballot.store ∧
      ballot.power = voterPower state.staking ballot.store body.voter := by
  unfold prepareVote at prepared
  split at prepared
  · cases prepared
  split at prepared
  · next store proposals stored _ =>
    split at prepared
    · cases prepared
    split at prepared
    · cases prepared
    dsimp only at prepared
    split at prepared
    · cases prepared
      exact ⟨stored, rfl⟩
    · simp at prepared
  · cases prepared

theorem cast_vote_ok {store after : VoteStore} {voter : String} {option : VoteOption}
    {power height endsAt : UInt64}
    (cast : store.castVote id voter option power height endsAt = .ok after) :
    after.delegations = store.delegations ∧ (store.votesOn id)[voter]? = none ∧
      after.votesOn id = (store.votesOn id).insert voter ⟨voter, id, option, power, height⟩ := by
  unfold VoteStore.castVote at cast
  split at cast
  · cases cast
  split at cast
  · cases cast
  split at cast
  · cases cast
  split at cast
  · cases cast
  next unknown =>
    cases cast
    refine ⟨rfl, ?_, ?_⟩
    · exact Std.ExtTreeMap.getElem?_eq_none_of_contains_eq_false
        (Bool.eq_false_of_not_eq_true unknown)
    · rw [VoteStore.votesOn, get_insert, if_pos rfl]
      rfl

def newVote (state : GovernanceState) (store : VoteStore) (voter : String) : Counted :=
  ⟨voter, voterPower state.staking store voter, sourcesOf state.staking store voter⟩

/-- What a vote request can do: nothing, or add one vote under a new name. -/
inductive VoteOutcome (platform : Platform) (id : ProposalId) (watched : Watched)
    (body : CastVoteRequest) (height : UInt64) : Watched → Prop
  | ignored
      (ignored : countedVote platform id { watched.state with chainHeight := height } body = none) :
      VoteOutcome platform id watched body height
        ⟨{ watched.state with chainHeight := height }, watched.counted⟩
  | counted {store next : VoteStore} {name : String} {vote : Vote}
      (stored : watched.state.voteStore = some store)
      (counts : countedVote platform id { watched.state with chainHeight := height } body =
        some (newVote watched.state store body.voter))
      (kept : next.delegations = store.delegations)
      (unknown : (store.votesOn id)[name]? = none)
      (grown : next.votesOn id = (store.votesOn id).insert name vote)
      (power : vote.power = voterPower watched.state.staking store body.voter) :
      VoteOutcome platform id watched body height
        ⟨{ watched.state with voteStore := some next, chainHeight := height },
          newVote watched.state store body.voter :: watched.counted⟩

theorem watch_vote (platform : Platform) (id : ProposalId) (watched : Watched)
    (body : CastVoteRequest) (height : UInt64) :
    VoteOutcome platform id watched body height
      (watch platform id watched (.vote body height)) := by
  let state := { watched.state with chainHeight := height }
  change VoteOutcome platform id watched body height
    ⟨(castGovernanceVote platform false state id body).1,
      (countedVote platform id state body).toList ++ watched.counted⟩
  cases prepared : prepareVote platform false state id body with
  | error failure =>
    have ignored : countedVote platform id state body = none := by rw [countedVote, prepared]
    rw [ignored, castGovernanceVote, prepared]
    exact .ignored ignored
  | ok ballot =>
    obtain ⟨stored, power⟩ := prepare_ok prepared
    cases cast : ballot.store.castVote id ballot.voter body.option ballot.power
        state.chainHeight ballot.votingEndsAt with
    | error reason =>
      have ignored : countedVote platform id state body = none := by
        simp only [countedVote, prepared, cast]
      have same : (castGovernanceVote platform false state id body).1 = state := by
        simp only [castGovernanceVote, prepared, cast]
      rw [ignored, same]
      exact .ignored ignored
    | ok next =>
      obtain ⟨kept, unknown, grown⟩ := cast_vote_ok cast
      have counts : countedVote platform id state body =
          some (newVote watched.state ballot.store body.voter) := by
        simp only [countedVote, prepared, cast]
        rw [newVote, power]
      have stores : (castGovernanceVote platform false state id body).1 =
          { state with voteStore := some next } := by
        simp only [castGovernanceVote, prepared, cast]
        cases state.paramRegistry <;> rfl
      rw [counts, stores]
      exact .counted stored counts kept unknown grown power

theorem delegate_frame (id : ProposalId) (state : GovernanceState)
    (delegator delegate : String) :
    let after := (delegateVote state delegator delegate).1
    after.staking = state.staking ∧ votedPower id after = votedPower id state ∧
      ∀ other, delegator ≠ other → delegateOf after other = delegateOf state other := by
  intro after
  unfold after delegateVote
  split
  · exact ⟨rfl, rfl, fun _ _ => rfl⟩
  split
  · exact ⟨rfl, rfl, fun _ _ => rfl⟩
  split
  · exact ⟨rfl, rfl, fun _ _ => rfl⟩
  next store stored =>
    split
    · exact ⟨rfl, rfl, fun _ _ => rfl⟩
    next pointed =>
      unfold VoteStore.delegate at pointed
      split at pointed
      · cases pointed
      split at pointed
      · cases pointed
      cases pointed
      refine ⟨rfl, ?_, ?_⟩
      · rw [votedPower, votedPower, stored]
        rfl
      · intro other different
        simp only [delegateOf, stored, Option.bind_some, VoteStore.getDelegate, Delegations.point,
          get_insert, if_neg different]

theorem undelegate_frame (id : ProposalId) (state : GovernanceState) (delegator : String) :
    let after := { state with voteStore := state.voteStore.map (·.undelegate delegator) }
    votedPower id after = votedPower id state ∧
      ∀ other, delegator ≠ other → delegateOf after other = delegateOf state other := by
  cases stored : state.voteStore with
  | none => exact ⟨by simp [votedPower, stored], by simp [delegateOf, stored]⟩
  | some store =>
    refine ⟨?_, ?_⟩
    · rw [votedPower, votedPower, stored]
      rfl
    · intro other different
      simp only [delegateOf, stored, Option.map_some, Option.bind_some, VoteStore.getDelegate,
        VoteStore.undelegate, Delegations.remove, get_erase, if_neg different]

structure Tracked (id : ProposalId) (watched : Watched) : Prop where
  total : votedPower id watched.state =
    (watched.counted.map fun counted => counted.power.toNat).sum
  powers : ∀ counted ∈ watched.counted,
    counted.power = (counted.sources.map watched.state.staking.stakeOf).sum
  distinct : ∀ counted ∈ watched.counted, counted.sources.Nodup

theorem watch_staking (platform : Platform) (id : ProposalId) (watched : Watched)
    (request : Request) :
    (watch platform id watched request).state.staking = watched.state.staking := by
  cases request with
  | delegate delegator delegate => exact (delegate_frame id watched.state delegator delegate).1
  | undelegate delegator => rfl
  | vote body height =>
    have outcome := watch_vote platform id watched body height
    generalize watch platform id watched (.vote body height) = after at outcome ⊢
    cases outcome <;> rfl

theorem watch_tracked (platform : Platform) (id : ProposalId) (watched : Watched)
    (request : Request) (tracked : Tracked id watched) :
    Tracked id (watch platform id watched request) := by
  cases request with
  | delegate delegator delegate =>
    obtain ⟨sameStaking, samePower, _⟩ := delegate_frame id watched.state delegator delegate
    refine ⟨samePower.trans tracked.total, ?_, tracked.distinct⟩
    intro counted member
    exact (tracked.powers counted member).trans (congrArg
      (fun staking => (counted.sources.map staking.stakeOf).sum) sameStaking.symm)
  | undelegate delegator =>
    obtain ⟨samePower, _⟩ := undelegate_frame id watched.state delegator
    exact ⟨samePower.trans tracked.total, tracked.powers, tracked.distinct⟩
  | vote body height =>
    have outcome := watch_vote platform id watched body height
    generalize watch platform id watched (.vote body height) = after at outcome ⊢
    cases outcome with
    | ignored _ => exact ⟨tracked.total, tracked.powers, tracked.distinct⟩
    | @counted store next name vote stored _ _ unknown grown power =>
      have before := tracked.total
      rw [votedPower, stored] at before
      constructor
      · rw [votedPower, Option.map_some, Option.getD_some, grown,
          total_insert_fresh _ _ _ unknown, List.map_cons, List.sum_cons, ← before, power,
          Nat.add_comm]
        rfl
      · intro counted member
        cases member with
        | head => exact voter_power_sources watched.state.staking store body.voter
        | tail _ earlier => exact tracked.powers counted earlier
      · intro counted member
        cases member with
        | head => exact sources_nodup watched.state.staking store body.voter
        | tail _ earlier => exact tracked.distinct counted earlier

theorem Tracked.bounded {watched : Watched} (tracked : Tracked id watched)
    (apart : watched.counted.Pairwise fun first second =>
      first.sources.Disjoint second.sources) :
    votedPower id watched.state ≤ allStakes watched.state.staking := by
  have distinct : (watched.counted.flatMap Counted.sources).Nodup :=
    List.nodup_flatMap.mpr ⟨tracked.distinct, apart⟩
  refine le_trans ?_ (distinct_stakes_le watched.state.staking _ distinct)
  rw [tracked.total, List.map_flatMap, List.flatMap_def, List.sum_flatten, List.map_map]
  apply List.sum_le_sum
  intro counted member
  rw [tracked.powers counted member]
  refine (sum_toNat_le _).trans (le_of_eq ?_)
  rw [List.map_map]
  rfl

theorem watch_apart_iff (watched : Watched) (request : Request) (tracked : Tracked id watched)
    (law : OneStakeOneVote id watched) :
    OneStakeOneVote id (watch platform id watched request) ↔
      Fresh platform id watched request := by
  have tracked' := watch_tracked platform id watched request tracked
  have reduce : OneStakeOneVote id (watch platform id watched request) ↔
      (watch platform id watched request).counted.Pairwise fun first second =>
        first.sources.Disjoint second.sources :=
    ⟨OneStakeOneVote.apart, fun apart => ⟨apart, tracked'.bounded apart⟩⟩
  rw [reduce]
  cases request with
  | vote body height =>
    have outcome := watch_vote platform id watched body height
    generalize watch platform id watched (.vote body height) = after at outcome ⊢
    cases outcome with
    | ignored ignored =>
      refine iff_of_true law.apart ?_
      intro counted counts
      rw [ignored] at counts
      cases counts
    | @counted store next name vote stored counts _ _ _ _ =>
      rw [List.pairwise_cons, Fresh, counts]
      simp only [Option.mem_some_iff, forall_eq']
      exact and_iff_left law.apart
  | _ => exact iff_of_true law.apart trivial

end Steps

section Discipline

variable {platform : Platform} {id : ProposalId}

/-- Every counted stake is the voter's own, who delegates to nobody, or is still
delegated to the voter. -/
def Anchored (watched : Watched) : Prop :=
  ∀ counted ∈ watched.counted, ∀ address ∈ counted.sources,
    (address = counted.voter ∧ delegateOf watched.state address = none) ∨
      delegateOf watched.state address = some counted.voter

theorem sources_anchored {state : GovernanceState} {store : VoteStore} {voter address : String}
    (stored : state.voteStore = some store) (free : delegateOf state voter = none)
    (source : address ∈ sourcesOf state.staking store voter) :
    (address = voter ∧ delegateOf state address = none) ∨
      delegateOf state address = some voter := by
  have member := (List.mem_filter.mp source).1
  cases member with
  | head => exact .inl ⟨rfl, free⟩
  | tail _ delegator =>
    right
    rw [delegateOf, stored]
    exact (mem_delegators store address voter).mp delegator

/-- A change at one address leaves the counted stakes anchored, if it is none of
them or keeps its delegate. -/
theorem anchored_change {watched : Watched} {state : GovernanceState} {address : String}
    (anchored : Anchored watched)
    (elsewhere : ∀ other, address ≠ other →
      delegateOf state other = delegateOf watched.state other)
    (stays : delegateOf state address = delegateOf watched.state address ∨
      ∀ earlier ∈ watched.counted, address ∉ earlier.sources) :
    Anchored ⟨state, watched.counted⟩ := by
  intro counted member other source
  have same : delegateOf state other = delegateOf watched.state other := by
    by_cases own : address = other
    · subst own
      exact stays.resolve_right fun uncounted => uncounted counted member source
    · exact elsewhere other own
  rw [same]
  exact anchored counted member other source

theorem watch_anchored (watched : Watched) (request : Request) (anchored : Anchored watched)
    (settled : Settled platform id watched request) :
    Anchored (watch platform id watched request) := by
  cases request with
  | delegate delegator delegate =>
    exact anchored_change anchored
      (delegate_frame id watched.state delegator delegate).2.2 settled
  | undelegate delegator =>
    exact anchored_change anchored (undelegate_frame id watched.state delegator).2 settled
  | vote body height =>
    have outcome := watch_vote platform id watched body height
    generalize watch platform id watched (.vote body height) = after at outcome ⊢
    cases outcome with
    | ignored _ => exact anchored
    | @counted store next name vote stored counts kept _ _ _ =>
      have same : ∀ address, (some next).bind (·.getDelegate address) =
          delegateOf watched.state address := by
        intro address
        rw [delegateOf, stored, Option.bind_some, Option.bind_some, VoteStore.getDelegate,
          VoteStore.getDelegate, kept]
      have free := (settled (by rw [counts]; rfl)).1
      intro counted member address source
      simp only [delegateOf, same]
      cases member with
      | head => exact sources_anchored stored free source
      | tail _ earlier => exact anchored counted earlier address source

/-- While the counted stakes are anchored, a settled request brings fresh ones. -/
theorem settled_fresh (watched : Watched) (request : Request) (anchored : Anchored watched)
    (settled : Settled platform id watched request) : Fresh platform id watched request := by
  cases request with
  | vote body height =>
    intro counted counts earlier member address source counted'
    obtain ⟨free, unvoted⟩ := settled (by rw [counts]; rfl)
    have outcome := watch_vote platform id watched body height
    generalize watch platform id watched (.vote body height) = after at outcome
    cases outcome with
    | ignored ignored => exact nomatch ignored.symm.trans counts
    | @counted store next name vote stored counts' _ _ _ _ =>
      cases counts'.symm.trans counts
      have here := sources_anchored stored free source
      have there := anchored earlier member address counted'
      -- The stake cannot sit with two voters.
      rcases here with ⟨rfl, alone⟩ | delegated
      · rcases there with ⟨same, _⟩ | away
        · exact unvoted earlier member same.symm
        · exact nomatch alone.symm.trans away
      · rcases there with ⟨_, alone⟩ | away
        · exact nomatch alone.symm.trans delegated
        · exact unvoted earlier member (Option.some.inj (away.symm.trans delegated))
  | _ => trivial

end Discipline

section Runs

variable (platform : Platform) (id : ProposalId)

def watchedFrom (state : GovernanceState) (delegations : Delegations) : Watched :=
  ⟨{ state with voteStore := some ⟨∅, delegations⟩ }, []⟩

theorem watched_from_tracked (state : GovernanceState) (delegations : Delegations) :
    Tracked id (watchedFrom state delegations) := by
  refine ⟨?_, by simp [watchedFrom], by simp [watchedFrom]⟩
  have none : (∅ : Std.ExtTreeMap ProposalId (Std.ExtTreeMap String Vote))[id]? = none := by simp
  simp only [votedPower, watchedFrom, Option.map_some, Option.getD_some, VoteStore.votesOn, none,
    Option.getD_none, total_empty, List.map_nil, List.sum_nil]

/-- For every staking state and every sequence of requests, each stake is in at
most one counted vote exactly if every counted vote brings fresh stakes, and then
the voted power is at most the sum of all stakes. Settled requests suffice. The
record of counted votes is that of the store throughout, and no request changes
a stake. -/
theorem stake_counted_once_iff (state : GovernanceState) (delegations : Delegations)
    (requests : List Request) :
    let start := watchedFrom state delegations
    let after := requests.foldl (watch platform id) start
    ((∀ count, OneStakeOneVote id ((requests.take count).foldl (watch platform id) start)) ↔
      AllMeet (watch platform id) (Fresh platform id) start requests) ∧
    (AllMeet (watch platform id) (Settled platform id) start requests →
      AllMeet (watch platform id) (Fresh platform id) start requests) ∧
    Tracked id after ∧ after.state.staking = state.staking := by
  intro start after
  have tracked := watched_from_tracked id state delegations
  refine ⟨?_, ?_, run_keeps (Tracked id) start requests tracked (watch_tracked platform id), ?_⟩
  · have initial : OneStakeOneVote id start := ⟨.nil, tracked.bounded .nil⟩
    exact prefixes_hold_given_iff (Tracked id) (OneStakeOneVote id) (watch_tracked platform id)
      watch_apart_iff start requests tracked initial
  · exact all_meet_imp Anchored (Fresh platform id) watch_anchored settled_fresh start requests
      (fun counted member => nomatch member)
  · exact run_keeps (fun watched => watched.state.staking = state.staking) start requests rfl
      fun watched request same => (watch_staking platform id watched request).trans same

end Runs

def openPlatform : Platform where
  sha256 data := Vector.ofFn fun place => data.reverse.getD place 0
  keyDecodes _ := true
  verify _ _ _ := true

def holderKey : String := ByteCodec.hexEncode (List.replicate 32 0)

def holder : String := "did:cerulean:" ++ shortDigest openPlatform (List.replicate 32 0)

def pollState : GovernanceState where
  voteStore := none
  proposalStore := some { ProposalStore.new with
    proposals := (∅ : Std.ExtTreeMap ProposalId Proposal).insert 1
      ⟨1, holder, .textProposal "title" "text", .voting, 0, 0, 100, none, none, "poll"⟩ }
  paramRegistry := some ∅
  staking := { StakingManager.new none none none with
    validators := ((∅ : Std.ExtTreeMap String Validator).insert holder
      (Validator.new holder 1000 0)).insert "bob" (Validator.new "bob" 1000 0) }
  chainHeight := 0

def plainVote (voter : String) : Request := .vote ⟨voter, .yes, none, none, none⟩ 10

def signedVote (nonce : String) : Request :=
  .vote ⟨holder, .yes, some (ByteCodec.hexEncode (List.replicate 64 0)), some holderKey,
    some nonce⟩ 10

def polled (requests : List Request) : GovernanceState :=
  (requests.foldl (watch openPlatform 1) (watchedFrom pollState .empty)).state

/-- With stakes of 2000 in all, 3000 are voted: under three nonces, by delegating
after the vote, and by a signed vote while delegating. -/
theorem stake_voted_again :
    allStakes pollState.staking = 2000 ∧
      votedPower 1 (polled [signedVote "1", signedVote "2", signedVote "3"]) = 3000 ∧
      votedPower 1 (polled [plainVote holder, .delegate holder "bob", plainVote "bob"]) = 3000 ∧
      votedPower 1 (polled [.delegate holder "bob", plainVote "bob", signedVote "1"]) = 3000 := by
  decide +kernel

end CeruleanLedger.VotePower
