import CeruleanLedger.WeightedTurns

/-!
Committee selection and stake-weighted leaders: `consensus/dpos.rs`. Stakes are
summed as in a release build. The stable sort of the standard library is insertion
sort here; a stable sort has one result.
-/

namespace CeruleanLedger.StakeCommittee

open WeightedTurns

structure ValidatorStake where
  address : String
  stake : UInt64
  active : Bool
  deriving DecidableEq

structure DposConfig where
  maxValidators : Nat
  minStake : UInt64

def DposConfig.default : DposConfig := ⟨150, 1000⟩

structure ValidatorCommittee where
  members : List ValidatorStake
  totalStake : UInt64
  epoch : UInt64
  deriving DecidableEq

/-- The loop of `leader_for_round`; `none` goes to the fallback after it. -/
def leaderAt (position : UInt64) : UInt64 → List ValidatorStake → Option String
  | _, [] => none
  | cumulative, member :: rest =>
    let cumulative := cumulative + member.stake
    if position < cumulative then some member.address else leaderAt position cumulative rest

def ValidatorCommittee.leaderForRound (committee : ValidatorCommittee) (round : UInt64) :
    Option String :=
  if committee.members.isEmpty || committee.totalStake == 0 then none
  else match leaderAt (round % committee.totalStake) 0 committee.members with
    | some leader => some leader
    | none => committee.members.getLast?.map ValidatorStake.address

/-- The comparison of `sort_by`: stake descending, then address ascending. -/
def committeeOrder (left right : ValidatorStake) : Ordering :=
  (compare right.stake left.stake).then (compare left.address right.address)

def NotAfter (left right : ValidatorStake) : Prop := (committeeOrder left right).isLE = true
  deriving Decidable

def eligible (candidates : List ValidatorStake) (config : DposConfig) : List ValidatorStake :=
  candidates.filter fun candidate => candidate.active && candidate.stake ≥ config.minStake

def selectCommittee (candidates : List ValidatorStake) (config : DposConfig) (epoch : UInt64) :
    ValidatorCommittee :=
  let members := ((eligible candidates config).insertionSort NotAfter).take config.maxValidators
  { members
    totalStake := members.foldl (fun total member => total + member.stake) 0
    epoch }

section Selection

def Ahead (left right : ValidatorStake) : Prop :=
  right.stake < left.stake ∨ right.stake = left.stake ∧ left.address ≤ right.address

theorem not_after_iff (left right : ValidatorStake) : NotAfter left right ↔ Ahead left right := by
  have stakes : compare right.stake left.stake =
      if right.stake < left.stake then .lt
      else if right.stake = left.stake then .eq else .gt := rfl
  have addresses : compare left.address right.address =
      if left.address < right.address then .lt
      else if left.address = right.address then .eq else .gt := rfl
  unfold NotAfter Ahead committeeOrder
  rw [stakes, addresses, le_iff_lt_or_eq]
  by_cases more : right.stake < left.stake
  · simp [more]
  · by_cases same : right.stake = left.stake
    · by_cases earlier : left.address < right.address
      · simp [same, earlier]
      · by_cases equal : left.address = right.address
        · simp [same, equal]
        · simp [same, earlier, equal]
    · simp [more, same]

instance : Std.Total NotAfter where
  total := by
    intro left right
    rw [not_after_iff, not_after_iff]
    unfold Ahead
    by_cases same : left.stake = right.stake
    · rcases le_total left.address right.address with first | second
      · exact Or.inl (Or.inr ⟨same.symm, first⟩)
      · exact Or.inr (Or.inr ⟨same, second⟩)
    · rcases UInt64.lt_or_lt_of_ne same with less | more
      · exact Or.inr (Or.inl less)
      · exact Or.inl (Or.inl more)

instance : IsTrans ValidatorStake NotAfter where
  trans := by
    intro left middle right
    rw [not_after_iff, not_after_iff, not_after_iff]
    unfold Ahead
    rintro (more | ⟨same, address⟩) (more' | ⟨same', address'⟩)
    · exact Or.inl (UInt64.lt_trans more' more)
    · exact Or.inl (same' ▸ more)
    · exact Or.inl (same ▸ more')
    · exact Or.inr ⟨same'.trans same, le_trans address address'⟩

structure Ranks (candidates : List ValidatorStake) (config : DposConfig)
    (ranking : List ValidatorStake) : Prop where
  listed : ranking.Perm (eligible candidates config)
  ordered : ranking.Pairwise Ahead

variable {candidates : List ValidatorStake} {config : DposConfig}

theorem sorted_ranks : Ranks candidates config
    ((eligible candidates config).insertionSort NotAfter) where
  listed := List.perm_insertionSort _ _
  ordered := (List.pairwise_insertionSort NotAfter _).imp fun {left right} =>
    (not_after_iff left right).mp

theorem eligible_active {candidate : ValidatorStake}
    (member : candidate ∈ eligible candidates config) : candidate.active = true := by
  have checked := (List.mem_filter.mp member).2
  simp only [Bool.and_eq_true] at checked
  exact checked.1

theorem eligible_tie {left right : ValidatorStake}
    (first : left ∈ eligible candidates config) (second : right ∈ eligible candidates config)
    (ahead : Ahead left right) (behind : Ahead right left) : left = right := by
  have active : left.active = right.active :=
    (eligible_active first).trans (eligible_active second).symm
  have stakes : left.stake = right.stake := by
    rcases ahead with more | ⟨same, _⟩
    · rcases behind with more' | ⟨same', _⟩
      · exact absurd (UInt64.lt_trans more more') (UInt64.lt_irrefl _)
      · exact same'
    · exact same.symm
  have addresses : left.address = right.address := by
    rcases ahead with more | ⟨_, address⟩
    · exact absurd (stakes ▸ more) (UInt64.lt_irrefl _)
    · rcases behind with more' | ⟨_, address'⟩
      · exact absurd (stakes ▸ more') (UInt64.lt_irrefl _)
      · exact le_antisymm address address'
  cases left
  cases right
  simp only at active stakes addresses
  subst active stakes addresses
  rfl

theorem ranking_unique {ranking other : List ValidatorStake}
    (ranks : Ranks candidates config ranking) (ranks' : Ranks candidates config other) :
    other = ranking := by
  apply List.Perm.eq_of_pairwise _ ranks'.ordered ranks.ordered
    (ranks'.listed.trans ranks.listed.symm)
  intro left right first second ahead behind
  exact eligible_tie (ranks'.listed.mem_iff.mp first) (ranks.listed.mem_iff.mp second) ahead
    behind

/-- Every copy of the pool yields the same committee: the best of its one ranking. -/
theorem committee_order_free (candidates reordered : List ValidatorStake) (config : DposConfig)
    (epoch : UInt64) (same : candidates.Perm reordered) :
    selectCommittee candidates config epoch = selectCommittee reordered config epoch ∧
      ∃ ranking, Ranks candidates config ranking ∧
        (∀ other, Ranks candidates config other → other = ranking) ∧
        (selectCommittee candidates config epoch).members =
          ranking.take config.maxValidators := by
  constructor
  · have sorted : (eligible reordered config).insertionSort NotAfter =
        (eligible candidates config).insertionSort NotAfter :=
      ranking_unique sorted_ranks ⟨sorted_ranks.listed.trans (same.symm.filter _),
        sorted_ranks.ordered⟩
    rw [selectCommittee, selectCommittee, sorted]
  · exact ⟨_, sorted_ranks, fun _ => ranking_unique sorted_ranks, rfl⟩

end Selection

section Leaders

def stakeOf (member : ValidatorStake) : Nat := member.stake.toNat

theorem leader_at_claim (position : UInt64) (members : List ValidatorStake)
    (cumulative : UInt64) :
    leaderAt position cumulative members =
      (claim ValidatorStake.stake position cumulative members).map ValidatorStake.address := by
  induction members generalizing cumulative with
  | nil => rfl
  | cons member rest ih =>
    simp only [leaderAt, claim]
    split
    · rfl
    · exact ih _

variable {committee : ValidatorCommittee}

/-- A committee as `select_committee` leaves it, with stakes that a counter holds. -/
structure Counts (committee : ValidatorCommittee) : Prop where
  total : committee.totalStake.toNat = totalWeight stakeOf committee.members
  positive : 0 < committee.totalStake.toNat

theorem Counts.fits (counts : Counts committee) :
    totalWeight stakeOf committee.members < 2 ^ 64 := by
  rw [← counts.total]
  exact committee.totalStake.toNat_lt

theorem loop_returns (counts : Counts committee) (round : UInt64) :
    leaderAt (round % committee.totalStake) 0 committee.members =
        (owner stakeOf committee.members
          (round.toNat % totalWeight stakeOf committee.members)).map ValidatorStake.address ∧
      ∃ leader, leaderAt (round % committee.totalStake) 0 committee.members = some leader := by
  have walked : leaderAt (round % committee.totalStake) 0 committee.members =
      (owner stakeOf committee.members
        (round.toNat % totalWeight stakeOf committee.members)).map ValidatorStake.address := by
    rw [leader_at_claim, claim_eq_owner _ counts.fits, UInt64.toNat_mod, counts.total]
    rfl
  have inside : round.toNat % totalWeight stakeOf committee.members <
      totalWeight stakeOf committee.members := by
    apply Nat.mod_lt
    rw [← counts.total]
    exact counts.positive
  obtain ⟨member, found⟩ := owner_exists stakeOf inside
  exact ⟨walked, member.address, by rw [walked, found]; rfl⟩

theorem leader_for_round_loop (counts : Counts committee) (round : UInt64) :
    committee.leaderForRound round =
      leaderAt (round % committee.totalStake) 0 committee.members := by
  obtain ⟨_, leader, returned⟩ := loop_returns counts round
  have some : committee.members.isEmpty = false := by
    cases members : committee.members with
    | nil =>
      have none := counts.total
      rw [members] at none
      exact absurd none counts.positive.ne'
    | cons member rest => rfl
  have stake : (committee.totalStake == 0) = false := by
    rw [beq_eq_false_iff_ne]
    intro zero
    have positive := counts.positive
    rw [zero] at positive
    exact absurd positive (Nat.lt_irrefl 0)
  rw [ValidatorCommittee.leaderForRound, some, stake, returned]
  rfl

def roundsLed (committee : ValidatorCommittee) (start : Nat) (address : String) : Finset Nat :=
  (Finset.Ico start (start + committee.totalStake.toNat)).filter fun round =>
    committee.leaderForRound (UInt64.ofNat round) = some address

theorem rounds_led_card (counts : Counts committee)
    (distinct : (committee.members.map ValidatorStake.address).Nodup) (start : Nat)
    (window : start + committee.totalStake.toNat ≤ 2 ^ 64) {member : ValidatorStake}
    (inside : member ∈ committee.members) :
    (roundsLed committee start member.address).card = member.stake.toNat := by
  have led : roundsLed committee start member.address =
      (Finset.Ico start (start + totalWeight stakeOf committee.members)).filter fun round =>
        owner stakeOf committee.members
          (round % totalWeight stakeOf committee.members) = some member := by
    rw [roundsLed, counts.total]
    apply Finset.filter_congr
    intro round listed
    have below : round < 2 ^ 64 := by
      have upper := (Finset.mem_Ico.mp listed).2
      rw [← counts.total] at upper
      omega
    rw [leader_for_round_loop counts, (loop_returns counts _).1, Option.map_eq_some_iff,
      UInt64.toNat_ofNat_of_lt' below]
    constructor
    · rintro ⟨chosen, found, same⟩
      rw [found, List.inj_on_of_nodup_map distinct (owner_mem stakeOf found) inside same]
    · intro found
      exact ⟨member, found, rfl⟩
  rw [led, count_turns stakeOf distinct.of_map inside start]
  rfl

theorem selected_counts (candidates : List ValidatorStake) (config : DposConfig) (epoch : UInt64)
    (fits : totalWeight stakeOf (selectCommittee candidates config epoch).members ≤ 2 ^ 64 - 1)
    (staked : ∃ member ∈ (selectCommittee candidates config epoch).members,
      member.stake ≠ 0) : Counts (selectCommittee candidates config epoch) := by
  have total : (selectCommittee candidates config epoch).totalStake.toNat =
      totalWeight stakeOf (selectCommittee candidates config epoch).members :=
    total_stake ValidatorStake.stake (Nat.lt_succ_of_le fits)
  refine ⟨total, ?_⟩
  obtain ⟨member, inside, some⟩ := staked
  rw [total]
  have part : stakeOf member ≤ totalWeight stakeOf _ :=
    List.single_le_sum (fun _ _ => Nat.zero_le _) _ (List.mem_map.mpr ⟨member, inside, rfl⟩)
  have positive : 0 < stakeOf member := by
    apply Nat.pos_of_ne_zero
    intro zero
    exact some (UInt64.toNat_inj.mp zero)
  omega

theorem selected_distinct {candidates : List ValidatorStake} (config : DposConfig)
    (epoch : UInt64) (distinct : (candidates.map ValidatorStake.address).Nodup) :
    ((selectCommittee candidates config epoch).members.map ValidatorStake.address).Nodup := by
  have kept : ((eligible candidates config).map ValidatorStake.address).Nodup :=
    distinct.sublist (List.filter_sublist.map _)
  have sorted := (List.perm_insertionSort NotAfter (eligible candidates config)).map
    ValidatorStake.address
  exact (sorted.nodup_iff.mpr kept).sublist ((List.take_sublist _ _).map _)

/-- Over as many consecutive rounds as the committee has stake, from any round on,
each member leads exactly its stake of them, and the loop always finds the leader. -/
theorem leaders_proportional (candidates : List ValidatorStake) (config : DposConfig)
    (epoch : UInt64) (distinct : (candidates.map ValidatorStake.address).Nodup)
    (fits : totalWeight stakeOf (selectCommittee candidates config epoch).members ≤ 2 ^ 64 - 1)
    (staked : ∃ member ∈ (selectCommittee candidates config epoch).members, member.stake ≠ 0)
    (start : Nat)
    (window : start + (selectCommittee candidates config epoch).totalStake.toNat ≤ 2 ^ 64) :
    (selectCommittee candidates config epoch).totalStake.toNat =
        totalWeight stakeOf (selectCommittee candidates config epoch).members ∧
      (∀ member ∈ (selectCommittee candidates config epoch).members,
        (roundsLed (selectCommittee candidates config epoch) start member.address).card =
          member.stake.toNat) ∧
      ∀ round, ∃ leader,
        leaderAt (round % (selectCommittee candidates config epoch).totalStake) 0
          (selectCommittee candidates config epoch).members = some leader ∧
        (selectCommittee candidates config epoch).leaderForRound round = some leader := by
  have counts := selected_counts candidates config epoch fits staked
  refine ⟨counts.total, ?_, ?_⟩
  · intro member inside
    exact rounds_led_card counts (selected_distinct config epoch distinct) start window inside
  · intro round
    obtain ⟨_, leader, returned⟩ := loop_returns counts round
    exact ⟨leader, returned, by rw [leader_for_round_loop counts, returned]⟩

end Leaders

def threeCandidates : List ValidatorStake :=
  [⟨"c", 1000, true⟩, ⟨"a", 3000, true⟩, ⟨"b", 1000, true⟩, ⟨"d", 9000, false⟩]

theorem three_candidates_lead :
    (roundsLed (selectCommittee threeCandidates .default 0) 6000 "a").card = 3000 :=
  (leaders_proportional threeCandidates .default 0 (by decide) (by decide)
    ⟨⟨"a", 3000, true⟩, by decide, by decide⟩ 6000 (by decide)).2.1 ⟨"a", 3000, true⟩ (by decide)

theorem three_candidates_reversed :
    (selectCommittee threeCandidates ⟨2, 1000⟩ 0).members =
        [⟨"a", 3000, true⟩, ⟨"b", 1000, true⟩] ∧
      selectCommittee threeCandidates ⟨2, 1000⟩ 0 =
        selectCommittee threeCandidates.reverse ⟨2, 1000⟩ 0 :=
  ⟨by decide, (committee_order_free threeCandidates threeCandidates.reverse ⟨2, 1000⟩ 0
    (List.reverse_perm _).symm).1⟩

end CeruleanLedger.StakeCommittee
