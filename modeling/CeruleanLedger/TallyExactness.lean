import CeruleanLedger.Governance
import CeruleanLedger.IterationOrder

/-!
The tally against the comparison of percentages over the unbounded integers. Sums
and products saturate at `2 ^ 64 - 1`, the division rounds down; both flags are the
exact comparison cut off where a product no longer fits.
-/

namespace CeruleanLedger.TallyExactness

open Governance Governance.VoteStore IterationOrder Staking

def exactPower (option : VoteOption) (votes : List Vote) : Nat :=
  ((votes.filter (·.option = option)).map (·.power.toNat)).sum

theorem saturating_mul_toNat (left right : UInt64) :
    (saturatingMul left right).toNat = min (left.toNat * right.toNat) (2 ^ 64 - 1) := by
  unfold saturatingMul
  split
  · next fits =>
    rw [UInt64.toNat_mul, Nat.mod_eq_of_lt fits]
    omega
  · next full =>
    rw [UInt64.toNat_ofNat_of_lt' (by decide)]
    omega

theorem power_for_toNat (option : VoteOption) (votes : List Vote) :
    (powerFor option votes).toNat = min (exactPower option votes) (2 ^ 64 - 1) := by
  have summed : ∀ start : UInt64, (votes.foldl (fun sum vote =>
      if vote.option = option then saturatingAdd sum vote.power else sum) start).toNat =
        min (start.toNat + exactPower option votes) (2 ^ 64 - 1) := by
    induction votes with
    | nil =>
      intro start
      have bound := start.toNat_lt
      simp [exactPower]
      omega
    | cons vote rest ih =>
      intro start
      rw [List.foldl_cons, ih]
      by_cases own : vote.option = option
      · simp only [own, ↓reduceIte, saturating_add_toNat, exactPower, decide_true,
          List.filter_cons_of_pos, List.map_cons, List.sum_cons]
        omega
      · simp [own, exactPower]
  simpa [powerFor] using summed 0

theorem power_for_arranged (order : Arrangement Vote) (option : VoteOption) (votes : List Vote) :
    powerFor option (order.arrange votes) = powerFor option votes := by
  have same : exactPower option (order.arrange votes) = exactPower option votes :=
    (((order.perm votes).filter _).map _).sum_eq
  apply UInt64.toNat_inj.mp
  rw [power_for_toNat, power_for_toNat, same]

section Flags

/-- A percentage, rounded down, of what saturates. -/
theorem percent_le_iff {percent whole part : UInt64} {exact : Nat}
    (saturated : part.toNat = min exact (2 ^ 64 - 1)) (positive : 0 < whole) :
    percent ≤ saturatingMul part 100 / whole ↔
      percent.toNat * whole.toNat ≤ 100 * exact ∧ percent.toNat * whole.toNat < 2 ^ 64 := by
  rw [UInt64.le_iff_toNat_le, UInt64.toNat_div,
    Nat.le_div_iff_mul_le (UInt64.lt_iff_toNat_lt.mp positive), saturating_mul_toNat, saturated]
  generalize percent.toNat * whole.toNat = product
  have hundred : (100 : UInt64).toNat = 100 := rfl
  rw [hundred]
  omega

/-- The share of the votes for a proposal is compared with a sum that is cut off
at the top, which only a threshold of one percent can pass where it should not. -/
theorem share_iff (percent whole part : Nat) :
    (percent * min whole (2 ^ 64 - 1) ≤ 100 * part ∧ percent * min whole (2 ^ 64 - 1) < 2 ^ 64) ↔
      (percent * whole ≤ 100 * part ∧ percent * min whole (2 ^ 64 - 1) < 2 ^ 64) ∨
        (percent = 1 ∧ 2 ^ 64 - 1 ≤ 100 * part ∧ 100 * part < whole) := by
  match percent with
  | 0 => simp
  | 1 => omega
  | percent + 2 =>
    by_cases fits : whole < 2 ^ 64
    · rw [Nat.min_eq_left (by omega)]
      omega
    · have large : 2 * min whole (2 ^ 64 - 1) ≤ (percent + 2) * min whole (2 ^ 64 - 1) :=
        Nat.mul_le_mul_right _ (Nat.le_add_left 2 percent)
      omega

/-- What passes as it should or wrongly is right if it fits and is not wrong. -/
theorem passed_exact_iff {reached fits voted enough small wrong : Prop}
    (excess : wrong → voted ∧ ¬ enough) :
    ((reached ∧ fits) ∧ voted ∧ (enough ∧ small ∨ wrong) ↔ reached ∧ voted ∧ enough) ↔
      (reached ∧ voted ∧ enough → fits ∧ small) ∧ ¬ (reached ∧ fits ∧ wrong) := by
  by_cases bad : wrong
  · simp [bad, excess bad]
  · simp only [bad, or_false, and_false, not_false_eq_true, and_true]
    constructor
    · intro same counted
      obtain ⟨⟨_, fit⟩, _, _, less⟩ := same.mpr counted
      exact ⟨fit, less⟩
    · intro counted
      constructor
      · rintro ⟨⟨quorate, _⟩, some, most, _⟩
        exact ⟨quorate, some, most⟩
      · intro passes
        obtain ⟨fit, less⟩ := counted passes
        exact ⟨⟨passes.1, fit⟩, passes.2.1, passes.2.2, less⟩

variable (store : VoteStore) (order : Arrangement Vote) (id : ProposalId)

def castFor (option : VoteOption) : Nat := exactPower option (store.getVotes id)

def decided : Nat := castFor store id .yes + castFor store id .no

variable (staked quorum threshold : UInt64)

/-- The three sums, and with them the tally, do not depend on the order. -/
theorem tally_arranged :
    store.tally order id staked quorum threshold =
      store.tally .asStored id staked quorum threshold := by
  simp only [tally, power_for_arranged]

theorem quorum_reached_iff (positive : 0 < staked) :
    (store.tally order id staked quorum threshold).quorumReached = true ↔
      quorum.toNat * staked.toNat ≤ 100 * (decided store id + castFor store id .abstain) ∧
        quorum.toNat * staked.toNat < 2 ^ 64 := by
  simp only [tally, power_for_arranged, positive, decide_true, Bool.true_and, decide_eq_true_eq]
  apply percent_le_iff _ positive
  simp only [saturating_add_toNat, power_for_toNat, decided, castFor]
  omega

theorem passed_iff :
    (store.tally order id staked quorum threshold).passed = true ↔
      (store.tally order id staked quorum threshold).quorumReached = true ∧
        0 < decided store id ∧
        threshold.toNat * min (decided store id) (2 ^ 64 - 1) ≤ 100 * castFor store id .yes ∧
        threshold.toNat * min (decided store id) (2 ^ 64 - 1) < 2 ^ 64 := by
  have whole : (saturatingAdd (powerFor .yes (store.getVotes id))
      (powerFor .no (store.getVotes id))).toNat = min (decided store id) (2 ^ 64 - 1) := by
    simp only [decided, castFor, saturating_add_toNat, power_for_toNat]
    omega
  have voted : 0 < saturatingAdd (powerFor .yes (store.getVotes id))
      (powerFor .no (store.getVotes id)) ↔ 0 < decided store id := by
    rw [UInt64.lt_iff_toNat_lt, whole, UInt64.toNat_zero]
    omega
  simp only [tally, power_for_arranged, Bool.and_eq_true, and_assoc, decide_eq_true_eq, voted]
  apply and_congr_right
  intro staking
  apply and_congr_right
  intro quorate
  apply and_congr_right
  intro positive
  rw [percent_le_iff (power_for_toNat .yes _) (voted.mpr positive), whole]
  rfl

/-- The quorum is exact unless its product does not fit. The outcome is exact unless
one of the products does not fit where it should pass, or the sum of the votes for
and against is cut off and a threshold of one percent lets too few through. The
order of the votes does not matter. -/
theorem tally_exact_iff (positive : 1 ≤ staked) :
    let result := store.tally order id staked quorum threshold
    let yes := castFor store id .yes
    let reached := quorum.toNat * staked.toNat ≤
      100 * (decided store id + castFor store id .abstain)
    let passes := reached ∧ 0 < decided store id ∧
      threshold.toNat * decided store id ≤ 100 * yes
    ((result.quorumReached = true ↔ reached) ↔
        (reached → quorum.toNat * staked.toNat < 2 ^ 64)) ∧
      ((result.passed = true ↔ passes) ↔
        (passes → quorum.toNat * staked.toNat < 2 ^ 64 ∧
          threshold.toNat * min (decided store id) (2 ^ 64 - 1) < 2 ^ 64) ∧
        ¬ (reached ∧ quorum.toNat * staked.toNat < 2 ^ 64 ∧ threshold.toNat = 1 ∧
          2 ^ 64 - 1 ≤ 100 * yes ∧ 100 * yes < decided store id)) ∧
      ∀ other, store.tally other id staked quorum threshold = result := by
  intro result yes reached passes
  have quorate := quorum_reached_iff store order id staked quorum threshold positive
  refine ⟨?_, ?_, fun other => ?_⟩
  · rw [quorate]
    exact and_iff_left_iff_imp
  · rw [passed_iff, quorate, share_iff]
    apply passed_exact_iff
    rintro ⟨one, _, more⟩
    rw [one, Nat.one_mul]
    exact ⟨Nat.zero_lt_of_lt more, Nat.not_le.mpr more⟩
  · exact (tally_arranged store other id staked quorum threshold).trans
      (tally_arranged store order id staked quorum threshold).symm

end Flags

def votesCast (votes : List (String × VoteOption × UInt64)) : VoteStore :=
  votes.foldl (fun store (voter, option, power) =>
    (store.castVote 1 voter option power 10 20).toOption.getD store) .new

theorem small_quorum_reached :
    ((votesCast [("ana", .yes, 60)]).tally .asStored 1 100 33 67).quorumReached = true :=
  ((tally_exact_iff (votesCast [("ana", .yes, 60)]) .asStored 1 100 33 67 (by decide)).1.mpr
    (by decide +kernel)).mpr (by decide +kernel)

/-- Everybody votes, and a quorum of a third is not reached; and one vote in a
hundred is too little, and is enough. -/
theorem tally_inexact :
    let turnout := votesCast [("ana", .yes, 2 ^ 63)]
    let divided := votesCast [("ana", .yes, 184467440737095517), ("ben", .no, 2 ^ 64 - 1)]
    (turnout.tally .asStored 1 (2 ^ 63) 33 67).quorumReached = false ∧
      33 * 2 ^ 63 ≤ 100 * (decided turnout 1 + castFor turnout 1 .abstain) ∧
      (divided.tally .asStored 1 1 1 1).passed = true ∧
      ¬ 1 * decided divided 1 ≤ 100 * castFor divided 1 .yes := by
  decide +kernel

end CeruleanLedger.TallyExactness
