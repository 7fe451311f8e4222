import CeruleanLedger.GuardedRun
import CeruleanLedger.OracleCollateral
import CeruleanLedger.OrderedMap

/-!
Where the deposited collateral is. Deposits, locks, disputes, releases and
withdrawals move it between the buckets of one pool. Slashing takes the whole
disputed amount and books 10 % of it: the rest is in no bucket afterwards. So the
books of every oracle balance exactly until a slashing takes something.
-/

namespace CeruleanLedger.CollateralConservation

open GuardedRun OrderedMap OracleCollateral BondingRegistry

section Pools

def held (pool : CollateralPool) : Nat :=
  pool.availableBalance.toNat + pool.lockedBalance.toNat + pool.inDisputeBalance.toNat +
    pool.totalSlashed.toNat

def vanishing (amount : Nat) : Nat := amount - amount * 10 / 100

theorem vanishing_eq_zero (amount : Nat) : vanishing amount = 0 ↔ amount = 0 := by
  unfold vanishing
  omega

variable {pool next : CollateralPool} {amount : UInt64}

theorem deposit_held (fits : held pool + amount.toNat < 2 ^ 57) :
    held (pool.deposit amount) = held pool + amount.toNat := by
  simp only [held, CollateralPool.deposit, UInt64.toNat_add] at *
  omega

theorem move_held {source target : CollateralPool.Bucket} {shortfall : String}
    (apart : source ≠ target) (fits : held pool < 2 ^ 57)
    (moved : CollateralPool.move source target shortfall pool amount = .ok next) :
    held next = held pool ∧ next.totalSlashed = pool.totalSlashed ∧
      next.slashingFactor = pool.slashingFactor := by
  unfold CollateralPool.move at moved
  split at moved
  · contradiction
  rename_i covered
  have taken := UInt64.toNat_sub_of_le _ _ (UInt64.not_lt.mp covered)
  have enough := UInt64.le_iff_toNat_le.mp (UInt64.not_lt.mp covered)
  rw [← Except.ok.inj moved]
  cases source <;> cases target <;> first
    | contradiction
    | simp only [held, CollateralPool.setBalance, CollateralPool.balance, UInt64.toNat_add,
        and_self, and_true] at *
      omega

theorem slash_held (factor : pool.slashingFactor = 10) (fits : held pool < 2 ^ 57)
    {slashAmount : UInt64}
    (slashed : pool.slashCollateral pool.inDisputeBalance = .ok (next, slashAmount)) :
    held next + vanishing pool.inDisputeBalance.toNat = held pool ∧
      next.totalSlashed.toNat = pool.totalSlashed.toNat + slashAmount.toNat ∧
      next.slashingFactor = 10 := by
  unfold CollateralPool.slashCollateral at slashed
  split at slashed
  · contradiction
  have percent : pool.slashingFactor.toUInt64 = 10 := by rw [factor]; rfl
  rw [percent] at slashed
  obtain ⟨rfl, rfl⟩ := Prod.mk.inj (Except.ok.inj slashed)
  have booked : (pool.inDisputeBalance * 10 / 100).toNat =
      pool.inDisputeBalance.toNat * 10 / 100 := by
    unfold held at fits
    rw [UInt64.toNat_div, UInt64.toNat_mul]
    simp only [UInt64.reduceToNat]
    omega
  refine ⟨?_, ?_, factor⟩ <;>
    simp only [held, vanishing, UInt64.toNat_add, UInt64.sub_self, UInt64.toNat_zero, booked] at *
      <;> omega

end Pools

section Registries

def heldAt (registry : BondingRegistry) (oracle : String) : Nat :=
  weightAt (fun _ => held) registry.pools oracle

def heldSum (registry : BondingRegistry) : Nat := total (fun _ => held) registry.pools

def slashedSum (registry : BondingRegistry) : Nat :=
  total (fun _ pool => pool.totalSlashed.toNat) registry.pools

def disputedAt (registry : BondingRegistry) (oracle : String) : Nat :=
  weightAt (fun _ pool => pool.inDisputeBalance.toNat) registry.pools oracle

def slashedOracle (registry : BondingRegistry) : Operation → Option String
  | .resolveChallenge challengeId currentTime =>
    match registry.resolveChallenge challengeId currentTime with
    | .ok (_, .challengeAccepted) =>
      (registry.getChallenge challengeId).map DisputeChallenge.oracleId
    | _ => none
  | _ => none

def only (oracle : String) (amount : Nat) : String → Nat :=
  fun other => if oracle = other then amount else 0

@[simp] theorem only_self (oracle : String) (amount : Nat) : only oracle amount oracle = amount :=
  if_pos rfl

theorem only_other {oracle other : String} (different : oracle ≠ other) (amount : Nat) :
    only oracle amount other = 0 :=
  if_neg different

def paid : Operation → String → Nat
  | .depositCollateral oracleId amount => only oracleId amount.toNat
  | _ => fun _ => 0

def drawn : Operation → Answer → String → Nat
  | .withdrawCollateral oracleId _, .amount amount => only oracleId amount.toNat
  | _, _ => fun _ => 0

def lost (registry : BondingRegistry) (operation : Operation) : String → Nat :=
  match slashedOracle registry operation with
  | some oracle => only oracle (vanishing (disputedAt registry oracle))
  | none => fun _ => 0

theorem held_le_sum (registry : BondingRegistry) (oracle : String) :
    heldAt registry oracle ≤ heldSum registry := by
  unfold heldAt heldSum
  rw [total_erase _ _ oracle]
  exact Nat.le_add_right _ _

theorem held_at_some {registry : BondingRegistry} {oracle : String} {pool : CollateralPool}
    (found : registry.pools[oracle]? = some pool) : heldAt registry oracle = held pool := by
  rw [heldAt, weightAt, found]
  rfl

structure Sound (registry : BondingRegistry) : Prop where
  factor : ∀ (oracle : String) pool, registry.pools[oracle]? = some pool →
    pool.slashingFactor = 10
  slashed : registry.slashedTotal.toNat = slashedSum registry

/-- What an accepted operation does to the books: nothing, or one pool is replaced,
with what came in, what went out and what was lost. -/
inductive Booked (registry next : BondingRegistry) (paid drawn lost : String → Nat) : Prop where
  | quiet (pools : next.pools = registry.pools)
      (slashed : next.slashedTotal = registry.slashedTotal)
      (nothing : ∀ oracle, paid oracle = 0 ∧ drawn oracle = 0 ∧ lost oracle = 0)
  | replaced (oracle : String) (after : CollateralPool) (slashAmount : UInt64)
      (pools : next.pools = registry.pools.insert oracle after)
      (factor : after.slashingFactor = 10)
      (balance : held after + drawn oracle + lost oracle = heldAt registry oracle + paid oracle)
      (slashed : after.totalSlashed.toNat =
        weightAt (fun _ pool => pool.totalSlashed.toNat) registry.pools oracle +
          slashAmount.toNat)
      (total : next.slashedTotal = registry.slashedTotal + slashAmount)
      (elsewhere : ∀ other, oracle ≠ other → paid other = 0 ∧ drawn other = 0 ∧ lost other = 0)

abbrev Level (registry next : BondingRegistry) : Prop :=
  Booked registry next (fun _ => 0) (fun _ => 0) (fun _ => 0)

variable {registry next : BondingRegistry} {paid drawn lost : String → Nat}

theorem Booked.balanced (booked : Booked registry next paid drawn lost) (oracle : String) :
    heldAt next oracle + drawn oracle + lost oracle = heldAt registry oracle + paid oracle := by
  cases booked with
  | quiet pools slashed nothing =>
    obtain ⟨noPaid, noDrawn, noLost⟩ := nothing oracle
    rw [heldAt, heldAt, pools, noPaid, noDrawn, noLost]
  | replaced changed after slashAmount pools factor balance slashed total elsewhere =>
    by_cases same : changed = oracle
    · subst same
      rw [heldAt, weightAt, pools, get_insert, if_pos rfl]
      exact balance
    · obtain ⟨noPaid, noDrawn, noLost⟩ := elsewhere oracle same
      rw [heldAt, weightAt, pools, get_insert, if_neg same, noPaid, noDrawn, noLost]
      rfl

theorem Booked.sum_le (booked : Booked registry next paid drawn lost) {amount : Nat}
    (limit : ∀ oracle, paid oracle ≤ amount) : heldSum next ≤ heldSum registry + amount := by
  cases booked with
  | quiet pools slashed nothing =>
    rw [heldSum, pools]
    exact Nat.le_add_right _ _
  | replaced oracle after slashAmount pools factor balance slashed total elsewhere =>
    have books := total_insert_add (fun _ => held) registry.pools oracle after
    have most := limit oracle
    unfold heldAt at balance
    rw [heldSum, heldSum, pools]
    omega

theorem slashed_le_held (registry : BondingRegistry) : slashedSum registry ≤ heldSum registry := by
  unfold slashedSum heldSum total
  apply List.sum_le_sum
  intro entry _
  exact Nat.le_add_left _ _

theorem Booked.sound (booked : Booked registry next paid drawn lost) (sound : Sound registry)
    (fits : heldSum next < 2 ^ 57) : Sound next := by
  cases booked with
  | quiet pools slashed nothing =>
    refine ⟨fun oracle pool found => sound.factor oracle pool (pools ▸ found), ?_⟩
    rw [slashed, sound.slashed, slashedSum, slashedSum, pools]
  | replaced oracle after slashAmount pools factor balance slashed booked elsewhere =>
    constructor
    · intro other pool found
      rw [pools, get_insert] at found
      split at found
      · rw [← Option.some.inj found, factor]
      · exact sound.factor other pool found
    · have within := slashed_le_held next
      have sums : slashedSum next = slashedSum registry + slashAmount.toNat := by
        have books := total_insert_add (fun _ pool => pool.totalSlashed.toNat) registry.pools
          oracle after
        rw [slashedSum, slashedSum, pools]
        omega
      rw [booked, UInt64.toNat_add, sound.slashed, sums]
      omega

end Registries

section Operations

variable {registry next : BondingRegistry} {oracle : String} {pool after : CollateralPool}

theorem tagged_ok {Tag : Type} {outcome : Except String BondingRegistry} {tag answer : Tag}
    (mapped : outcome.map (·, tag) = .ok (next, answer)) : outcome = .ok next ∧ tag = answer := by
  cases outcome with
  | error reason => contradiction
  | ok value =>
    obtain ⟨rfl, rfl⟩ := Prod.mk.inj (Except.ok.inj mapped)
    exact ⟨rfl, rfl⟩

theorem answered_ok {Value : Type} {outcome : Except String (BondingRegistry × Value)}
    {answer : Answer} {form : Value → Answer}
    (mapped : (outcome.map fun (registry, value) => (registry, form value)) =
      .ok (next, answer)) :
    ∃ value, outcome = .ok (next, value) ∧ form value = answer := by
  cases outcome with
  | error reason => contradiction
  | ok result =>
    obtain ⟨rfl, rfl⟩ := Prod.mk.inj (Except.ok.inj mapped)
    exact ⟨result.2, rfl, rfl⟩

theorem Booked.untouched (pools : next.pools = registry.pools)
    (slashed : next.slashedTotal = registry.slashedTotal) :
    Level registry next :=
  .quiet pools slashed fun _ => ⟨rfl, rfl, rfl⟩

theorem Booked.rebase {before : BondingRegistry} {paid drawn lost : String → Nat}
    (booked : Booked before next paid drawn lost) (samePools : before.pools = registry.pools)
    (sameTotal : before.slashedTotal = registry.slashedTotal) :
    Booked registry next paid drawn lost := by
  cases booked with
  | quiet pools slashed nothing =>
    exact .quiet (pools.trans samePools) (slashed.trans sameTotal) nothing
  | replaced oracle after slashAmount pools factor balance slashed total elsewhere =>
    unfold heldAt at balance
    rw [samePools] at pools balance slashed
    exact .replaced oracle after slashAmount pools factor balance slashed (sameTotal ▸ total)
      elsewhere

section Bounded

variable (sound : Sound registry) (fits : heldSum registry < 2 ^ 57)

include fits in
theorem pool_fits (found : registry.pools[oracle]? = some pool) : held pool < 2 ^ 57 := by
  have whole := held_le_sum registry oracle
  rw [held_at_some found] at whole
  omega

include sound fits

theorem Booked.moved (found : registry.pools[oracle]? = some pool)
    {source target : CollateralPool.Bucket} {shortfall : String} {amount : UInt64}
    (apart : source ≠ target)
    (moved : CollateralPool.move source target shortfall pool amount = .ok after)
    (pools : next.pools = registry.pools.insert oracle after)
    (total : next.slashedTotal = registry.slashedTotal) :
    Level registry next := by
  obtain ⟨same, slashed, factor⟩ := move_held apart (pool_fits fits found) moved
  refine .replaced oracle after 0 pools ?_ ?_ ?_ ?_ fun _ _ => ⟨rfl, rfl, rfl⟩
  · rw [factor, sound.factor oracle pool found]
  · rw [held_at_some found, same]
  · rw [weightAt, found, slashed]
    rfl
  · rw [total, UInt64.add_zero]

theorem lock_booked {amount timestamp : UInt64}
    (locked : registry.lockCollateral oracle amount timestamp = .ok next) :
    Level registry next := by
  unfold lockCollateral at locked
  split at locked
  · contradiction
  split at locked
  · contradiction
  rename_i pool found
  split at locked
  · contradiction
  rename_i after moved
  obtain rfl := Except.ok.inj locked
  exact .moved sound fits found (by decide) moved rfl rfl

theorem disputed_booked {pools : Std.ExtTreeMap String CollateralPool}
    (disputed : registry.disputedPools oracle = .ok pools) (stored : next.pools = pools)
    (total : next.slashedTotal = registry.slashedTotal) :
    Level registry next := by
  unfold disputedPools at disputed
  split at disputed
  · exact .untouched (by rw [stored, ← Except.ok.inj disputed]) total
  · rename_i pool found
    split at disputed
    · contradiction
    rename_i after moved
    exact .moved sound fits found (by decide) moved
      (by rw [stored, ← Except.ok.inj disputed]) total

theorem challenge_booked {challenger reportHash evidence id : String} {currentTime : UInt64}
    (challenged : registry.challengeOracle oracle challenger reportHash evidence currentTime =
      .ok (next, id)) :
    Level registry next := by
  unfold challengeOracle at challenged
  simp only [bind, Except.bind] at challenged
  split at challenged
  · contradiction
  split at challenged
  · contradiction
  split at challenged
  · contradiction
  split at challenged
  · contradiction
  rename_i pools disputed
  obtain ⟨rfl, _⟩ := Prod.mk.inj (Except.ok.inj challenged)
  exact disputed_booked sound fits disputed rfl rfl

theorem restore_booked (restored : registry.restoreDisputed oracle = .ok next) :
    Level registry next := by
  unfold restoreDisputed at restored
  split at restored
  · obtain rfl := Except.ok.inj restored
    exact .untouched rfl rfl
  · rename_i pool found
    split at restored
    · contradiction
    rename_i after moved
    obtain rfl := Except.ok.inj restored
    exact .moved sound fits found (by decide) moved rfl rfl

theorem release_booked (released : registry.releaseCollateral oracle = .ok next) :
    Level registry next := by
  unfold releaseCollateral at released
  split at released
  · contradiction
  split at released
  · contradiction
  rename_i pool found
  split at released
  · contradiction
  rename_i after moved
  obtain rfl := Except.ok.inj released
  exact .moved sound fits found (by decide) moved rfl rfl

theorem slash_booked {challenger : String}
    (slashed : registry.executeSlashing oracle challenger = .ok next) :
    Booked registry next (fun _ => 0) (fun _ => 0)
      (only oracle (vanishing (disputedAt registry oracle))) := by
  unfold executeSlashing at slashed
  split at slashed
  · rename_i absent
    obtain rfl := Except.ok.inj slashed
    have nothing : disputedAt registry oracle = 0 := by rw [disputedAt, weightAt, absent]; rfl
    rw [nothing]
    exact .quiet rfl rfl fun other => ⟨rfl, rfl, ite_self 0⟩
  · rename_i pool found
    split at slashed
    · contradiction
    rename_i after slashAmount taken
    obtain rfl := Except.ok.inj slashed
    have disputed : disputedAt registry oracle = pool.inDisputeBalance.toNat := by
      rw [disputedAt, weightAt, found]
      rfl
    obtain ⟨balance, booked, factor⟩ :=
      slash_held (sound.factor oracle pool found) (pool_fits fits found) taken
    refine .replaced oracle after slashAmount rfl factor ?_ ?_ rfl fun other different =>
      ⟨rfl, rfl, only_other different _⟩
    · rw [only_self, disputed, held_at_some found]
      exact balance
    · rw [weightAt, found]
      exact booked

end Bounded

theorem withdraw_booked (sound : Sound registry) {amount answered : UInt64}
    (withdrawn : registry.withdrawCollateral oracle amount = .ok (next, answered)) :
    Booked registry next (fun _ => 0) (only oracle answered.toNat) (fun _ => 0) := by
  unfold withdrawCollateral at withdrawn
  split at withdrawn
  · contradiction
  rename_i pool found
  split at withdrawn
  · contradiction
  rename_i allowed
  obtain ⟨rfl, rfl⟩ := Prod.mk.inj (Except.ok.inj withdrawn)
  have covered : amount ≤ pool.availableBalance := by
    simp only [CollateralPool.canWithdraw, Bool.not_eq_true', Bool.not_eq_false,
      Bool.and_eq_true, decide_eq_true_eq] at allowed
    exact allowed.1
  have factor := sound.factor oracle pool found
  refine .replaced oracle _ 0 rfl factor ?_ ?_ ?_ fun other different =>
    ⟨rfl, only_other different _, rfl⟩
  · rw [only_self, held_at_some found]
    have enough := UInt64.le_iff_toNat_le.mp covered
    simp only [held, UInt64.toNat_sub_of_le _ _ covered]
    omega
  · rw [weightAt, found]
    rfl
  · exact (UInt64.add_zero _).symm

theorem absent_of_contains (absent : ¬ registry.pools.contains oracle = true) :
    registry.pools[oracle]? = none := by
  rw [Std.ExtTreeMap.contains_eq_isSome_getElem?] at absent
  exact Option.not_isSome_iff_eq_none.mp absent

theorem create_booked (created : registry.createPool oracle = .ok next) :
    Level registry next := by
  unfold createPool at created
  split at created
  · contradiction
  rename_i fresh
  obtain rfl := Except.ok.inj created
  have absent := absent_of_contains fresh
  refine .replaced oracle _ 0 rfl rfl ?_ ?_ (UInt64.add_zero _).symm fun _ _ => ⟨rfl, rfl, rfl⟩
  · rw [heldAt, weightAt, absent]
    rfl
  · rw [weightAt, absent]
    rfl

theorem Booked.credited {amount : UInt64} (fits : heldSum registry + amount.toNat < 2 ^ 57)
    (factor : pool.slashingFactor = 10) (books : held pool = heldAt registry oracle)
    (slashed : pool.totalSlashed.toNat =
      weightAt (fun _ pool => pool.totalSlashed.toNat) registry.pools oracle)
    (pools : next.pools = registry.pools.insert oracle (pool.deposit amount))
    (total : next.slashedTotal = registry.slashedTotal) :
    Booked registry next (only oracle amount.toNat) (fun _ => 0) (fun _ => 0) := by
  have whole := held_le_sum registry oracle
  refine .replaced oracle _ 0 pools factor ?_ slashed ?_ fun other different =>
    ⟨only_other different _, rfl, rfl⟩
  · rw [only_self, ← books, deposit_held (by omega)]
    rfl
  · rw [total, UInt64.add_zero]

theorem deposit_booked (sound : Sound registry) {amount : UInt64}
    (fits : heldSum registry + amount.toNat < 2 ^ 57)
    (deposited : registry.depositCollateral oracle amount = .ok next) :
    Booked registry next (only oracle amount.toNat) (fun _ => 0) (fun _ => 0) := by
  unfold depositCollateral createPool at deposited
  by_cases known : registry.pools.contains oracle = true
  · rw [if_pos known] at deposited
    simp only [bind, Except.bind] at deposited
    split at deposited
    · rename_i pool found
      obtain rfl := Except.ok.inj deposited
      refine .credited fits (sound.factor oracle pool found) (held_at_some found).symm ?_ rfl rfl
      rw [weightAt, found]
      rfl
    · contradiction
  · have absent := absent_of_contains known
    rw [if_neg known, if_neg known] at deposited
    simp only [bind, Except.bind, get_insert, if_true] at deposited
    obtain rfl := Except.ok.inj deposited
    refine .credited fits rfl ?_ ?_ (insert_twice _ _ _ _) rfl
    · rw [heldAt, weightAt, absent]
      rfl
    · rw [weightAt, absent]
      rfl

end Operations

structure Watched where
  registry : BondingRegistry
  deposited : String → Nat
  withdrawn : String → Nat

def Watched.new (minCollateral : UInt64) : Watched :=
  ⟨.new minCollateral, fun _ => 0, fun _ => 0⟩

def watch (watched : Watched) (operation : Operation) : Watched :=
  match perform watched.registry operation with
  | .error _ => watched
  | .ok (next, answer) =>
    { registry := next
      deposited := fun oracle => watched.deposited oracle + paid operation oracle
      withdrawn := fun oracle => watched.withdrawn oracle + drawn operation answer oracle }

def depositOf : Operation → Nat
  | .depositCollateral _ amount => amount.toNat
  | _ => 0

/-- The deposits of an oracle are withdrawn, in one of the three buckets or slashed. -/
def Conserved (watched : Watched) (oracle : String) : Prop :=
  watched.deposited oracle = watched.withdrawn oracle + heldAt watched.registry oracle
  deriving Decidable

/-- The operation does not slash an oracle that has something in dispute. -/
def TakesNothing (watched : Watched) (operation : Operation) : Prop :=
  (slashedOracle watched.registry operation).elim 0 (disputedAt watched.registry) = 0
  deriving Decidable

theorem paid_le (operation : Operation) (oracle : String) :
    paid operation oracle ≤ depositOf operation := by
  cases operation with
  | depositCollateral oracleId amount =>
    simp only [paid, only, depositOf]
    split
    · exact Nat.le_refl _
    · exact Nat.zero_le _
  | _ => exact Nat.le_refl _

variable {registry next : BondingRegistry} {operation : Operation} {answer : Answer}

theorem lost_of_slashed {oracle : String}
    (slashed : slashedOracle registry operation = some oracle) :
    lost registry operation = only oracle (vanishing (disputedAt registry oracle)) := by
  rw [lost, slashed]

theorem lost_of_none (slashed : slashedOracle registry operation = none) :
    lost registry operation = fun _ => 0 := by
  rw [lost, slashed]

theorem resolve_booked (sound : Sound registry) (fits : heldSum registry < 2 ^ 57)
    {challengeId : String} {currentTime : UInt64} {outcome : ChallengeOutcome}
    (resolved : registry.resolveChallenge challengeId currentTime = .ok (next, outcome)) :
    Booked registry next (fun _ => 0) (fun _ => 0)
      (lost registry (.resolveChallenge challengeId currentTime)) := by
  have ended := resolved
  unfold resolveChallenge at resolved
  split at resolved
  · contradiction
  rename_i challenge found
  split at resolved
  · contradiction
  split at resolved
  · contradiction
  dsimp only at resolved
  split at resolved
  · obtain ⟨slashed, rfl⟩ := tagged_ok resolved
    have named : slashedOracle registry (.resolveChallenge challengeId currentTime) =
        some challenge.oracleId := by
      rw [slashedOracle, ended, found]
      rfl
    rw [lost_of_slashed named]
    refine (slash_booked ?_ ?_ slashed).rebase rfl rfl
    · exact ⟨sound.factor, sound.slashed⟩
    · exact fits
  · obtain ⟨restored, rfl⟩ := tagged_ok resolved
    have named : slashedOracle registry (.resolveChallenge challengeId currentTime) = none := by
      rw [slashedOracle, ended]
    rw [lost_of_none named]
    refine (restore_booked ?_ ?_ restored).rebase rfl rfl
    · exact ⟨sound.factor, sound.slashed⟩
    · exact fits

theorem activate_booked {oracle : String} (activated : registry.activateBond oracle = .ok next) :
    Level registry next := by
  unfold activateBond at activated
  split at activated
  · obtain rfl := Except.ok.inj activated
    exact .untouched rfl rfl
  · contradiction

theorem vote_booked {challengeId voter : String} {voteYes : Bool}
    (voted : registry.voteOnChallenge challengeId voter voteYes = .ok next) :
    Level registry next := by
  unfold voteOnChallenge at voted
  split at voted
  · contradiction
  split at voted
  · contradiction
  · obtain rfl := Except.ok.inj voted
    exact .untouched rfl rfl

theorem claim_booked {challenger : String} {amount : UInt64}
    (claimed : registry.claimSlasherReward challenger = .ok (next, amount)) :
    Level registry next := by
  unfold claimSlasherReward at claimed
  split at claimed
  · contradiction
  · obtain ⟨rfl, _⟩ := Prod.mk.inj (Except.ok.inj claimed)
    exact .untouched rfl rfl

theorem perform_booked (sound : Sound registry)
    (fits : heldSum registry + depositOf operation < 2 ^ 57)
    (performed : perform registry operation = .ok (next, answer)) :
    Booked registry next (paid operation) (drawn operation answer) (lost registry operation) := by
  have small : heldSum registry < 2 ^ 57 := by omega
  cases operation with
  | createPool oracle => exact create_booked (tagged_ok performed).1
  | depositCollateral oracle amount => exact deposit_booked sound fits (tagged_ok performed).1
  | lockCollateral oracle amount timestamp =>
    exact lock_booked sound small (tagged_ok performed).1
  | activateBond oracle => exact activate_booked (tagged_ok performed).1
  | challengeOracle oracle challenger reportHash evidence currentTime =>
    obtain ⟨id, challenged, _⟩ := answered_ok performed
    exact challenge_booked sound small challenged
  | voteOnChallenge challengeId voter voteYes =>
    exact vote_booked (tagged_ok performed).1
  | resolveChallenge challengeId currentTime =>
    obtain ⟨outcome, resolved, _⟩ := answered_ok performed
    exact resolve_booked sound small resolved
  | releaseCollateral oracle currentTime =>
    exact release_booked sound small (tagged_ok performed).1
  | withdrawCollateral oracle amount =>
    obtain ⟨answered, withdrawn, rfl⟩ := answered_ok performed
    exact withdraw_booked sound withdrawn
  | claimSlasherReward challenger =>
    obtain ⟨amount, claimed, _⟩ := answered_ok performed
    exact claim_booked claimed
  | _ =>
    obtain ⟨rfl, _⟩ := Prod.mk.inj (Except.ok.inj performed)
    exact .untouched rfl rfl

structure Keeps (watched : Watched) (ahead : List Operation) : Prop where
  sound : Sound watched.registry
  backed : ∀ oracle, watched.withdrawn oracle + heldAt watched.registry oracle ≤
    watched.deposited oracle
  room : heldSum watched.registry + (ahead.map depositOf).sum < 2 ^ 57

theorem takes_nothing_iff (watched : Watched) (operation : Operation) :
    TakesNothing watched operation ↔ ∀ oracle, lost watched.registry operation oracle = 0 := by
  unfold TakesNothing
  cases named : slashedOracle watched.registry operation with
  | none =>
    rw [lost_of_none named]
    exact ⟨fun _ _ => rfl, fun _ => rfl⟩
  | some oracle =>
    rw [lost_of_slashed named, Option.elim_some]
    constructor
    · intro nothing other
      rw [nothing]
      exact ite_self 0
    · intro nothing
      have here := nothing oracle
      rw [only_self, vanishing_eq_zero] at here
      exact here

theorem takes_nothing_of_error {watched : Watched} {reason : String}
    (failed : perform watched.registry operation = .error reason) :
    TakesNothing watched operation := by
  have nobody : slashedOracle watched.registry operation = none := by
    cases operation with
    | resolveChallenge challengeId currentTime =>
      cases ended : watched.registry.resolveChallenge challengeId currentTime with
      | error reason => rw [slashedOracle, ended]
      | ok result =>
        rw [perform, ended] at failed
        contradiction
    | _ => rfl
  rw [TakesNothing, nobody]
  rfl

section Step

variable {watched : Watched} (sound : Sound watched.registry)
variable (fits : heldSum watched.registry + depositOf operation < 2 ^ 57)

include sound fits

theorem watch_sound :
    Sound (watch watched operation).registry ∧
      heldSum (watch watched operation).registry ≤
        heldSum watched.registry + depositOf operation := by
  unfold watch
  cases performed : perform watched.registry operation with
  | error reason => exact ⟨sound, Nat.le_add_right _ _⟩
  | ok result =>
    have booked := perform_booked sound fits performed
    have sums := booked.sum_le (paid_le operation)
    exact ⟨booked.sound sound (by omega), sums⟩

/-- What is accounted for after a step, with what the step lost, has grown by what
was deposited. -/
theorem watch_balance (oracle : String) :
    (watch watched operation).withdrawn oracle + heldAt (watch watched operation).registry oracle +
        lost watched.registry operation oracle + watched.deposited oracle =
      watched.withdrawn oracle + heldAt watched.registry oracle +
        (watch watched operation).deposited oracle := by
  unfold watch
  cases performed : perform watched.registry operation with
  | error reason =>
    have nothing := (takes_nothing_iff watched operation).mp (takes_nothing_of_error performed)
    rw [nothing oracle]
    rfl
  | ok result =>
    have balance := (perform_booked sound fits performed).balanced oracle
    dsimp only
    omega

end Step

theorem Keeps.fits {watched : Watched} {ahead : List Operation}
    (keeps : Keeps watched (operation :: ahead)) :
    heldSum watched.registry + depositOf operation < 2 ^ 57 := by
  have room := keeps.room
  rw [List.map_cons, List.sum_cons] at room
  omega

theorem watch_keeps (watched : Watched) (operation : Operation) (ahead : List Operation)
    (keeps : Keeps watched (operation :: ahead)) : Keeps (watch watched operation) ahead := by
  obtain ⟨sound, sums⟩ := watch_sound keeps.sound keeps.fits
  refine ⟨sound, fun oracle => ?_, ?_⟩
  · have balance := watch_balance keeps.sound keeps.fits oracle
    have backed := keeps.backed oracle
    omega
  · have room := keeps.room
    rw [List.map_cons, List.sum_cons] at room
    omega

theorem watch_conserved_iff (watched : Watched) (operation : Operation) (ahead : List Operation)
    (keeps : Keeps watched (operation :: ahead)) :
    (∀ oracle, Conserved (watch watched operation) oracle) ↔
      (∀ oracle, Conserved watched oracle) ∧ TakesNothing watched operation := by
  rw [takes_nothing_iff, ← forall_and]
  refine forall_congr' fun oracle => ?_
  have balance := watch_balance keeps.sound keeps.fits oracle
  have backed := keeps.backed oracle
  unfold Conserved
  omega

theorem start_held (minCollateral : UInt64) (oracle : String) :
    heldAt (.new minCollateral) oracle = 0 := by
  rw [heldAt, weightAt, new, Std.ExtTreeMap.getElem?_empty]
  rfl

theorem start_keeps (minCollateral : UInt64) (operations : List Operation)
    (small : (operations.map depositOf).sum < 2 ^ 57) :
    Keeps (.new minCollateral) operations := by
  refine ⟨⟨?_, ?_⟩, ?_, ?_⟩
  · intro oracle pool found
    rw [Watched.new, new, Std.ExtTreeMap.getElem?_empty] at found
    contradiction
  · exact (total_empty _).symm
  · intro oracle
    exact (start_held minCollateral oracle).le
  · rw [heldSum, Watched.new, new, total_empty, Nat.zero_add]
    exact small

/-- Of a registry used in any way, with deposits below 2^57 in total: what is booked
as slashed is the sum over the pools, and the deposits of all oracles are accounted
for exactly if no accepted challenge found something in dispute. -/
theorem collateral_conserved_iff (minCollateral : UInt64) (operations : List Operation)
    (small : (operations.map depositOf).sum < 2 ^ 57) :
    let watched := operations.foldl watch (.new minCollateral)
    watched.registry.slashedTotal.toNat = slashedSum watched.registry ∧
      ((∀ oracle, Conserved watched oracle) ↔
        AllMeet watch TakesNothing (.new minCollateral) operations) := by
  intro watched
  have initial := start_keeps minCollateral operations small
  have ends := run_keeps_ahead Keeps watch_keeps _ operations initial
  have exactly := end_holds_iff Keeps (fun watched => ∀ oracle, Conserved watched oracle)
    watch_keeps watch_conserved_iff _ operations initial
  have balanced : ∀ oracle, Conserved (.new minCollateral) oracle :=
    fun oracle => (start_held minCollateral oracle).symm
  exact ⟨ends.sound.slashed, exactly.trans (and_iff_right balanced)⟩

def afterChallenge (later : List Operation) : List Operation :=
  [.depositCollateral "oracle" 1000, .lockCollateral "oracle" 600 0, .activateBond "oracle",
    .challengeOracle "oracle" "eve" "hash" "evidence" 5] ++ later

/-- Nobody votes, the bond is restored and everything is withdrawn. -/
theorem rejected_challenge_conserved :
    let watched := (afterChallenge [.resolveChallenge "challenge_0" 259200005,
      .withdrawCollateral "oracle" 1000]).foldl watch (.new 100)
    watched.withdrawn "oracle" = 1000 ∧ ∀ oracle, Conserved watched oracle :=
  ⟨by decide +kernel,
    (collateral_conserved_iff 100 _ (by decide +kernel)).2.mpr (by decide +kernel)⟩

/-- One vote decides: 600 leave the dispute, 60 are booked as slashed. -/
theorem slashed_share_vanishes :
    let watched := (afterChallenge [.voteOnChallenge "challenge_0" "eve" true,
      .resolveChallenge "challenge_0" 259200005]).foldl watch (.new 100)
    watched.deposited "oracle" = 1000 ∧ watched.withdrawn "oracle" = 0 ∧
      watched.registry.pools["oracle"]?.map (fun pool => (pool.availableBalance,
        pool.lockedBalance, pool.inDisputeBalance, pool.totalSlashed)) = some (400, 0, 0, 60) ∧
      watched.registry.slashedTotal = 60 ∧ ¬ Conserved watched "oracle" := by
  decide +kernel

end CeruleanLedger.CollateralConservation
