import CeruleanLedger.ByteCodec
import CeruleanLedger.GuardedRun
import CeruleanLedger.OrderedMap
import CeruleanLedger.Staking

/-!
The deposits of `tokenomics/storage_deposit.rs`: a key of the world state is backed by one
record, an update replaces the record and charges the difference, and a deletion pays the amount
to the depositor on record.
-/

namespace CeruleanLedger.StorageDeposits

open ByteCodec GuardedRun OrderedMap
open NativeLedger (saturatingSub)
open Staking (saturatingAdd)

def depositPerByte : UInt64 := 1

def minDeposit : UInt64 := 10

def maxEntrySize : Nat := 65536

structure DepositRecord where
  depositor : String
  key : String
  amount : UInt64
  createdAt : UInt64
  deriving DecidableEq

inductive DepositError where
  | insufficientBalance (required available : UInt64)
  | entryTooLarge (size max : Nat)
  | notFound (key : String)
  deriving DecidableEq

def calculateDeposit (key : String) (value : Bytes) : Except DepositError UInt64 :=
  let totalBytes := key.utf8ByteSize + value.length
  if totalBytes > maxEntrySize then .error (.entryTooLarge totalBytes maxEntrySize)
  else .ok (max (UInt64.ofNat totalBytes * depositPerByte) minDeposit)

structure DepositResult where
  depositAmount : UInt64
  refunded : UInt64
  netCost : UInt64
  deriving DecidableEq

structure DepositLedger where
  deposits : Std.ExtTreeMap String DepositRecord
  totalLocked : UInt64

namespace DepositLedger

def new : DepositLedger := ⟨∅, 0⟩

def get (ledger : DepositLedger) (key : String) : Option DepositRecord := ledger.deposits[key]?

def lock (ledger : DepositLedger) (depositor key : String) (value : Bytes)
    (blockHeight balance : UInt64) : Except DepositError (DepositLedger × DepositResult) := do
  let newDeposit ← calculateDeposit key value
  let refund := ((ledger.get key).map DepositRecord.amount).getD 0
  let netCost := saturatingSub newDeposit refund
  if netCost > balance then .error (.insufficientBalance netCost balance)
  else
    let record := ⟨depositor, key, newDeposit, blockHeight⟩
    .ok (⟨ledger.deposits.insert key record,
        saturatingAdd (saturatingSub ledger.totalLocked refund) newDeposit⟩,
      ⟨newDeposit, refund, netCost⟩)

def refund (ledger : DepositLedger) (key : String) :
    Except DepositError (DepositLedger × String × UInt64) :=
  match ledger.get key with
  | none => .error (.notFound key)
  | some record =>
    .ok (⟨ledger.deposits.erase key, saturatingSub ledger.totalLocked record.amount⟩,
      record.depositor, record.amount)

def active (ledger : DepositLedger) : Nat :=
  total (fun _ record => record.amount.toNat) ledger.deposits

def share (account : String) (record : DepositRecord) : Nat :=
  if record.depositor = account then record.amount.toNat else 0

def activeFor (ledger : DepositLedger) (account : String) : Nat :=
  total (fun _ => share account) ledger.deposits

end DepositLedger

inductive Call where
  | lock (depositor key : String) (value : Bytes) (blockHeight balance : UInt64)
  | refund (key : String)

structure Watched where
  ledger : DepositLedger
  paid : String → Nat
  returned : String → Nat

def Watched.new : Watched := ⟨.new, fun _ => 0, fun _ => 0⟩

def credit (sums : String → Nat) (account : String) (amount : UInt64) : String → Nat :=
  fun other => sums other + if account = other then amount.toNat else 0

def watch (watched : Watched) : Call → Watched
  | .lock depositor key value blockHeight balance =>
    match watched.ledger.lock depositor key value blockHeight balance with
    | .error _ => watched
    | .ok (ledger, result) =>
      { watched with ledger, paid := credit watched.paid depositor result.netCost }
  | .refund key =>
    match watched.ledger.refund key with
    | .error _ => watched
    | .ok (ledger, depositor, amount) =>
      { watched with ledger, returned := credit watched.returned depositor amount }

/-- The deposit on the key that a new one replaces. -/
def DepositLedger.replaced (ledger : DepositLedger) (key : String) : UInt64 :=
  ((ledger.get key).map DepositRecord.amount).getD 0

/-- What an accepted lock leaves and answers. -/
def DepositLedger.locked (ledger : DepositLedger) (depositor key : String)
    (blockHeight deposit : UInt64) : DepositLedger × DepositResult :=
  (⟨ledger.deposits.insert key ⟨depositor, key, deposit, blockHeight⟩,
      saturatingAdd (saturatingSub ledger.totalLocked (ledger.replaced key)) deposit⟩,
    ⟨deposit, ledger.replaced key, saturatingSub deposit (ledger.replaced key)⟩)

structure Conserved (watched : Watched) : Prop where
  accounts : ∀ account, (watched.paid account : Int) - watched.returned account =
    watched.ledger.activeFor account
  locked : watched.ledger.totalLocked.toNat = watched.ledger.active

/-- Where the balance covers what the deposit adds to the one on the key, the
record on the key is of the same account and not larger, and the sum of the
deposits with the new one in its place fits into 64 bits. -/
def OwnAndGrowing (watched : Watched) : Call → Prop
  | .refund _ => True
  | .lock depositor key value _ balance =>
    ∀ deposit, calculateDeposit key value = .ok deposit →
      saturatingSub deposit (watched.ledger.replaced key) ≤ balance →
        (∀ replaced, watched.ledger.get key = some replaced →
          replaced.depositor = depositor ∧ replaced.amount ≤ deposit) ∧
        watched.ledger.active + deposit.toNat < 2 ^ 64 + (watched.ledger.replaced key).toNat

def Priced (ledger : DepositLedger) : Prop :=
  ∀ key record, ledger.get key = some record → 0 < record.amount.toNat

variable {ledger after : DepositLedger} {depositor key : String} {record : DepositRecord}

section Operations

variable {value : Bytes} {blockHeight balance : UInt64} {result : DepositResult}

theorem calculate_deposit_positive {deposit : UInt64}
    (priced : calculateDeposit key value = .ok deposit) : 0 < deposit.toNat := by
  unfold calculateDeposit at priced
  dsimp only at priced
  split at priced
  · cases priced
  · cases priced
    have largest : ∀ left right : UInt64,
        max left right = if left ≤ right then right else left := fun _ _ => rfl
    rw [largest]
    split
    · decide
    · next larger =>
      have above := UInt64.lt_iff_toNat_lt.mp (UInt64.not_le.mp larger)
      exact Nat.lt_of_le_of_lt (Nat.zero_le _) above

theorem lock_ok_iff :
    ledger.lock depositor key value blockHeight balance = .ok (after, result) ↔
      ∃ deposit, calculateDeposit key value = .ok deposit ∧
        saturatingSub deposit (ledger.replaced key) ≤ balance ∧
        ledger.locked depositor key blockHeight deposit = (after, result) := by
  unfold DepositLedger.lock
  cases priced : calculateDeposit key value with
  | error reason => exact iff_of_false nofun (by rintro ⟨_, ⟨⟩, _⟩)
  | ok deposit =>
    change (if saturatingSub deposit (ledger.replaced key) > balance then
      Except.error _ else .ok (ledger.locked depositor key blockHeight deposit)) = _ ↔ _
    simp only [Except.ok.injEq, exists_eq_left', gt_iff_lt]
    split
    · next short => exact iff_of_false nofun fun found => UInt64.not_le.mpr short found.1
    · next covered =>
      rw [Except.ok.injEq, and_iff_right (UInt64.not_lt.mp covered)]

theorem replaced_eq (ledger : DepositLedger) (key : String) :
    (ledger.replaced key).toNat =
      weightAt (fun _ (record : DepositRecord) => record.amount.toNat) ledger.deposits key := by
  unfold DepositLedger.replaced DepositLedger.get weightAt
  cases ledger.deposits[key]? <;> rfl

theorem active_insert (inserted : after.deposits = ledger.deposits.insert key record) :
    after.active + (ledger.replaced key).toNat = ledger.active + record.amount.toNat := by
  rw [DepositLedger.active, inserted, replaced_eq]
  exact total_insert_add (fun _ record => record.amount.toNat) ledger.deposits key record

theorem active_for_insert (inserted : after.deposits = ledger.deposits.insert key record)
    (account : String) :
    after.activeFor account + (ledger.get key).elim 0 (DepositLedger.share account) =
      ledger.activeFor account + DepositLedger.share account record := by
  rw [DepositLedger.activeFor, inserted]
  exact total_insert_add (fun _ => DepositLedger.share account) ledger.deposits key record

theorem active_erase (found : ledger.get key = some record) (locked : UInt64) :
    ledger.active =
      record.amount.toNat + DepositLedger.active ⟨ledger.deposits.erase key, locked⟩ := by
  rw [DepositLedger.active, total_erase _ _ key, weightAt, ← DepositLedger.get, found]
  rfl

theorem active_for_erase (found : ledger.get key = some record) (locked : UInt64)
    (account : String) :
    ledger.activeFor account = DepositLedger.share account record +
      DepositLedger.activeFor ⟨ledger.deposits.erase key, locked⟩ account := by
  rw [DepositLedger.activeFor, total_erase _ _ key, weightAt, ← DepositLedger.get, found]
  rfl

end Operations

section Step

theorem locked_insert_iff (inserted : after.deposits = ledger.deposits.insert key record)
    (locked : ledger.totalLocked.toNat = ledger.active)
    (updated : after.totalLocked =
      saturatingAdd (saturatingSub ledger.totalLocked (ledger.replaced key)) record.amount) :
    after.totalLocked.toNat = after.active ↔
      ledger.active + record.amount.toNat < 2 ^ 64 + (ledger.replaced key).toNat := by
  have counted := active_insert inserted
  have covered := total_erase (fun _ (record : DepositRecord) => record.amount.toNat)
    ledger.deposits key
  rw [← replaced_eq, ← DepositLedger.active] at covered
  rw [updated, Staking.saturating_add_toNat, NativeLedger.saturating_sub_toNat, locked]
  omega

/-- The payment for a record that replaces another covers what is held in addition
exactly if the owner adds to the own record. -/
theorem paid_replace_iff (inserted : after.deposits = ledger.deposits.insert key record)
    {replaced : DepositRecord} (found : ledger.get key = some replaced)
    (positive : 0 < replaced.amount.toNat) :
    (∀ account, after.activeFor account = ledger.activeFor account +
        if record.depositor = account then record.amount.toNat - replaced.amount.toNat else 0) ↔
      replaced.depositor = record.depositor ∧ replaced.amount ≤ record.amount := by
  have counted := active_for_insert inserted
  simp only [found, Option.elim_some, DepositLedger.share] at counted
  constructor
  · intro paid
    have own := counted replaced.depositor
    rw [paid replaced.depositor, if_pos rfl] at own
    by_cases same : record.depositor = replaced.depositor
    · rw [if_pos same, if_pos same] at own
      exact ⟨same.symm, UInt64.le_iff_toNat_le.mpr (by omega)⟩
    · rw [if_neg same, if_neg same] at own
      omega
  · rintro ⟨same, less⟩ account
    have fits := UInt64.le_iff_toNat_le.mp less
    have moved := counted account
    rw [same] at moved
    by_cases own : record.depositor = account
    · rw [if_pos own, if_pos own] at moved
      rw [if_pos own]
      omega
    · rw [if_neg own, if_neg own] at moved
      rw [if_neg own]
      omega

theorem paid_insert_iff (inserted : after.deposits = ledger.deposits.insert key record)
    (priced : Priced ledger) :
    (∀ account, after.activeFor account = ledger.activeFor account +
        if record.depositor = account then
          (saturatingSub record.amount (ledger.replaced key)).toNat else 0) ↔
      ∀ replaced, ledger.get key = some replaced →
        replaced.depositor = record.depositor ∧ replaced.amount ≤ record.amount := by
  simp only [NativeLedger.saturating_sub_toNat]
  cases found : ledger.get key with
  | none =>
    have nothing : (ledger.replaced key).toNat = 0 := by rw [DepositLedger.replaced, found]; rfl
    refine iff_of_true (fun account => ?_) nofun
    have moved := active_for_insert inserted account
    rw [found, Option.elim_none, DepositLedger.share] at moved
    rw [nothing]
    omega
  | some replaced =>
    have amount : ledger.replaced key = replaced.amount := by
      rw [DepositLedger.replaced, found]; rfl
    rw [amount, paid_replace_iff inserted found (priced key replaced found)]
    simp only [Option.some.injEq, forall_eq']

/-- A lock that fails changes nothing; one that is accepted keeps the money
exactly if it is the owner's and the record does not shrink. -/
theorem lock_conserved_iff (watched : Watched) (depositor key : String) (value : Bytes)
    (blockHeight balance : UInt64) (conserved : Conserved watched)
    (priced : Priced watched.ledger) :
    Conserved (watch watched (.lock depositor key value blockHeight balance)) ↔
      OwnAndGrowing watched (.lock depositor key value blockHeight balance) := by
  by_cases accepted : ∃ deposit, calculateDeposit key value = .ok deposit ∧
      saturatingSub deposit (watched.ledger.replaced key) ≤ balance
  · obtain ⟨deposit, priceKnown, within⟩ := accepted
    have locked : watched.ledger.lock depositor key value blockHeight balance =
        .ok (watched.ledger.locked depositor key blockHeight deposit) :=
      lock_ok_iff.mpr ⟨deposit, priceKnown, within, rfl⟩
    let after := (watched.ledger.locked depositor key blockHeight deposit).1
    have inserted : after.deposits =
        watched.ledger.deposits.insert key ⟨depositor, key, deposit, blockHeight⟩ := rfl
    have paid := paid_insert_iff inserted priced
    have fits := locked_insert_iff inserted conserved.locked rfl
    have covered : ∀ account,
        ((credit watched.paid depositor (saturatingSub deposit (watched.ledger.replaced key))
            account : Nat) : Int) - watched.returned account = after.activeFor account ↔
          after.activeFor account = watched.ledger.activeFor account +
            if depositor = account then
              (saturatingSub deposit (watched.ledger.replaced key)).toNat else 0 := by
      intro account
      have before := conserved.accounts account
      rw [credit]
      omega
    unfold watch OwnAndGrowing
    dsimp only
    rw [locked]
    constructor
    · rintro ⟨accounts, total⟩ found same -
      cases priceKnown.symm.trans same
      exact ⟨paid.mp fun account => (covered account).mp (accounts account), fits.mp total⟩
    · intro allowed
      obtain ⟨owned, bounded⟩ := allowed deposit priceKnown within
      exact ⟨fun account => (covered account).mpr (paid.mpr owned account), fits.mpr bounded⟩
  · refine iff_of_true ?_ fun deposit priceKnown within =>
      absurd ⟨deposit, priceKnown, within⟩ accepted
    unfold watch
    dsimp only
    split
    · exact conserved
    · next locked =>
      obtain ⟨deposit, priceKnown, within, _⟩ := lock_ok_iff.mp locked
      exact absurd ⟨deposit, priceKnown, within⟩ accepted

theorem refund_conserved (watched : Watched) (key : String) (conserved : Conserved watched) :
    Conserved (watch watched (.refund key)) := by
  unfold watch DepositLedger.refund
  dsimp only
  cases found : watched.ledger.get key with
  | none => exact conserved
  | some record =>
    constructor
    · intro account
      have before := conserved.accounts account
      have parted := active_for_erase found
        (saturatingSub watched.ledger.totalLocked record.amount) account
      rw [DepositLedger.share] at parted
      dsimp only [credit]
      omega
    · have parted := active_erase found
        (saturatingSub watched.ledger.totalLocked record.amount)
      have before := conserved.locked
      dsimp only
      rw [NativeLedger.saturating_sub_toNat]
      omega

theorem watch_priced (watched : Watched) (call : Call) (priced : Priced watched.ledger) :
    Priced (watch watched call).ledger := by
  cases call with
  | lock depositor key value blockHeight balance =>
    unfold watch
    dsimp only
    split
    · exact priced
    · next locked =>
      obtain ⟨deposit, priceKnown, _, rfl, rfl⟩ := lock_ok_iff.mp locked
      intro other record found
      rw [DepositLedger.get, get_insert] at found
      split at found
      · cases found
        exact calculate_deposit_positive priceKnown
      · exact priced other record found
  | refund key =>
    unfold watch DepositLedger.refund
    dsimp only
    cases watched.ledger.get key with
    | none => exact priced
    | some refunded =>
      intro other record found
      dsimp only [DepositLedger.get] at found
      rw [get_erase] at found
      split at found
      · cases found
      · exact priced other record found

theorem watch_conserved_iff (watched : Watched) (call : Call) (conserved : Conserved watched)
    (priced : Priced watched.ledger) :
    Conserved (watch watched call) ↔ OwnAndGrowing watched call := by
  cases call with
  | lock depositor key value blockHeight balance =>
    exact lock_conserved_iff watched depositor key value blockHeight balance conserved priced
  | refund key => exact iff_of_true (refund_conserved watched key conserved) trivial

end Step

theorem new_conserved : Conserved Watched.new := by
  constructor
  · intro account
    exact (congrArg Nat.cast (total_empty fun _ => DepositLedger.share account)).symm
  · exact (total_empty fun _ (record : DepositRecord) => record.amount.toNat).symm

theorem new_priced : Priced Watched.new.ledger := by
  intro key record found
  cases found

/-- After every call the accounts and the total are balanced, exactly if every
accepted lock meets the condition in the state it finds. -/
theorem deposits_conserved_iff (calls : List Call) :
    (∀ count, Conserved ((calls.take count).foldl watch .new)) ↔
      AllMeet watch OwnAndGrowing .new calls := by
  apply prefixes_hold_given_iff (fun watched : Watched => Priced watched.ledger) Conserved
    watch_priced _ .new calls new_priced new_conserved
  intro watched call priced conserved
  exact watch_conserved_iff watched call conserved priced

/-- Alice pays 10 for a key, Bob rewrites it for nothing, and the deletion pays
the 10 to Bob. -/
def takenOver : List Call :=
  [.lock "alice" "k" [] 1 100, .lock "bob" "k" [] 2 100, .refund "k"]

theorem deposit_paid_to_another :
    ¬ Conserved (takenOver.foldl watch .new) ∧
      (takenOver.foldl watch .new).paid "alice" = 10 ∧
      (takenOver.foldl watch .new).returned "alice" = 0 ∧
      (takenOver.foldl watch .new).ledger.activeFor "alice" = 0 ∧
      (takenOver.foldl watch .new).paid "bob" = 0 ∧
      (takenOver.foldl watch .new).returned "bob" = 10 := by
  refine ⟨fun conserved => ?_, by decide +kernel⟩
  exact absurd (conserved.accounts "alice") (by decide +kernel)

end CeruleanLedger.StorageDeposits
