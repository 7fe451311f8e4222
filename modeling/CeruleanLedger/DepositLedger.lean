import CeruleanLedger.Governance
import CeruleanLedger.GuardedRun

/-!
The deposits that a proposal store has locked, against those of the proposals that are still
open. Hydration brings an open proposal without locking its deposit, a veto refunds a proposal
that was refunded when it was rejected, and ids that wrap around overwrite an open proposal.
-/

namespace CeruleanLedger.DepositLedger

open Governance GuardedRun OrderedMap ProposalStore

inductive StoreOp where
  | submit (params : SubmitParams)
  | markPassed (id : ProposalId) (currentHeight timelockBlocks : UInt64)
  | markRejected (id : ProposalId) (currentHeight : UInt64)
  | markExecuted (id : ProposalId) (currentHeight : UInt64)
  | cancel (id : ProposalId) (caller : String) (currentHeight : UInt64)
  | emergencyVeto (id : ProposalId) (caller : String) (authorized : List String)
      (currentHeight : UInt64)
  | loadProposal (proposal : Proposal)

def attempt (store : ProposalStore) : StoreOp → Except ProposalError ProposalStore
  | .submit params => (store.submit params).map Prod.fst
  | .markPassed id height timelock => store.markPassed id height timelock
  | .markRejected id height => store.markRejected id height
  | .markExecuted id height => store.markExecuted id height
  | .cancel id caller height => store.cancel id caller height
  | .emergencyVeto id caller authorized height => store.emergencyVeto id caller authorized height
  | .loadProposal proposal => .ok (store.loadProposal proposal)

def accepted (store : ProposalStore) (op : StoreOp) : Bool := (attempt store op).isOk

def apply (store : ProposalStore) (op : StoreOp) : ProposalStore :=
  match attempt store op with
  | .ok after => after
  | .error _ => store

inductive Outcome (store : ProposalStore) : StoreOp → ProposalStore → Prop
  | submitted (params : SubmitParams) :
      Outcome store (.submit params)
        { proposals := store.proposals.insert store.nextId
            (SubmitParams.proposal params store.nextId)
          nextId := store.nextId + 1
          lockedDeposits := store.lockedDeposits.insert params.proposer
            (store.lockedDepositFor params.proposer + params.deposit)
          lastSubmission := store.lastSubmission.insert params.proposer params.currentHeight }
  | passed {id : ProposalId} {proposal : Proposal} {height : UInt64} (timelock : UInt64)
      (found : store.proposals[id]? = some proposal) (status : proposal.status = .voting)
      (ended : proposal.votingEndsAt ≤ height) :
      Outcome store (.markPassed id height timelock)
        { store with proposals := store.proposals.insert id { proposal with
            status := .passed, timelockEndsAt := some (height + timelock) } }
  | rejected {id : ProposalId} {proposal : Proposal} (height : UInt64)
      (found : store.proposals[id]? = some proposal) (status : proposal.status = .voting) :
      Outcome store (.markRejected id height) (store.finalize id proposal .rejected height)
  | executed {id : ProposalId} {proposal : Proposal} {height : UInt64}
      (found : store.proposals[id]? = some proposal) (status : proposal.status = .passed)
      (expired : ∀ expiresAt ∈ proposal.timelockEndsAt, expiresAt ≤ height) :
      Outcome store (.markExecuted id height) (store.finalize id proposal .executed height)
  | cancelled {id : ProposalId} {proposal : Proposal} (height : UInt64)
      (found : store.proposals[id]? = some proposal) (status : proposal.status = .voting) :
      Outcome store (.cancel id proposal.proposer height)
        (store.finalize id proposal .cancelled height)
  | vetoed {id : ProposalId} {proposal : Proposal} {caller : String} {authorized : List String}
      (height : UInt64) (found : store.proposals[id]? = some proposal)
      (unexecuted : proposal.status ≠ .executed) (uncancelled : proposal.status ≠ .cancelled) :
      Outcome store (.emergencyVeto id caller authorized height)
        (store.finalize id proposal .cancelled height)
  | loaded (proposal : Proposal) :
      Outcome store (.loadProposal proposal) (store.loadProposal proposal)

theorem accepted_of_ok {store after : ProposalStore} {op : StoreOp}
    (attempted : attempt store op = .ok after) : accepted store op = true := by
  rw [accepted, attempted]
  rfl

section Accepted

variable {store after : ProposalStore} {id : ProposalId} {height : UInt64}

theorem submit_ok {params : SubmitParams}
    (submitted : (store.submit params).map Prod.fst = .ok after) :
    Outcome store (.submit params) after := by
  simp only [submit] at submitted
  split at submitted
  · cases submitted
  split at submitted
  · cases submitted
  split at submitted
  · cases submitted
  · cases submitted
    exact .submitted params

theorem mark_passed_ok {timelock : UInt64}
    (marked : store.markPassed id height timelock = .ok after) :
    Outcome store (.markPassed id height timelock) after := by
  simp only [markPassed] at marked
  split at marked
  · cases marked
  next found =>
  split at marked
  · cases marked
  next voting =>
  split at marked
  · cases marked
  next ended =>
  cases marked
  exact .passed timelock found (not_not.mp voting) (UInt64.not_lt.mp ended)

theorem mark_rejected_ok (marked : store.markRejected id height = .ok after) :
    Outcome store (.markRejected id height) after := by
  simp only [markRejected] at marked
  split at marked
  · cases marked
  next found =>
  split at marked
  · cases marked
  next voting =>
  cases marked
  exact .rejected height found (not_not.mp voting)

theorem mark_executed_ok (marked : store.markExecuted id height = .ok after) :
    Outcome store (.markExecuted id height) after := by
  simp only [markExecuted] at marked
  split at marked
  · cases marked
  next found =>
  split at marked
  · cases marked
  next passed =>
  split at marked
  · cases marked
  next expired =>
  cases marked
  refine .executed found (not_not.mp passed) ?_
  intro expiresAt locked
  rw [Option.filter_eq_none_iff] at expired
  exact UInt64.not_lt.mp fun early => expired expiresAt locked (decide_eq_true early)

theorem cancel_ok {caller : String} (cancelled : store.cancel id caller height = .ok after) :
    Outcome store (.cancel id caller height) after := by
  simp only [cancel] at cancelled
  split at cancelled
  · cases cancelled
  next found =>
  split at cancelled
  · cases cancelled
  next own =>
  split at cancelled
  · cases cancelled
  next voting =>
  cases cancelled
  rw [← not_not.mp own]
  exact .cancelled height found (not_not.mp voting)

theorem emergency_veto_ok {caller : String} {authorized : List String}
    (vetoed : store.emergencyVeto id caller authorized height = .ok after) :
    Outcome store (.emergencyVeto id caller authorized height) after := by
  simp only [emergencyVeto] at vetoed
  split at vetoed
  · cases vetoed
  split at vetoed
  · cases vetoed
  next found =>
  split at vetoed
  · cases vetoed
  next live =>
  cases vetoed
  exact .vetoed height found (fun executed => live (.inl executed))
    (fun cancelled => live (.inr cancelled))

theorem attempt_ok {op : StoreOp} (attempted : attempt store op = .ok after) :
    Outcome store op after := by
  cases op with
  | submit params => exact submit_ok attempted
  | markPassed id height timelock => exact mark_passed_ok attempted
  | markRejected id height => exact mark_rejected_ok attempted
  | markExecuted id height => exact mark_executed_ok attempted
  | cancel id caller height => exact cancel_ok attempted
  | emergencyVeto id caller authorized height => exact emergency_veto_ok attempted
  | loadProposal proposal =>
    cases attempted
    exact .loaded proposal

end Accepted

def Active (proposal : Proposal) : Prop := proposal.status = .voting ∨ proposal.status = .passed
  deriving Decidable

def owed (proposer : String) (proposal : Proposal) : ℕ :=
  if proposal.proposer = proposer ∧ Active proposal then proposal.deposit.toNat else 0

def activeDeposits (store : ProposalStore) (proposer : String) : ℕ :=
  total (fun _ => owed proposer) store.proposals

def Exact (store : ProposalStore) : Prop :=
  ∀ proposer, (store.lockedDepositFor proposer).toNat = activeDeposits store proposer

def Idle (proposal : Proposal) : Prop := ¬ Active proposal ∨ proposal.deposit = 0
  deriving Decidable

theorem idle_iff (proposal : Proposal) :
    Idle proposal ↔ ∀ proposer, owed proposer proposal = 0 := by
  constructor
  · rintro (ended | nothing) proposer
    · exact if_neg fun both => ended both.2
    · simp [owed, nothing]
  · intro never
    by_cases active : Active proposal
    · right
      have own := never proposal.proposer
      rw [owed, if_pos ⟨rfl, active⟩] at own
      exact UInt64.toNat_inj.mp own
    · exact .inl active

theorem owed_inactive {proposal : Proposal} (ended : ¬ Active proposal) (proposer : String) :
    owed proposer proposal = 0 := (idle_iff proposal).mp (.inl ended) proposer

theorem refund_for (locked : Std.ExtTreeMap String UInt64) (proposer other : String)
    (amount : UInt64) :
    ((refundDeposit locked proposer amount)[other]?.getD 0).toNat =
      (locked[other]?.getD (0 : UInt64)).toNat - if proposer = other then amount.toNat else 0 := by
  unfold refundDeposit
  by_cases own : proposer = other
  · subst own
    rw [if_pos rfl]
    cases found : locked[proposer]? with
    | none => simp [found]
    | some held =>
      dsimp only
      rw [Option.getD_some, ← NativeLedger.saturating_sub_toNat]
      split
      · next nothing => rw [get_erase, if_pos rfl, nothing]; rfl
      · rw [get_insert, if_pos rfl]; rfl
  · rw [if_neg own, Nat.sub_zero]
    split
    · rfl
    · dsimp only
      split
      · rw [get_erase, if_neg own]
      · rw [get_insert, if_neg own]

section Steps

variable {store : ProposalStore}
variable {id : ProposalId} {proposal : Proposal} {height : UInt64}

/-- A refund keeps the ledger exact if the proposal was active, and otherwise
only if there is nothing to take away. -/
theorem finalize_exact_iff {status : ProposalStatus} (exactly : Exact store)
    (found : store.proposals[id]? = some proposal) (ends : status ≠ .voting ∧ status ≠ .passed) :
    Exact (store.finalize id proposal status height) ↔
      Active proposal ∨ proposal.deposit = 0 ∨ store.lockedDepositFor proposal.proposer = 0 := by
  have inactive : ¬ Active { proposal with status, finalizedAt := some height } := by
    rintro (voting | passed)
    · exact ends.1 voting
    · exact ends.2 passed
  have after : ∀ proposer, activeDeposits (store.finalize id proposal status height) proposer =
      activeDeposits store proposer - owed proposer proposal := by
    intro proposer
    have change := total_insert_add (fun _ => owed proposer) store.proposals id
      { proposal with status, finalizedAt := some height }
    rw [owed_inactive inactive, weightAt, found] at change
    exact Nat.eq_sub_of_add_eq change
  have locked : ∀ proposer, ((store.finalize id proposal status height).lockedDepositFor
      proposer).toNat = activeDeposits store proposer -
        if proposal.proposer = proposer then proposal.deposit.toNat else 0 := by
    intro proposer
    rw [← exactly proposer]
    exact refund_for store.lockedDeposits proposal.proposer proposer proposal.deposit
  have held := exactly proposal.proposer
  constructor
  · intro kept
    by_cases active : Active proposal
    · exact .inl active
    · right
      have own := kept proposal.proposer
      rw [locked, after, if_pos rfl, owed_inactive active, Nat.sub_zero, ← held] at own
      rw [← UInt64.toNat_inj, ← UInt64.toNat_inj]
      simp only [UInt64.toNat_zero]
      omega
  · intro harmless proposer
    rw [locked, after]
    by_cases own : proposal.proposer = proposer
    · subst own
      rw [if_pos rfl]
      rcases harmless with active | nothing | empty
      · rw [owed, if_pos ⟨rfl, active⟩]
      · simp [owed, nothing]
      · rw [← held, empty]
        simp
    · rw [if_neg own, owed, if_neg fun both => own both.1]

theorem finalize_exact {status : ProposalStatus} (exactly : Exact store)
    (found : store.proposals[id]? = some proposal) (ends : status ≠ .voting ∧ status ≠ .passed)
    (active : Active proposal) : Exact (store.finalize id proposal status height) :=
  (finalize_exact_iff exactly found ends).mpr (.inl active)

/-- Totals stay below 2^64, and a proposal is loaded under an id that is not in
use. -/
def Assumed (store : ProposalStore) : StoreOp → Prop
  | .submit params => accepted store (.submit params) →
    (store.lockedDepositFor params.proposer).toNat + params.deposit.toNat < 2 ^ 64
  | .loadProposal proposal => store.proposals[proposal.id]? = none
  | _ => True

/-- Where an operation is accepted, no deposit goes missing and none is refunded
twice. -/
def Keeps (store : ProposalStore) : StoreOp → Prop
  | .submit params => accepted store (.submit params) →
    ∀ overwritten ∈ store.proposals[store.nextId]?, Idle overwritten
  | .emergencyVeto id caller authorized height =>
    accepted store (.emergencyVeto id caller authorized height) →
      ∀ proposal ∈ store.proposals[id]?, Active proposal ∨ proposal.deposit = 0 ∨
        store.lockedDepositFor proposal.proposer = 0
  | .loadProposal proposal => Idle proposal
  | _ => True

instance (store : ProposalStore) : (op : StoreOp) → Decidable (Assumed store op)
  | .submit _ => inferInstanceAs (Decidable (_ → _))
  | .loadProposal _ => inferInstanceAs (Decidable (_ = _))
  | .markPassed _ _ _ | .markRejected _ _ | .markExecuted _ _ | .cancel _ _ _
  | .emergencyVeto _ _ _ _ => .isTrue trivial

instance (store : ProposalStore) : (op : StoreOp) → Decidable (Keeps store op)
  | .submit _ => inferInstanceAs (Decidable (_ → _))
  | .emergencyVeto _ _ _ _ => inferInstanceAs (Decidable (_ → _))
  | .loadProposal proposal => inferInstanceAs (Decidable (Idle proposal))
  | .markPassed _ _ _ | .markRejected _ _ | .markExecuted _ _ | .cancel _ _ _ => .isTrue trivial

theorem weightless_iff (store : ProposalStore) (id : ProposalId) :
    (∀ proposer, weightAt (fun _ => owed proposer) store.proposals id = 0) ↔
      ∀ proposal ∈ store.proposals[id]?, Idle proposal := by
  cases found : store.proposals[id]? with
  | none => simp [weightAt, found]
  | some proposal => simp [weightAt, found, idle_iff]

theorem submit_exact_iff (params : SubmitParams) (exactly : Exact store)
    (small : (store.lockedDepositFor params.proposer).toNat + params.deposit.toNat < 2 ^ 64)
    {after : ProposalStore} (outcome : Outcome store (.submit params) after) :
    Exact after ↔ ∀ overwritten ∈ store.proposals[store.nextId]?, Idle overwritten := by
  cases outcome
  rw [← weightless_iff]
  refine forall_congr' fun proposer => ?_
  have change := total_insert_add (fun _ => owed proposer) store.proposals store.nextId
    (SubmitParams.proposal params store.nextId)
  have held := exactly proposer
  simp only [lockedDepositFor, activeDeposits, get_insert] at held small ⊢
  by_cases own : params.proposer = proposer
  · subst own
    have new : owed params.proposer
        (SubmitParams.proposal params store.nextId) = params.deposit.toNat :=
      if_pos ⟨rfl, .inl rfl⟩
    rw [if_pos rfl, Option.getD_some, UInt64.toNat_add, Nat.mod_eq_of_lt small]
    omega
  · have new : owed proposer
        (SubmitParams.proposal params store.nextId) = 0 :=
      if_neg fun both => own both.1
    rw [if_neg own]
    omega

theorem passed_exact {timelock : UInt64} (exactly : Exact store)
    (found : store.proposals[id]? = some proposal) (status : proposal.status = .voting) :
    Exact { store with proposals := store.proposals.insert id { proposal with
      status := .passed, timelockEndsAt := some (height + timelock) } } := by
  intro proposer
  have change := total_insert_add (fun _ => owed proposer) store.proposals id
    { proposal with status := .passed, timelockEndsAt := some (height + timelock) }
  have same : owed proposer
      { proposal with status := .passed, timelockEndsAt := some (height + timelock) } =
        owed proposer proposal := by simp [owed, Active, status]
  rw [weightAt, found, same] at change
  exact (exactly proposer).trans (Nat.add_right_cancel change).symm

theorem load_exact_iff (proposal : Proposal) (exactly : Exact store)
    (fresh : store.proposals[proposal.id]? = none) :
    Exact (store.loadProposal proposal) ↔ Idle proposal := by
  rw [idle_iff]
  refine forall_congr' fun proposer => ?_
  have grown := total_insert_fresh (fun _ => owed proposer) store.proposals proposal fresh
  have held := exactly proposer
  simp only [lockedDepositFor, activeDeposits, loadProposal] at held ⊢
  omega

theorem apply_exact_iff (store : ProposalStore) (op : StoreOp) (exactly : Exact store)
    (assumed : Assumed store op) : Exact (apply store op) ↔ Keeps store op := by
  cases attempted : attempt store op with
  | error reason =>
    have same : apply store op = store := by rw [apply, attempted]
    rw [same]
    have refused : accepted store op = false := by rw [accepted, attempted]; rfl
    refine iff_of_true exactly ?_
    cases op with
    | loadProposal proposal => cases attempted
    | markPassed _ _ _ => trivial
    | markRejected _ _ => trivial
    | markExecuted _ _ => trivial
    | cancel _ _ _ => trivial
    | _ =>
      exact fun taken => absurd taken (by simp [refused])
  | ok after =>
    have next : apply store op = after := by rw [apply, attempted]
    rw [next]
    have outcome := attempt_ok attempted
    cases outcome with
    | submitted params =>
      have taken := accepted_of_ok attempted
      rw [submit_exact_iff params exactly (assumed taken) (.submitted params)]
      exact ⟨fun idle _ => idle, fun keeps => keeps taken⟩
    | passed timelock found status _ =>
      exact iff_of_true (passed_exact exactly found status) trivial
    | rejected height found status =>
      exact iff_of_true (finalize_exact exactly found ⟨nofun, nofun⟩ (.inl status)) trivial
    | executed found status _ =>
      exact iff_of_true (finalize_exact exactly found ⟨nofun, nofun⟩ (.inr status)) trivial
    | cancelled height found status =>
      exact iff_of_true (finalize_exact exactly found ⟨nofun, nofun⟩ (.inl status)) trivial
    | vetoed height found _ _ =>
      have ends : ProposalStatus.cancelled ≠ .voting ∧ ProposalStatus.cancelled ≠ .passed :=
        ⟨nofun, nofun⟩
      rw [finalize_exact_iff exactly found ends, Keeps, found]
      constructor
      · intro harmless _ proposal same
        cases same
        exact harmless
      · exact fun keeps => keeps (accepted_of_ok attempted) _ rfl
    | loaded proposal => exact load_exact_iff proposal exactly assumed

end Steps

theorem new_exact : Exact new := by
  intro proposer
  have nothing : (∅ : Std.ExtTreeMap String UInt64)[proposer]? = none := by simp
  rw [activeDeposits, lockedDepositFor, new, total_empty, nothing]
  rfl

/-- In every run from a new store, the locked deposits are those of the active
proposals at each moment exactly if every operation keeps the deposits in place. -/
theorem deposits_exact_iff (ops : List StoreOp)
    (assumed : AllMeet apply Assumed new ops) :
    (∀ count, Exact ((ops.take count).foldl apply new)) ↔
      AllMeet apply Keeps new ops :=
  prefixes_hold_ahead_iff (AllMeet apply Assumed) Exact (fun _ _ _ assumed _ _ => assumed.2)
    (fun store op _ assumed exact => apply_exact_iff store op exact assumed.1)
    new ops assumed new_exact

def pollParams (proposer : String) (height : UInt64) : SubmitParams :=
  ⟨proposer, .textProposal "title" "text", "poll", 500, 100, height, 10⟩

def loadedPoll (id : ProposalId) (status : ProposalStatus) : Proposal :=
  ⟨id, "alice", .textProposal "title" "text", status, 500, 1, 11, none, none, "poll"⟩

def orderlyRun : List StoreOp :=
  [.submit (pollParams "alice" 1), .markRejected 1 11, .submit (pollParams "alice" 101),
    .loadProposal (loadedPoll 7 .executed), .markPassed 2 111 5]

theorem orderly_run_exact :
    AllMeet apply Assumed new orderlyRun ∧
      ∀ count, Exact ((orderlyRun.take count).foldl apply new) := by
  have assumed : AllMeet apply Assumed new orderlyRun := by decide +kernel
  exact ⟨assumed, (deposits_exact_iff orderlyRun assumed).mpr (by decide +kernel)⟩

def hydratedRun : List StoreOp := [.loadProposal (loadedPoll 1 .voting)]

def vetoedRun : List StoreOp :=
  [.submit (pollParams "alice" 1), .markRejected 1 11, .submit (pollParams "alice" 101),
    .emergencyVeto 1 "admin" ["admin"] 102]

/-- The deposit of a hydrated proposal is not locked, and the veto of a rejected
proposal takes the deposit of another one away. -/
theorem deposits_lost :
    let hydrated := hydratedRun.foldl apply new
    let vetoed := vetoedRun.foldl apply new
    (AllMeet apply Assumed new hydratedRun ∧
        hydrated.lockedDepositFor "alice" = 0 ∧ activeDeposits hydrated "alice" = 500) ∧
      AllMeet apply Assumed new vetoedRun ∧
        vetoed.lockedDepositFor "alice" = 0 ∧ activeDeposits vetoed "alice" = 500 := by
  decide +kernel

end CeruleanLedger.DepositLedger
