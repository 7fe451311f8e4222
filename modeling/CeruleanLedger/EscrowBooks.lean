import CeruleanLedger.Bridge
import CeruleanLedger.GuardedRun

/-!
The escrow vault over any sequence of calls. An entry is made once and leaves
`Pending` once; the two kinds of totals follow the entries and the balances modulo
`2 ^ 64`; a token sees only the calls that are about it. A call has passed its last
check before its first write.
-/

namespace CeruleanLedger.EscrowBooks

open Bridge ByteCodec GuardedRun InPlace OrderedMap
open EscrowVault

section Calls

inductive EscrowCall where
  | lock (messageId : Hash32) (sender : String) (amount : UInt64) (denom destChain : String)
      (blockHeight : UInt64)
  | release (messageId : Hash32) (blockHeight : UInt64)
  | refund (messageId : Hash32) (blockHeight : UInt64)
  | mint (recipient : String) (amount : UInt64) (sourceChain denom : String)
  | burn (account : String) (amount : UInt64) (sourceChain denom : String)

inductive Answer where
  | locked
  | settled (entry : EscrowEntry)
  | balance (amount : UInt64)

def method : EscrowCall → Method Answer
  | .lock messageId sender amount denom destChain blockHeight => do
    lock messageId sender amount denom destChain blockHeight
    return .locked
  | .release messageId blockHeight => return .settled (← release messageId blockHeight)
  | .refund messageId blockHeight => return .settled (← refund messageId blockHeight)
  | .mint recipient amount sourceChain denom =>
    return .balance (← mint recipient amount sourceChain denom)
  | .burn account amount sourceChain denom =>
    return .balance (← burn account amount sourceChain denom)

def perform (vault : EscrowVault) (call : EscrowCall) :
    EscrowVault × Except EscrowError Answer :=
  match (method call).run vault with
  | .error reason after => (after, .error reason)
  | .ok answer after => (after, .ok answer)

def EscrowCall.locks : EscrowCall → Option Hash32
  | .lock messageId .. => some messageId
  | _ => none

def EscrowCall.settles : EscrowCall → Option Hash32
  | .release messageId _ => some messageId
  | .refund messageId _ => some messageId
  | _ => none

def EscrowCall.token : EscrowCall → Option (String × String)
  | .mint _ _ sourceChain denom => some (sourceChain, denom)
  | .burn _ _ sourceChain denom => some (sourceChain, denom)
  | _ => none

/-- One account of a token and its supply change alike. -/
def change (amount : UInt64) (account : String) (balance : WrappedBalance) : WrappedBalance :=
  ⟨balance.balances.insert account (balance.balances[account]?.getD 0 + amount),
    balance.totalSupply + amount⟩

/-- What an accepted call does. -/
inductive Accepted (vault : EscrowVault) (call : EscrowCall) : EscrowVault → Prop where
  | locked (id : Hash32) (entry : EscrowEntry) (locks : call.locks = some id)
      (settles : call.settles = none) (fresh : vault.locked[id]? = none)
      (pending : entry.status = .pending) :
      Accepted vault call { vault with
        locked := vault.locked.insert id entry
        totalLocked := vault.totalLocked + entry.amount }
  | settled (id : Hash32) (entry after : EscrowEntry) (locks : call.locks = none)
      (settles : call.settles = some id) (found : vault.locked[id]? = some entry)
      (pending : entry.status = .pending) (ended : after.status ≠ .pending) :
      Accepted vault call { vault with
        locked := vault.locked.insert id after
        totalLocked := vault.totalLocked - entry.amount }
  | booked (token : String × String) (account : String) (amount : UInt64)
      (locks : call.locks = none) (settles : call.settles = none)
      (about : call.token = some token) :
      Accepted vault call { vault with
        wrapped := vault.wrapped.insert token
          (change amount account (vault.wrappedOf token.1 token.2)) }

variable {vault after : EscrowVault} {call : EscrowCall} {answer : Answer}

theorem settle_accepted {id : Hash32} {status : TransferStatus} {height : UInt64}
    {entry : EscrowEntry} (locks : call.locks = none) (settles : call.settles = some id)
    (ended : status ≠ .pending) (ran : (settle status id height).run vault = .ok entry after) :
    Accepted vault call after := by
  simp only [settle, setEntry, setLocked, run_check_ok_iff, run_read, run_write, insert_twice,
    ok_or_ok_iff, refuse_ok_iff, EStateM.run_pure, EStateM.Result.ok.injEq] at ran
  obtain ⟨_, found, _, pending, _, rfl⟩ := ran
  exact .settled id _ _ locks settles found (not_not.mp pending) ended

theorem method_accepted (ran : (method call).run vault = .ok answer after) :
    Accepted vault call after := by
  cases call with
  | lock id sender amount denom dest height =>
    obtain ⟨_, ran⟩ := run_of_return ran
    simp only [lock, run_check_ok_iff, run_read, refuse_ok_iff] at ran
    obtain ⟨_, _, _, fresh, finished⟩ := ran
    obtain ⟨_, rfl⟩ := EStateM.Result.ok.inj finished
    exact .locked id _ rfl rfl (by simpa using fresh) rfl
  | release id height =>
    obtain ⟨_, settled⟩ := run_of_return ran
    exact settle_accepted rfl rfl (by decide) settled
  | refund id height =>
    obtain ⟨_, settled⟩ := run_of_return ran
    exact settle_accepted rfl rfl (by decide) settled
  | mint recipient amount chain denom =>
    obtain ⟨_, ran⟩ := run_of_return ran
    simp only [mint, setWrapped, run_check_ok_iff, run_read, run_write, insert_twice,
      EStateM.run_pure, EStateM.Result.ok.injEq] at ran
    obtain ⟨_, _, _, rfl⟩ := ran
    exact .booked (chain, denom) recipient amount rfl rfl rfl
  | burn account amount chain denom =>
    obtain ⟨_, ran⟩ := run_of_return ran
    simp only [burn, setWrapped, run_check_ok_iff, run_read, run_write, insert_twice,
      ok_or_ok_iff, EStateM.run_pure, EStateM.Result.ok.injEq] at ran
    obtain ⟨_, _, balance, found, held, stored, _, _, _, rfl⟩ := ran
    have reduced : change (-amount) account (vault.wrappedOf chain denom) =
        ⟨balance.balances.insert account (held - amount), balance.totalSupply - amount⟩ := by
      simp [change, wrappedOf, found, stored, UInt64.sub_eq_add_neg]
    rw [← reduced]
    exact .booked (chain, denom) account (-amount) rfl rfl rfl

theorem method_atomic (vault : EscrowVault) (call : EscrowCall) :
    Atomic (method call) vault := by
  have settles (status : TransferStatus) (id : Hash32) (height : UInt64) :
      Atomic (settle status id height) vault :=
    atomic_read (atomic_check fun _ => atomic_check fun _ => atomic_done ⟨_, _, rfl⟩)
  cases call with
  | lock id sender amount denom dest height =>
    exact atomic_return (fun _ => Answer.locked) (atomic_check fun _ =>
      atomic_read (atomic_check fun _ => atomic_done ⟨_, _, rfl⟩))
  | release id height => exact atomic_return Answer.settled (settles .completed id height)
  | refund id height => exact atomic_return Answer.settled (settles .refunded id height)
  | mint recipient amount chain denom =>
    exact atomic_return Answer.balance (atomic_check fun _ =>
      atomic_read (atomic_done ⟨_, _, rfl⟩))
  | burn account amount chain denom =>
    exact atomic_return Answer.balance (atomic_check fun _ => atomic_read
      (atomic_check fun _ => atomic_check fun _ => atomic_check fun _ =>
        atomic_done ⟨_, _, rfl⟩))

theorem perform_cases (vault : EscrowVault) (call : EscrowCall) :
    (∃ reason, perform vault call = (vault, .error reason)) ∨
      ∃ answer after, Accepted vault call after ∧ perform vault call = (after, .ok answer) := by
  unfold perform
  cases ran : (method call).run vault with
  | error reason after =>
    cases method_atomic vault call reason after ran
    exact .inl ⟨reason, rfl⟩
  | ok answer after => exact .inr ⟨answer, after, method_accepted ran, rfl⟩

end Calls

section Books

/-- The vault with the ids that were locked and those that left `Pending`. -/
structure Journal where
  vault : EscrowVault
  locked : List Hash32
  left : List Hash32

def Journal.new : Journal := ⟨.new, [], []⟩

def note (journal : Journal) (call : EscrowCall) : Journal :=
  match perform journal.vault call with
  | (after, .error _) => { journal with vault := after }
  | (after, .ok _) =>
    ⟨after, journal.locked ++ call.locks.toList, journal.left ++ call.settles.toList⟩

def pendingAmount (_ : Hash32) (entry : EscrowEntry) : Nat :=
  if entry.status = .pending then entry.amount.toNat else 0

def balanceSum (balance : WrappedBalance) : Nat :=
  total (fun _ amount => amount.toNat) balance.balances

structure Balanced (journal : Journal) : Prop where
  lockedOnce : journal.locked.Nodup
  leftOnce : journal.left.Nodup
  entries : ∀ id : Hash32, id ∈ journal.locked ↔ journal.vault.locked[id]?.isSome = true
  pending : ∀ (id : Hash32) (entry : EscrowEntry), journal.vault.locked[id]? = some entry →
    (entry.status = .pending ↔ id ∉ journal.left)
  known : ∀ id ∈ journal.left, id ∈ journal.locked
  totalLocked : journal.vault.totalLocked.toNat =
    total pendingAmount journal.vault.locked % 2 ^ 64
  supply : ∀ chain denom, (journal.vault.wrappedTotalSupply chain denom).toNat =
    balanceSum (journal.vault.wrappedOf chain denom) % 2 ^ 64

theorem change_sum (amount : UInt64) (account : String) {balance : WrappedBalance}
    (sums : balance.totalSupply.toNat = balanceSum balance % 2 ^ 64) :
    (change amount account balance).totalSupply.toNat =
      balanceSum (change amount account balance) % 2 ^ 64 := by
  have books := total_replace balance.balances (fun amount => amount.toNat)
    (rfl : (0 : UInt64).toNat = 0) account (balance.balances[account]?.getD 0 + amount)
  rw [UInt64.toNat_add] at books
  simp only [change, balanceSum, UInt64.toNat_add, sums] at books ⊢
  omega

variable {journal : Journal} (balanced : Balanced journal) {id : Hash32} {entry : EscrowEntry}
include balanced

theorem Balanced.lock (fresh : journal.vault.locked[id]? = none)
    (pending : entry.status = .pending) :
    Balanced ⟨{ journal.vault with
      locked := journal.vault.locked.insert id entry
      totalLocked := journal.vault.totalLocked + entry.amount },
      journal.locked ++ [id], journal.left⟩ := by
  have unknown : id ∉ journal.locked := by simp [balanced.entries, fresh]
  constructor
  case lockedOnce => exact List.concat_eq_append ▸ balanced.lockedOnce.concat unknown
  case leftOnce => exact balanced.leftOnce
  case entries =>
    intro other
    by_cases same : id = other
    · simp [same]
    · simp [get_insert, same, Ne.symm same, balanced.entries]
  case pending =>
    intro other stored found
    rw [get_insert] at found
    split at found
    · next same =>
      cases found
      have notLeft : id ∉ journal.left := fun member => unknown (balanced.known id member)
      simp [pending, ← same, notLeft]
    · exact balanced.pending other stored found
  case known => exact fun other member => List.mem_append_left _ (balanced.known other member)
  case totalLocked =>
    have sum := total_insert_fresh pendingAmount journal.vault.locked entry fresh
    simp only [pendingAmount, pending, ↓reduceIte] at sum
    simp only [UInt64.toNat_add, balanced.totalLocked, sum]
    omega
  case supply => exact balanced.supply

theorem Balanced.settle {after : EscrowEntry} (found : journal.vault.locked[id]? = some entry)
    (pending : entry.status = .pending) (ended : after.status ≠ .pending) :
    Balanced ⟨{ journal.vault with
      locked := journal.vault.locked.insert id after
      totalLocked := journal.vault.totalLocked - entry.amount },
      journal.locked, journal.left ++ [id]⟩ := by
  have waiting := (balanced.pending id entry found).mp pending
  have known : id ∈ journal.locked := by simp [balanced.entries, found]
  constructor
  case lockedOnce => exact balanced.lockedOnce
  case leftOnce => exact List.concat_eq_append ▸ balanced.leftOnce.concat waiting
  case entries =>
    intro other
    by_cases same : id = other
    · simp [← same, known]
    · simp [get_insert, same, balanced.entries]
  case pending =>
    intro other stored stands
    rw [get_insert] at stands
    split at stands
    · next same =>
      cases stands
      simp [ended, same]
    · next same => simp [balanced.pending other stored stands, Ne.symm same]
  case known =>
    intro other member
    rcases List.mem_append.mp member with earlier | now
    · exact balanced.known other earlier
    · exact List.mem_singleton.mp now ▸ known
  case totalLocked =>
    have sum := total_insert_add pendingAmount journal.vault.locked id after
    simp only [weightAt, found, Option.elim_some, pendingAmount, pending, ended, ↓reduceIte] at sum
    have bound := entry.amount.toNat_lt
    simp only [UInt64.toNat_sub, balanced.totalLocked]
    omega
  case supply => exact balanced.supply

theorem Balanced.book (token : String × String) (account : String) (amount : UInt64) :
    Balanced { journal with vault := { journal.vault with
      wrapped := journal.vault.wrapped.insert token
        (change amount account (journal.vault.wrappedOf token.1 token.2)) } } where
  lockedOnce := balanced.lockedOnce
  leftOnce := balanced.leftOnce
  entries := balanced.entries
  pending := balanced.pending
  known := balanced.known
  totalLocked := balanced.totalLocked
  supply := by
    intro chain denom
    by_cases same : token = (chain, denom)
    · subst same
      have sums := change_sum amount account (balanced.supply chain denom)
      simpa [wrappedTotalSupply, wrappedOf, get_insert] using sums
    · have sums := balanced.supply chain denom
      simpa [wrappedTotalSupply, wrappedOf, get_insert, same] using sums

theorem Balanced.note (call : EscrowCall) : Balanced (note journal call) := by
  unfold EscrowBooks.note
  rcases perform_cases journal.vault call with ⟨reason, failed⟩ | ⟨answer, after, accepted, done⟩
  · rw [failed]
    exact balanced
  · rw [done]
    cases accepted with
    | locked id entry locks settles fresh pending =>
      simpa [locks, settles] using balanced.lock fresh pending
    | settled id entry ended locks settles found pending left =>
      simpa [locks, settles] using balanced.settle found pending left
    | booked token account amount locks settles about =>
      simpa [locks, settles] using balanced.book token account amount

end Books

section Tokens

variable {vault other : EscrowVault} {call : EscrowCall} {token : String × String}

theorem perform_elsewhere (elsewhere : call.token ≠ some token) :
    (perform vault call).1.wrapped[token]? = vault.wrapped[token]? := by
  rcases perform_cases vault call with ⟨reason, failed⟩ | ⟨answer, after, accepted, done⟩
  · rw [failed]
  · rw [done]
    cases accepted with
    | locked => rfl
    | settled => rfl
    | booked booked account amount locks settles about =>
      have apart : booked ≠ token := fun same => elsewhere (same ▸ about)
      simp [get_insert, apart]

theorem perform_alike (about : call.token = some token)
    (alike : vault.wrapped[token]? = other.wrapped[token]?) :
    (perform vault call).2 = (perform other call).2 ∧
      (perform vault call).1.wrapped[token]? = (perform other call).1.wrapped[token]? := by
  cases call with
  | mint recipient amount chain denom =>
    cases about
    by_cases zero : amount = 0
    · subst zero
      exact ⟨rfl, alike⟩
    · simp [perform, method, mint, refuseIf, zero, setWrapped, wrappedOf, alike, EStateM.run_bind]
  | burn account amount chain denom =>
    cases about
    by_cases zero : amount = 0
    · subst zero
      exact ⟨rfl, alike⟩
    simp only [perform, method, burn, setWrapped, refuseIf, okOr, zero, alike, EStateM.run_bind,
      EStateM.run_get, EStateM.run_modify, ↓reduceIte, run_check_ok]
    cases stored : other.wrapped[(chain, denom)]? with
    | none => simp [alike, stored]
    | some balance =>
      cases own : balance.balances[account]? with
      | none => simp [own, alike, stored]
      | some held =>
        by_cases short : held < amount
        · simp [own, short, alike, stored]
        · simp [own, short]
  | _ => cases about

theorem note_vault (journal : Journal) (call : EscrowCall) :
    (note journal call).vault = (perform journal.vault call).1 := by
  unfold note
  split <;> simp [*]

theorem run_token (token : String × String) (calls : List EscrowCall) (journal apart : Journal)
    (alike : journal.vault.wrapped[token]? = apart.vault.wrapped[token]?) :
    (calls.foldl note journal).vault.wrapped[token]? =
      ((calls.filter (·.token = some token)).foldl note apart).vault.wrapped[token]? := by
  induction calls generalizing journal apart with
  | nil => exact alike
  | cons call rest ih =>
    by_cases about : call.token = some token
    · simp only [about, decide_true, List.filter_cons_of_pos, List.foldl_cons]
      apply ih
      simpa only [note_vault] using (perform_alike about alike).2
    · simp only [about, decide_false, Bool.false_eq_true, not_false_eq_true,
        List.filter_cons_of_neg, List.foldl_cons]
      apply ih
      rw [note_vault, perform_elsewhere about, alike]

end Tokens

/-- The books balance after every sequence of calls; what a token holds and how it is
answered follows from the calls about it; and a call that fails leaves the vault. -/
theorem escrow_books (calls : List EscrowCall) :
    Balanced (calls.foldl note .new) ∧
      (∀ token, let own := calls.filter (·.token = some token)
        (calls.foldl note .new).vault.wrapped[token]? =
            (own.foldl note .new).vault.wrapped[token]? ∧
          ∀ call : EscrowCall, call.token = some token →
            (perform (calls.foldl note .new).vault call).2 =
              (perform (own.foldl note .new).vault call).2) ∧
      ∀ call reason, (perform (calls.foldl note .new).vault call).2 = .error reason →
        (perform (calls.foldl note .new).vault call).1 = (calls.foldl note .new).vault := by
  have opened : Balanced .new := by
    constructor <;> simp [Journal.new, new, wrappedTotalSupply,
      wrappedOf, balanceSum]
  refine ⟨run_keeps Balanced .new calls opened fun _ call balanced => balanced.note call, ?_, ?_⟩
  · intro token own
    have alike := run_token token calls .new .new rfl
    exact ⟨alike, fun call about => (perform_alike about alike).1⟩
  · intro call reason failed
    rcases perform_cases (calls.foldl note .new).vault call with
      ⟨other, refused⟩ | ⟨answer, after, accepted, done⟩
    · rw [refused]
    · rw [done] at failed
      cases failed

end CeruleanLedger.EscrowBooks
