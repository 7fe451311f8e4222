import CeruleanLedger.TokenAuthority

/-!
The books of a token contract, kept beside it: what was minted and burned, what each holder last
granted to each spender and what the spender moved since. The cap on the supply is checked
against a sum that wraps; the cap itself keeps that sum exact.
-/

namespace CeruleanLedger.TokenAccounting

open SmartContracts ContractSteps GuardedRun OrderedMap TokenAuthority InPlace

structure Books where
  minted : ℕ
  burned : ℕ
  granted : String → String → ℕ
  moved : String → String → ℕ

def Books.new : Books := ⟨0, 0, fun _ _ => 0, fun _ _ => 0⟩

def setAt (sums : String → String → ℕ) (owner spender : String) (amount : ℕ) :
    String → String → ℕ :=
  fun other another => if owner = other ∧ spender = another then amount else sums other another

def Books.enter (books : Books) : ContractFunction → Option String → Books
  | .mint _ amount, _ => { books with minted := books.minted + amount.toNat }
  | .burn _ amount, _ => { books with burned := books.burned + amount.toNat }
  | .approve spender amount, some owner =>
    { books with
      granted := setAt books.granted owner spender amount.toNat
      moved := setAt books.moved owner spender 0 }
  | .transferFrom fromAddr _ amount, some spender =>
    { books with
      moved := setAt books.moved fromAddr spender (books.moved fromAddr spender + amount.toNat) }
  | _, _ => books

structure Watched where
  contract : SmartContract
  books : Books

section Run

variable (platform : Platform)

def watch (watched : Watched) (call : Call) : Watched :=
  match perform platform watched.contract call with
  | .ok _ contract => ⟨contract, watched.books.enter call.function call.caller⟩
  | .error _ contract => { watched with contract }

end Run

structure Balanced (watched : Watched) : Prop where
  supply : supply watched.contract + watched.books.burned = watched.books.minted
  capped : ∀ cap ∈ watched.contract.totalSupply, TokenAuthority.supply watched.contract ≤ cap.toNat
  allowances : ∀ owner spender, watched.books.moved owner spender +
    (watched.contract.allowance owner spender).toNat = watched.books.granted owner spender

theorem sum_toNat (values : List UInt64) :
    values.sum.toNat = (values.map UInt64.toNat).sum % 2 ^ 64 := by
  induction values with
  | nil => rfl
  | cons value rest ih =>
    rw [List.sum_cons, List.map_cons, List.sum_cons, UInt64.toNat_add, ih, Nat.add_mod_mod]

theorem current_supply_exact {contract : SmartContract} (fits : supply contract < 2 ^ 64) :
    contract.getCurrentSupply.toNat = supply contract := by
  rw [SmartContract.getCurrentSupply, sum_toNat, List.map_map]
  exact Nat.mod_eq_of_lt fits

section Step

variable {contract : SmartContract} {books : Books} {state : ContractState}
  {function : ContractFunction} {caller : Option String}

theorem outcome_supply (books : Books) (outcome : Outcome contract function caller state) :
    total (fun _ balance => balance.toNat) state.balances + (books.enter function caller).burned +
        books.minted =
      supply contract + books.burned + (books.enter function caller).minted := by
  cases outcome with
  | transferred metadata positive apart covered fits =>
    rw [supply_move apart covered fits]
    rfl
  | transferredFrom metadata positive apart allowed covered fits =>
    rw [supply_move apart covered fits]
    rfl
  | minted positive capped fits =>
    rw [supply_minted fits]
    dsimp only [Books.enter]
    omega
  | burned positive covered =>
    have shrunk := supply_burned covered
    dsimp only [Books.enter]
    omega
  | _ => rfl

theorem outcome_capped (outcome : Outcome contract function caller state) (cap : UInt64)
    (limit : contract.totalSupply = some cap) (capped : supply contract ≤ cap.toNat) :
    total (fun _ balance => balance.toNat) state.balances ≤ cap.toNat := by
  have precise := current_supply_exact (Nat.lt_of_le_of_lt capped cap.toNat_lt)
  cases outcome with
  | transferred metadata positive apart covered fits => rwa [supply_move apart covered fits]
  | transferredFrom metadata positive apart allowed covered fits =>
    rwa [supply_move apart covered fits]
  | minted positive within fits =>
    rw [supply_minted fits, ← precise]
    exact within cap limit
  | burned positive covered =>
    have shrunk := supply_burned covered
    dsimp only
    omega
  | _ => exact capped

/-- What a spender moved since the last grant and what is left add up to it. -/
theorem outcome_allowances (outcome : Outcome contract function caller state)
    (before : ∀ owner spender, books.moved owner spender +
      (contract.allowance owner spender).toNat = books.granted owner spender)
    (owner spender : String) :
    (books.enter function caller).moved owner spender +
        ((state.allowances[owner]?.bind (·[spender]?)).getD 0).toNat =
      (books.enter function caller).granted owner spender := by
  have unchanged := before owner spender
  cases outcome with
  | @transferredFrom fromAddr toAddr sender amount metadata positive apart allowed covered fits =>
    rw [allowance_decrease allowed owner spender]
    dsimp only [Books.enter, setAt]
    split
    · next both =>
      obtain ⟨rfl, rfl⟩ := both
      have enough := UInt64.le_iff_toNat_le.mp allowed
      rw [UInt64.toNat_sub_of_le _ _ allowed]
      omega
    · exact unchanged
  | @approved holder sender amount metadata apart =>
    rw [allowance_insert contract holder sender owner spender amount]
    dsimp only [Books.enter, setAt]
    split
    · exact Nat.zero_add _
    · exact unchanged
  | _ => exact unchanged

theorem watch_balanced (platform : Platform) (watched : Watched) (call : Call)
    (balanced : Balanced watched) : Balanced (watch platform watched call) := by
  unfold watch
  rcases perform_cases platform watched.contract call with
    ⟨reason, failed⟩ | ⟨answer, state, outcome, done⟩
  · rw [failed]
    exact balanced
  · rw [done]
    constructor
    · have entered := outcome_supply watched.books outcome
      have before := balanced.supply
      change total _ state.balances + _ = _
      dsimp only
      omega
    · intro cap limit
      exact outcome_capped outcome cap limit (balanced.capped cap limit)
    · exact outcome_allowances outcome balanced.allowances

def Keeping : ContractFunction → Prop
  | .transfer _ _ | .transferFrom _ _ _ | .approve _ _ => True
  | _ => False

theorem keeping_supply (platform : Platform) (watched : Watched) (call : Call)
    (keeping : Keeping call.function) :
    supply (watch platform watched call).contract = supply watched.contract := by
  unfold watch
  rcases perform_cases platform watched.contract call with
    ⟨reason, failed⟩ | ⟨answer, state, outcome, done⟩
  · rw [failed]
  · rw [done]
    obtain ⟨env, function, caller⟩ := call
    change total _ state.balances = _
    cases outcome with
    | transferred metadata positive apart covered fits => exact supply_move apart covered fits
    | transferredFrom metadata positive apart allowed covered fits =>
      exact supply_move apart covered fits
    | approved metadata apart => rfl
    | _ => exact keeping.elim

end Step

variable (platform : Platform) (env : CallEnv) (uuid owner contractType name : String)
  (symbol : Option String) (totalSupply : Option UInt64) (decimals : Option UInt8)

def start : Watched :=
  ⟨.new platform env uuid owner contractType name symbol totalSupply decimals, .new⟩

def reached (calls : List Call) : Watched :=
  calls.foldl (watch platform)
    (start platform env uuid owner contractType name symbol totalSupply decimals)

theorem start_balanced :
    Balanced (start platform env uuid owner contractType name symbol totalSupply decimals) := by
  have nothing : supply
      (start platform env uuid owner contractType name symbol totalSupply decimals).contract = 0 :=
    total_empty _
  constructor
  · exact nothing
  · intro cap _
    rw [nothing]
    exact Nat.zero_le _
  · exact fun _ _ => rfl

theorem watch_total_supply (watched : Watched) (call : Call) :
    (watch platform watched call).contract.totalSupply = watched.contract.totalSupply := by
  unfold watch
  rcases perform_cases platform watched.contract call with
    ⟨reason, failed⟩ | ⟨answer, state, outcome, done⟩
  · rw [failed]
  · rw [done]
    rfl

/-- In every contract reached from a new one the balances are what was minted and
not burned, within the cap, and the allowances what was granted and not moved. A
further call that only moves tokens keeps the sum, and one that fails changes no
balance and no allowance. -/
theorem token_accounting (calls : List Call) :
    let now := reached platform env uuid owner contractType name symbol totalSupply decimals calls
    (supply now.contract : ℤ) = now.books.minted - now.books.burned ∧
      (∀ cap, totalSupply = some cap → supply now.contract ≤ cap.toNat) ∧
      (∀ holder spender, now.books.moved holder spender +
        (now.contract.allowance holder spender).toNat = now.books.granted holder spender) ∧
      ∀ call,
        (Keeping call.function →
          supply (watch platform now call).contract = supply now.contract) ∧
        ∀ reason after, perform platform now.contract call = .error reason after →
          after.state.balances = now.contract.state.balances ∧
            after.state.allowances = now.contract.state.allowances := by
  intro now
  have balanced : Balanced now := run_keeps Balanced _ calls
    (start_balanced platform env uuid owner contractType name symbol totalSupply decimals)
    (watch_balanced platform)
  have limit : now.contract.totalSupply = totalSupply := run_keeps
    (fun watched => watched.contract.totalSupply = totalSupply) _ calls rfl
    fun watched call same => (watch_total_supply platform watched call).trans same
  refine ⟨?_, ?_, balanced.allowances, fun call => ⟨?_, ?_⟩⟩
  · have counted := balanced.supply
    omega
  · intro cap capped
    exact balanced.capped cap (limit.trans capped)
  · exact keeping_supply platform now call
  · intro reason after failed
    rw [execute_atomic call.env now.contract call.function call.caller reason after failed]
    exact ⟨rfl, rfl⟩

end CeruleanLedger.TokenAccounting
