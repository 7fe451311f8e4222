import CeruleanLedger.Governance
import CeruleanLedger.GuardedRun

/-!
Cycles of delegation. A call is refused when it closes a cycle of one or two edges;
a longer one is closed where the new delegate already leads to the delegator.
-/

namespace CeruleanLedger.DelegationCycles

open Governance GuardedRun OrderedMap Relation

section Edges

variable {Node : Type} {Edge Moved : Node → Node → Prop} {source target : Node}

/-- A path into a node does not use the edges out of it. -/
theorem path_into (elsewhere : ∀ node next, node ≠ source → Edge node next → Moved node next)
    {node : Node} (path : ReflTransGen Edge node source) : ReflTransGen Moved node source := by
  induction path using ReflTransGen.head_induction_on with
  | refl => exact .refl
  | @head node next step rest ih =>
    by_cases here : node = source
    · exact here ▸ .refl
    · exact .head (elsewhere node next here step) ih

variable (elsewhere : ∀ node next, node ≠ source → (Moved node next ↔ Edge node next))
variable (moved : ∀ next, Moved source next ↔ next = target)
include elsewhere moved

theorem path_moved {first last : Node} (path : TransGen Moved first last) :
    TransGen Edge first last ∨
      ReflTransGen Moved first source ∧ ReflTransGen Moved target last := by
  induction path with
  | @single last step =>
    by_cases here : first = source
    · subst here
      exact .inr ⟨.refl, (moved last).mp step ▸ .refl⟩
    · exact .inl (.single ((elsewhere first last here).mp step))
  | @tail middle last before step ih =>
    by_cases here : middle = source
    · subst here
      exact .inr ⟨before.to_reflTransGen, (moved last).mp step ▸ .refl⟩
    · rcases ih with old | ⟨into, outOf⟩
      · exact .inl (old.tail ((elsewhere middle last here).mp step))
      · exact .inr ⟨into, outOf.tail step⟩

theorem acyclic_moved_iff (acyclic : ∀ node, ¬ TransGen Edge node node) :
    (∀ node, ¬ TransGen Moved node node) ↔ ¬ ReflTransGen Edge target source := by
  constructor
  · intro unclosed path
    have back := path_into (fun node next here => (elsewhere node next here).mpr) path
    exact unclosed source (.head' ((moved target).mpr rfl) back)
  · intro apart node cycle
    rcases path_moved elsewhere moved cycle with old | ⟨into, outOf⟩
    · exact acyclic node old
    · exact apart (path_into (fun node next here => (elsewhere node next here).mp)
        (outOf.trans into))

end Edges

inductive DelegationCall where
  | delegate (delegator delegate : String)
  | undelegate (delegator : String)

def call (store : VoteStore) : DelegationCall → VoteStore
  | .delegate delegator delegate => (store.delegate delegator delegate).toOption.getD store
  | .undelegate delegator => store.undelegate delegator

def Delegates (store : VoteStore) (delegator delegate : String) : Prop :=
  store.delegations.map[delegator]? = some delegate
  deriving Decidable

def Acyclic (store : VoteStore) : Prop := ∀ address, ¬ TransGen (Delegates store) address address

def Open (store : VoteStore) : DelegationCall → Prop
  | .delegate delegator delegate => (store.delegate delegator delegate).isOk = true →
    ¬ ReflTransGen (Delegates store) delegate delegator
  | .undelegate _ => True

theorem delegate_ok {store after : VoteStore} {delegator delegate : String}
    (accepted : store.delegate delegator delegate = .ok after) :
    after.delegations.map = store.delegations.map.insert delegator delegate := by
  unfold VoteStore.delegate at accepted
  split at accepted
  · cases accepted
  split at accepted
  · cases accepted
  · cases accepted
    rfl

theorem acyclic_call_iff (store : VoteStore) (input : DelegationCall) (acyclic : Acyclic store) :
    Acyclic (call store input) ↔ Open store input := by
  cases input with
  | undelegate delegator =>
    have fewer : ∀ first second, Delegates (store.undelegate delegator) first second →
        Delegates store first second := by
      intro first second edge
      simp only [Delegates, VoteStore.undelegate, Delegations.remove, get_erase] at edge
      split at edge
      · cases edge
      · exact edge
    exact iff_of_true (fun address cycle => acyclic address (TransGen.mono fewer _ _ cycle)) trivial
  | delegate delegator delegate =>
    cases answer : store.delegate delegator delegate with
    | error reason => simpa [call, Open, answer, Except.toOption, Except.isOk, Except.toBool]
    | ok after =>
      have stored := delegate_ok answer
      simp only [call, Open, answer, Except.toOption, Option.getD_some, Except.isOk,
        Except.toBool, forall_const]
      apply acyclic_moved_iff _ _ acyclic
      · intro node next here
        simp [Delegates, stored, get_insert, Ne.symm here]
      · intro next
        simp [Delegates, stored, eq_comm]

/-- There is never a cycle exactly when no accepted call closes one. -/
theorem never_cyclic_iff (calls : List DelegationCall) :
    (∀ count, Acyclic ((calls.take count).foldl call .new)) ↔
      AllMeet call Open .new calls := by
  apply prefixes_hold_iff Acyclic acyclic_call_iff
  intro address cycle
  obtain ⟨next, edge, -⟩ := TransGen.head'_iff.mp cycle
  simp [Delegates, VoteStore.new, Delegations.empty] at edge

def circle : List DelegationCall :=
  [.delegate "ana" "ben", .delegate "ben" "eva", .delegate "eva" "ana"]

theorem three_in_a_circle : TransGen (Delegates (circle.foldl call .new)) "ana" "ana" := by
  have first : Delegates (circle.foldl call .new) "ana" "ben" := by decide +kernel
  have second : Delegates (circle.foldl call .new) "ben" "eva" := by decide +kernel
  have third : Delegates (circle.foldl call .new) "eva" "ana" := by decide +kernel
  exact .tail (.tail (.single first) second) third

end CeruleanLedger.DelegationCycles
