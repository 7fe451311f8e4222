import Mathlib

/-!
Reordering a sequence of indexed actions on a shared state. An action changes
the state and reports an output. Two actions are independent when neither can
tell whether the other has run; any arrangement that keeps dependent actions
in index order then ends in the same state with the same outputs.
-/

namespace CeruleanLedger.TraceCommutation

variable {Index State Output : Type*}
variable (act : Index → State → State) (observe : Index → State → Output)

def run : List Index → State → State × List (Index × Output)
  | [], state => (state, [])
  | index :: rest, state =>
    let tail := run rest (act index state)
    (tail.1, (index, observe index state) :: tail.2)

structure Independent (left right : Index) : Prop where
  commute : ∀ state, act left (act right state) = act right (act left state)
  leftBlind : ∀ state, observe left (act right state) = observe left state
  rightBlind : ∀ state, observe right (act left state) = observe right state

theorem run_indices (order : List Index) (state : State) :
    (run act observe order state).2.map Prod.fst = order := by
  induction order generalizing state with
  | nil => rfl
  | cons index rest ih => simp [run, ih]

variable {act observe}

theorem run_pull_front (before after : List Index) (index : Index) (state : State)
    (apart : ∀ other ∈ before, Independent act observe other index) :
    (run act observe (before ++ index :: after) state).1 =
        (run act observe (index :: (before ++ after)) state).1 ∧
      ((run act observe (before ++ index :: after) state).2).Perm
        (run act observe (index :: (before ++ after)) state).2 := by
  induction before generalizing state with
  | nil => exact ⟨rfl, List.Perm.refl _⟩
  | cons other rest ih =>
    have headApart := apart other (by simp)
    have tailApart : ∀ member ∈ rest, Independent act observe member index :=
      fun member inside => apart member (List.mem_cons_of_mem _ inside)
    obtain ⟨sameState, sameOutputs⟩ := ih (act other state) tailApart
    simp only [List.cons_append, run] at sameState sameOutputs ⊢
    rw [headApart.commute state, headApart.leftBlind state]
    rw [headApart.rightBlind state] at sameOutputs
    exact ⟨sameState, (sameOutputs.cons _).trans (List.Perm.swap _ _ _)⟩

/-- The order may differ from the increasing one only in independent pairs. -/
theorem run_reorder [LinearOrder Index] (order sorted : List Index) (state : State)
    (same : order.Perm sorted) (increasing : sorted.Pairwise (· < ·))
    (respects : order.Pairwise fun left right =>
      left < right ∨ Independent act observe left right) :
    (run act observe order state).1 = (run act observe sorted state).1 ∧
      ((run act observe order state).2).Perm (run act observe sorted state).2 := by
  induction sorted generalizing order state with
  | nil =>
    rw [List.perm_nil.mp same]
    exact ⟨rfl, List.Perm.refl _⟩
  | cons least rest ih =>
    obtain ⟨before, after, split⟩ := List.append_of_mem (same.symm.subset List.mem_cons_self)
    subst split
    obtain ⟨smallest, restIncreasing⟩ := List.pairwise_cons.mp increasing
    have samePerm : (before ++ after).Perm rest :=
      (List.perm_cons least).mp (List.perm_middle.symm.trans same)
    -- Everything scheduled ahead of the least index has a larger index.
    have apart : ∀ other ∈ before, Independent act observe other least := by
      intro other inside
      have later : least < other :=
        smallest other (samePerm.subset (List.mem_append_left _ inside))
      rcases (List.pairwise_append.mp respects).2.2 other inside least (by simp) with
        ordered | independent
      · exact absurd ordered (not_lt_of_gt later)
      · exact independent
    have restRespects : (before ++ after).Pairwise fun left right =>
        left < right ∨ Independent act observe left right :=
      respects.sublist ((List.sublist_cons_self least after).append_left before)
    obtain ⟨frontState, frontOutputs⟩ := run_pull_front before after least state apart
    obtain ⟨tailState, tailOutputs⟩ :=
      ih (before ++ after) (act least state) samePerm restIncreasing restRespects
    refine ⟨frontState.trans tailState, frontOutputs.trans ?_⟩
    exact tailOutputs.cons _

end CeruleanLedger.TraceCommutation
