import Mathlib

/-!
Runs of a step function over a list of inputs, where every input is required
to meet a condition in the state it is applied to. An invariant that is kept by
each step meeting the condition holds wherever such a run ends; the bound on
the number of steps taken so far may be part of the invariant.
-/

namespace CeruleanLedger.GuardedRun

variable {State Input : Type*} (step : State → Input → State)
variable (Meets : State → Input → Prop)

def AllMeet : State → List Input → Prop
  | _, [] => True
  | state, input :: rest => Meets state input ∧ AllMeet (step state input) rest

instance AllMeet.decide [∀ state input, Decidable (Meets state input)] :
    ∀ state inputs, Decidable (AllMeet step Meets state inputs)
  | _, [] => .isTrue trivial
  | state, input :: rest =>
    have := AllMeet.decide (step state input) rest
    inferInstanceAs (Decidable (_ ∧ _))

variable {step Meets}

theorem all_meet_append (start : State) (earlier later : List Input) :
    AllMeet step Meets start (earlier ++ later) ↔
      AllMeet step Meets start earlier ∧
        AllMeet step Meets (earlier.foldl step start) later := by
  induction earlier generalizing start with
  | nil => simp [AllMeet]
  | cons input rest ih => simp only [List.cons_append, AllMeet, ih, List.foldl_cons, and_assoc]

theorem run_invariant (Holds : Nat → State → Prop) (count : Nat) (start : State)
    (inputs : List Input) (initial : Holds count start)
    (preserved : ∀ count state input, Holds count state → Meets state input →
      Holds (count + 1) (step state input))
    (meets : AllMeet step Meets start inputs) :
    Holds (count + inputs.length) (inputs.foldl step start) := by
  induction inputs generalizing count start with
  | nil => exact initial
  | cons input rest ih =>
    have next := ih (count + 1) (step start input)
      (preserved count start input initial meets.1) meets.2
    rw [List.foldl_cons, List.length_cons, Nat.add_comm rest.length 1, ← Nat.add_assoc]
    exact next

theorem run_invariant_plain (Holds : State → Prop) (start : State) (inputs : List Input)
    (initial : Holds start)
    (preserved : ∀ state input, Holds state → Meets state input → Holds (step state input))
    (meets : AllMeet step Meets start inputs) : Holds (inputs.foldl step start) :=
  run_invariant (fun _ => Holds) 0 start inputs initial
    (fun _ state input => preserved state input) meets

theorem run_keeps (Holds : State → Prop) (start : State) (inputs : List Input)
    (initial : Holds start) (preserved : ∀ state input, Holds state → Holds (step state input)) :
    Holds (inputs.foldl step start) := by
  induction inputs generalizing start with
  | nil => exact initial
  | cons input rest ih => exact ih _ (preserved start input initial)

/-- An invariant may speak of the inputs still to come. -/
theorem run_keeps_ahead (Keeps : State → List Input → Prop)
    (kept : ∀ state input rest, Keeps state (input :: rest) → Keeps (step state input) rest)
    (start : State) (inputs : List Input) (initial : Keeps start inputs) :
    Keeps (inputs.foldl step start) [] := by
  induction inputs generalizing start with
  | nil => exact initial
  | cons input rest ih => exact ih _ (kept start input rest initial)

/-- Where no step restores what an earlier one broke, a run ends well exactly if
it started well and all of its steps meet the condition. -/
theorem end_holds_iff (Keeps : State → List Input → Prop) (Holds : State → Prop)
    (kept : ∀ state input rest, Keeps state (input :: rest) → Keeps (step state input) rest)
    (exact : ∀ state input rest, Keeps state (input :: rest) →
      (Holds (step state input) ↔ Holds state ∧ Meets state input))
    (start : State) (inputs : List Input) (initial : Keeps start inputs) :
    Holds (inputs.foldl step start) ↔ Holds start ∧ AllMeet step Meets start inputs := by
  induction inputs generalizing start with
  | nil => simp only [List.foldl_nil, AllMeet, and_true]
  | cons input rest ih =>
    rw [List.foldl_cons, ih _ (kept start input rest initial), exact start input rest initial,
      and_assoc, AllMeet]

/-- Where a step keeps `Holds` exactly if it meets the condition, a run is within
it at every moment exactly if all of its steps meet the condition. The exactness
may rest on `Extra`, which speaks of the inputs still to come and is needed only
as long as `Holds` is kept. -/
theorem prefixes_hold_ahead_iff (Extra : State → List Input → Prop) (Holds : State → Prop)
    (kept : ∀ state input rest, Extra state (input :: rest) → Holds state →
      Holds (step state input) → Extra (step state input) rest)
    (exact : ∀ state input rest, Extra state (input :: rest) → Holds state →
      (Holds (step state input) ↔ Meets state input))
    (start : State) (inputs : List Input) (extra : Extra start inputs) (initial : Holds start) :
    (∀ count, Holds ((inputs.take count).foldl step start)) ↔
      AllMeet step Meets start inputs := by
  induction inputs generalizing start with
  | nil => simp only [List.take_nil, List.foldl_nil, AllMeet, initial, implies_true]
  | cons input rest ih =>
    have step_iff := exact start input rest extra initial
    constructor
    · intro always
      have next : Holds (step start input) := always 1
      have ahead := kept start input rest extra initial next
      refine ⟨step_iff.mp next, (ih _ ahead next).mp fun count => ?_⟩
      exact always (count + 1)
    · rintro ⟨meets, later⟩ count
      have next := step_iff.mpr meets
      have ahead := kept start input rest extra initial next
      cases count with
      | zero => exact initial
      | succ count => exact (ih _ ahead next).mpr later count

theorem all_meet_of_forall (always : ∀ state input, Meets state input) (start : State)
    (inputs : List Input) : AllMeet step Meets start inputs := by
  induction inputs generalizing start with
  | nil => trivial
  | cons input rest ih => exact ⟨always start input, ih _⟩

/-- The same where it rests on an invariant that every step keeps. -/
theorem prefixes_hold_given_iff (Kept Holds : State → Prop)
    (kept : ∀ state input, Kept state → Kept (step state input))
    (exact : ∀ state input, Kept state → Holds state →
      (Holds (step state input) ↔ Meets state input))
    (start : State) (inputs : List Input) (invariant : Kept start) (initial : Holds start) :
    (∀ count, Holds ((inputs.take count).foldl step start)) ↔
      AllMeet step Meets start inputs :=
  prefixes_hold_ahead_iff (fun state _ => Kept state) Holds
    (fun state input _ invariant _ _ => kept state input invariant)
    (fun state input _ => exact state input) start inputs invariant initial

theorem prefixes_hold_iff (Holds : State → Prop)
    (exact : ∀ state input, Holds state → (Holds (step state input) ↔ Meets state input))
    (start : State) (inputs : List Input) (initial : Holds start) :
    (∀ count, Holds ((inputs.take count).foldl step start)) ↔
      AllMeet step Meets start inputs :=
  prefixes_hold_given_iff (fun _ => True) Holds (fun _ _ _ => trivial)
    (fun state input _ => exact state input) start inputs trivial initial

/-- Two runs of the same inputs agree at every moment exactly if their steps agree
along one of them. -/
theorem runs_agree_iff (other : State → Input → State)
    (exact : ∀ state input, other state input = step state input ↔ Meets state input)
    (start : State) (inputs : List Input) :
    (∀ count, (inputs.take count).foldl other start = (inputs.take count).foldl step start) ↔
      AllMeet step Meets start inputs := by
  induction inputs generalizing start with
  | nil => simp only [List.take_nil, List.foldl_nil, AllMeet, implies_true]
  | cons input rest ih =>
    rw [AllMeet, ← exact, ← ih]
    constructor
    · intro always
      have first : other start input = step start input := always 1
      refine ⟨first, fun count => ?_⟩
      have later := always (count + 1)
      rwa [List.take_succ_cons, List.foldl_cons, List.foldl_cons, first] at later
    · rintro ⟨first, later⟩ count
      cases count with
      | zero => rfl
      | succ count =>
        rw [List.take_succ_cons, List.foldl_cons, List.foldl_cons, first]
        exact later count

theorem all_meet_and_each {Each : Input → Prop} {start : State} {inputs : List Input}
    (meets : AllMeet step Meets start inputs) (each : ∀ input ∈ inputs, Each input) :
    AllMeet step (fun state input => Meets state input ∧ Each input) start inputs := by
  induction inputs generalizing start with
  | nil => trivial
  | cons input rest ih =>
    obtain ⟨here, later⟩ := List.forall_mem_cons.mp each
    exact ⟨⟨meets.1, here⟩, ih meets.2 later⟩

theorem all_meet_iff (Holds : State → Prop) (Other : State → Input → Prop)
    (preserved : ∀ state input, Holds state → Holds (step state input))
    (agree : ∀ state input, Holds state → (Meets state input ↔ Other state input))
    (start : State) (inputs : List Input) (initial : Holds start) :
    AllMeet step Meets start inputs ↔ AllMeet step Other start inputs := by
  induction inputs generalizing start with
  | nil => exact Iff.rfl
  | cons input rest ih =>
    exact and_congr (agree start input initial) (ih _ (preserved start input initial))

theorem all_meet_imp (Holds : State → Prop) (Other : State → Input → Prop)
    (preserved : ∀ state input, Holds state → Meets state input → Holds (step state input))
    (implies : ∀ state input, Holds state → Meets state input → Other state input)
    (start : State) (inputs : List Input) (initial : Holds start)
    (meets : AllMeet step Meets start inputs) : AllMeet step Other start inputs := by
  induction inputs generalizing start with
  | nil => trivial
  | cons input rest ih =>
    exact ⟨implies start input initial meets.1,
      ih _ (preserved start input initial meets.1) meets.2⟩

end CeruleanLedger.GuardedRun
