import Mathlib

/-!
Methods that change a state in place and may leave early. An error keeps what
was written before it; a method whose checks come before its first write is
atomic, and its run is read off check by check.
-/

namespace CeruleanLedger.InPlace

variable {Reason State Value Middle : Type}

def check (result : Except Reason Value) : EStateM Reason State Value := fun state =>
  match result with
  | .ok value => .ok value state
  | .error reason => .error reason state

@[simp] theorem run_check_ok (value : Value) (state : State) :
    (check (.ok value : Except Reason Value)).run state = .ok value state := rfl

@[simp] theorem run_check_error (reason : Reason) (state : State) :
    (check (.error reason : Except Reason Value)).run state = .error reason state := rfl

def refuseIf (bad : Prop) [Decidable bad] (reason : Reason) : Except Reason Unit :=
  if bad then .error reason else .ok ()

def okOr (found : Option Value) (reason : Reason) : Except Reason Value :=
  match found with
  | some value => .ok value
  | none => .error reason

theorem refuse_ok_iff {bad : Prop} [Decidable bad] {reason : Reason} {done : Unit} :
    refuseIf bad reason = .ok done ↔ ¬ bad := by
  unfold refuseIf
  split
  · next holds => exact iff_of_false (fun same => by cases same) (not_not.mpr holds)
  · next fails => exact iff_of_true rfl fails

theorem ok_or_ok_iff {found : Option Value} {reason : Reason} {value : Value} :
    okOr found reason = .ok value ↔ found = some value := by
  cases found with
  | none => exact iff_of_false (fun same => by cases same) fun same => by cases same
  | some held => exact ⟨fun same => congrArg some (Except.ok.inj same),
      fun same => congrArg Except.ok (Option.some.inj same)⟩

theorem run_bind {first : EStateM Reason State Middle}
    {next : Middle → EStateM Reason State Value} {state after : State} {value : Middle}
    (ran : first.run state = .ok value after) :
    (first >>= next).run state = (next value).run after := by
  change EStateM.bind first next state = _
  unfold EStateM.bind
  unfold EStateM.run at ran
  rw [ran]
  rfl

theorem run_bind_error {first : EStateM Reason State Middle}
    {next : Middle → EStateM Reason State Value} {state after : State} {reason : Reason}
    (failed : first.run state = .error reason after) :
    (first >>= next).run state = .error reason after := by
  change EStateM.bind first next state = _
  unfold EStateM.bind
  unfold EStateM.run at failed
  rw [failed]

theorem run_of_return {method : EStateM Reason State Middle} {answer : Middle → Value}
    {state after : State} {value : Value}
    (returned : (method >>= fun found => pure (answer found)).run state = .ok value after) :
    ∃ found, method.run state = .ok found after := by
  cases ran : method.run state with
  | error reason failed =>
    rw [run_bind_error ran] at returned
    cases returned
  | ok found done =>
    rw [run_bind ran] at returned
    rw [(EStateM.Result.ok.inj returned).2]
    exact ⟨found, rfl⟩

theorem run_check_ok_iff {result : Except Reason Middle} {state after : State}
    {next : Middle → EStateM Reason State Value} {value : Value} :
    (check result >>= next).run state = .ok value after ↔
      ∃ passed, result = .ok passed ∧ (next passed).run state = .ok value after := by
  cases result with
  | error reason =>
    constructor
    · intro ran
      cases ran
    · rintro ⟨_, same, _⟩
      cases same
  | ok passed =>
    constructor
    · exact fun ran => ⟨passed, rfl, ran⟩
    · rintro ⟨_, same, ran⟩
      cases same
      exact ran

theorem run_read {state : State} {next : State → EStateM Reason State Value} :
    (get >>= next).run state = (next state).run state := rfl

theorem run_write {state : State} {change : State → State}
    {next : PUnit → EStateM Reason State Value} :
    (modify change >>= next).run state = (next ⟨⟩).run (change state) := rfl

/-- Started there, the method either succeeds or changes nothing. -/
def Atomic (method : EStateM Reason State Value) (state : State) : Prop :=
  ∀ reason after, method.run state = .error reason after → after = state

theorem atomic_check {result : Except Reason Middle} {state : State}
    {next : Middle → EStateM Reason State Value} (later : ∀ value, Atomic (next value) state) :
    Atomic (check result >>= next) state := by
  cases result with
  | error reason => exact fun _ _ failed => (EStateM.Result.error.inj failed).2.symm
  | ok value => exact later value

theorem atomic_read {state : State} {next : State → EStateM Reason State Value}
    (later : Atomic (next state) state) : Atomic (get >>= next) state := later

theorem atomic_done {method : EStateM Reason State Value} {state : State}
    (done : ∃ value after, method.run state = .ok value after) : Atomic method state := by
  obtain ⟨value, after, ran⟩ := done
  intro reason other failed
  rw [ran] at failed
  cases failed

theorem atomic_return {method : EStateM Reason State Middle} {state : State}
    (answer : Middle → Value) (atomic : Atomic method state) :
    Atomic (method >>= fun value => pure (answer value)) state := by
  intro reason after failed
  cases ran : method.run state with
  | error early left =>
    rw [run_bind_error ran] at failed
    obtain ⟨rfl, rfl⟩ := EStateM.Result.error.inj failed
    exact atomic _ _ ran
  | ok value done =>
    rw [run_bind ran] at failed
    cases failed

end CeruleanLedger.InPlace
