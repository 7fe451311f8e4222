import Mathlib

/-!
Programs as the trees of the calls they make, run on any machine that answers the calls. Two
machines that answer alike, up to what a program is blind to, stay related through every run of
it, and they stop together.
-/

namespace CeruleanLedger.CallPrograms

universe u v w

variable {Call : Type u} {Answer : Call → Type v}

inductive Program (Call : Type u) (Answer : Call → Type v) where
  | done
  | call (request : Call) (next : Answer request → Program Call Answer)

abbrev Machine (Answer : Call → Type v) (State : Type w) :=
  (request : Call) → State → Option (State × Answer request)

def run {State : Type w} (machine : Machine Answer State) :
    Program Call Answer → State → Option State
  | .done, state => some state
  | .call request next, state =>
    (machine request state).bind fun reply => run machine (next reply.2) reply.1

/-- The program goes on alike after answers that are the same. -/
def Blind (same : (request : Call) → Answer request → Answer request → Prop) :
    Program Call Answer → Prop
  | .done => True
  | .call request next =>
    (∀ answer other, same request answer other → next answer = next other) ∧
      ∀ answer, Blind same (next answer)

variable {Left Right : Type w} {left : Machine Answer Left} {right : Machine Answer Right}
  {same : (request : Call) → Answer request → Answer request → Prop} {related : Left → Right → Prop}
  {State : Type w} {machine : Machine Answer State}

section Related

/-- Related states answer a call alike and stay related, or both stop. -/
def Alike (left : Machine Answer Left) (right : Machine Answer Right)
    (same : (request : Call) → Answer request → Answer request → Prop)
    (related : Left → Right → Prop) : Prop :=
  ∀ request first second, related first second →
    Option.Rel (fun reply other => related reply.1 other.1 ∧ same request reply.2 other.2)
      (left request first) (right request second)

end Related

section Along

def Along (machine : Machine Answer State) (Meets : State → Call → Prop) :
    Program Call Answer → State → Prop
  | .done, _ => True
  | .call request next, state =>
    Meets state request ∧
      ∀ reply ∈ machine request state, Along machine Meets (next reply.2) reply.1

theorem run_call {request : Call} {next : Answer request → Program Call Answer}
    {state final : State} (ended : run machine (.call request next) state = some final) :
    ∃ reply, machine request state = some reply ∧
      run machine (next reply.2) reply.1 = some final := by
  rw [run, Option.bind_eq_some_iff] at ended
  exact ended

theorem along_call {Meets : State → Call → Prop} {request : Call}
    {next : Answer request → Program Call Answer} {state : State}
    {reply : State × Answer request} (answered : machine request state = some reply) :
    Along machine Meets (.call request next) state ↔
      Meets state request ∧ Along machine Meets (next reply.2) reply.1 := by
  simp only [Along, answered, Option.mem_some_iff, forall_eq']

/-- A property that each call either keeps or loses for good holds at the end of
a run when it held at the start and every call kept it. -/
theorem run_iff_along {Holds : State → Prop} {Meets : State → Call → Prop}
    (exact : ∀ request state reply, machine request state = some reply →
      (Holds reply.1 ↔ Holds state ∧ Meets state request))
    (program : Program Call Answer) (state final : State)
    (ended : run machine program state = some final) :
    Holds final ↔ Holds state ∧ Along machine Meets program state := by
  induction program generalizing state with
  | done =>
    cases ended
    simp only [Along, and_true]
  | call request next ih =>
    obtain ⟨reply, answered, later⟩ := run_call ended
    rw [ih reply.2 reply.1 later, exact request state reply answered, along_call answered,
      and_assoc]

theorem run_backward {Holds : State → Prop}
    (back : ∀ request state reply, machine request state = some reply →
      Holds reply.1 → Holds state)
    (program : Program Call Answer) (state final : State)
    (ended : run machine program state = some final) (holds : Holds final) : Holds state := by
  induction program generalizing state with
  | done =>
    cases ended
    exact holds
  | call request next ih =>
    obtain ⟨reply, answered, later⟩ := run_call ended
    exact back request state reply answered (ih reply.2 reply.1 later)

theorem run_constant {Value : Type*} (value : State → Value)
    (kept : ∀ request state reply, machine request state = some reply →
      value reply.1 = value state)
    (program : Program Call Answer) (state final : State)
    (ended : run machine program state = some final) : value final = value state := by
  induction program generalizing state with
  | done =>
    cases ended
    rfl
  | call request next ih =>
    obtain ⟨reply, answered, later⟩ := run_call ended
    exact (ih reply.2 reply.1 later).trans (kept request state reply answered)

theorem along_congr {Holds : State → Prop} {First Second : State → Call → Prop}
    (back : ∀ request state reply, machine request state = some reply →
      Holds reply.1 → Holds state)
    (same : ∀ request state reply, machine request state = some reply → Holds reply.1 →
      (First state request ↔ Second state request))
    (program : Program Call Answer) (state final : State)
    (ended : run machine program state = some final) (holds : Holds final) :
    Along machine First program state ↔ Along machine Second program state := by
  induction program generalizing state with
  | done => exact Iff.rfl
  | call request next ih =>
    obtain ⟨reply, answered, later⟩ := run_call ended
    have reached := run_backward back (next reply.2) reply.1 final later holds
    rw [along_call answered, along_call answered, same request state reply answered reached,
      ih reply.2 reply.1 later]

end Along

section Transcripts

def transcript (machine : Machine Answer State) :
    Program Call Answer → State → List ((request : Call) × Answer request)
  | .done, _ => []
  | .call request next, state =>
    match machine request state with
    | none => []
    | some reply => ⟨request, reply.2⟩ :: transcript machine (next reply.2) reply.1

def Shifts (machine : Machine Answer State) (shift : State → State) (state : State)
    (request : Call) : Prop :=
  machine request (shift state) =
    (machine request state).map fun reply => (shift reply.1, reply.2)

theorem transcript_call {request : Call} {next : Answer request → Program Call Answer}
    {state : State} {reply : State × Answer request}
    (answered : machine request state = some reply) :
    transcript machine (.call request next) state =
      ⟨request, reply.2⟩ :: transcript machine (next reply.2) reply.1 := by
  rw [transcript, answered]

def calls (machine : Machine Answer State) (program : Program Call Answer) (state : State) :
    List Call :=
  (transcript machine program state).map Sigma.fst

theorem run_shift (shift : State → State) (program : Program Call Answer) (state final : State)
    (ended : run machine program state = some final)
    (shifts : Along machine (Shifts machine shift) program state) :
    run machine program (shift state) = some (shift final) := by
  induction program generalizing state with
  | done =>
    cases ended
    rfl
  | call request next ih =>
    obtain ⟨reply, answered, later⟩ := run_call ended
    obtain ⟨here, rest⟩ := (along_call answered).mp shifts
    rw [Shifts, answered, Option.map_some] at here
    rw [run, here, Option.bind_some]
    exact ih reply.2 reply.1 later rest

/-- Two runs see the same answers exactly when each call of the first commutes
with the shift, provided the answer of a call determines the state after it. -/
theorem transcript_shift_iff (shift : State → State)
    (determined : ∀ request state reply other, machine request state = some reply →
      machine request (shift state) = some other → other.2 = reply.2 → other.1 = shift reply.1)
    (program : Program Call Answer) (state final : State)
    (ended : run machine program state = some final) :
    transcript machine program (shift state) = transcript machine program state ↔
      Along machine (Shifts machine shift) program state := by
  induction program generalizing state with
  | done => exact ⟨fun _ => trivial, fun _ => rfl⟩
  | call request next ih =>
    obtain ⟨reply, answered, later⟩ := run_call ended
    rw [along_call answered, transcript_call answered, ← ih reply.2 reply.1 later]
    cases shifted : machine request (shift state) with
    | none =>
      have stopped : transcript machine (.call request next) (shift state) = [] := by
        rw [transcript, shifted]
      rw [stopped, Shifts, answered, shifted]
      exact ⟨nofun, fun both => absurd both.1 nofun⟩
    | some other =>
      rw [transcript_call shifted, Shifts, answered, shifted, Option.map_some,
        Option.some.injEq]
      constructor
      · intro same
        obtain ⟨front, tail⟩ := List.cons.inj same
        have sameAnswer : other.2 = reply.2 := eq_of_heq (Sigma.mk.inj front).2
        have sameState := determined request state reply other answered shifted sameAnswer
        rw [sameAnswer, sameState] at tail
        exact ⟨Prod.ext sameState sameAnswer, tail⟩
      · rintro ⟨same, tail⟩
        rw [same]
        exact congrArg _ tail

end Transcripts

variable {View : Type*}

def shown (machine : Machine Answer State) (look : (request : Call) → Answer request → View) :
    List Call → State → Option (List View)
  | [], _ => some []
  | request :: rest, state =>
    (machine request state).bind fun reply =>
    (shown machine look rest reply.1).map (look request reply.2 :: ·)

variable {look : (request : Call) → Answer request → View}

theorem shown_related (alike : Alike left right same related)
    (blind : ∀ request answer other, same request answer other →
      look request answer = look request other)
    (requests : List Call) (first : Left) (second : Right) (start : related first second) :
    shown left look requests first = shown right look requests second := by
  induction requests generalizing first second with
  | nil => rfl
  | cons request rest ih =>
    have replies := alike request first second start
    simp only [shown]
    generalize left request first = reply at replies
    generalize right request second = other at replies
    cases replies with
    | none => rfl
    | @some reply other both =>
      simp only [Option.bind_some]
      rw [ih reply.1 other.1 both.1, blind request reply.2 other.2 both.2]

/-- A machine that answers each call shows something, and what holds of every
single view holds of all that is shown. -/
theorem shown_all {machine : Machine Answer State} (Fits : View → Prop) (requests : List Call)
    (answers : ∀ request ∈ requests, ∀ state, ∃ reply,
      machine request state = some reply ∧ Fits (look request reply.2))
    (state : State) :
    ∃ views, shown machine look requests state = some views ∧ ∀ view ∈ views, Fits view := by
  induction requests generalizing state with
  | nil => exact ⟨[], rfl, List.forall_mem_nil _⟩
  | cons request rest ih =>
    obtain ⟨here, others⟩ := List.forall_mem_cons.mp answers
    obtain ⟨reply, answered, fits⟩ := here state
    obtain ⟨views, later, all⟩ := ih others reply.1
    refine ⟨look request reply.2 :: views, ?_, List.forall_mem_cons.mpr ⟨fits, all⟩⟩
    rw [shown, answered, Option.bind_some, later, Option.map_some]

end CeruleanLedger.CallPrograms
