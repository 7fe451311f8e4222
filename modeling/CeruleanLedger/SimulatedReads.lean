import CeruleanLedger.SimulatedCommit

/-!
What a simulation answers to a sequence of calls. Each range scan iterates the
write buffer, a hash map, in an order of its own. The answers are compared with
those of the base itself after the same puts and deletes.
-/

namespace CeruleanLedger.SimulatedReads

open ByteCodec
open CallPrograms
open OrderedMap
open SimulatedCommit
open Simulation
open VersionedState

abbrev ServedCall := HashOrder × Call

def served : Machine (fun call : ServedCall => Answer call.2) SimulationWorldState :=
  fun call sim => simulated call.1 call.2 sim

/-- The same calls on the state itself, where no hash map is iterated. -/
def applied (clock : Clock) : Machine (fun call : ServedCall => Answer call.2) MemoryWorldState :=
  fun call state => direct clock call.2 state

inductive Reading where
  | found (data : Option Bytes)
  | listed (entries : List (String × Bytes))
  | written
  deriving DecidableEq

def read : (call : ServedCall) → Answer call.2 → Reading
  | (_, .get _), answer => .found (Option.map VersionedValue.data answer)
  | (_, .getRange _ _), answer => .listed (List.map withoutVersion answer)
  | (_, .put _ _), _ => .written
  | (_, .delete _), _ => .written

def Forward : ServedCall → Prop
  | (_, .getRange start stop) => start ≤ stop
  | _ => True

def Sorted : Reading → Prop
  | .listed entries => entries.Pairwise fun left right => left.1 < right.1
  | _ => True

theorem served_alike (clock : Clock) (base : MemoryWorldState) :
    Alike served (applied clock) (fun call => sameAnswer call.2) (Overlays base) :=
  fun call => machines_alike clock call.1 base call.2

theorem read_same (call : ServedCall) (answer other : Answer call.2)
    (same : sameAnswer call.2 answer other) : read call answer = read call other := by
  obtain ⟨order, request⟩ := call
  cases request with
  | get key => exact congrArg Reading.found same
  | getRange start stop => exact congrArg Reading.listed same
  | put key data => rfl
  | delete key => rfl

theorem applied_answers (clock : Clock) (call : ServedCall) (forward : Forward call)
    (state : MemoryWorldState) :
    ∃ reply, applied clock call state = some reply ∧ Sorted (read call reply.2) := by
  obtain ⟨order, request⟩ := call
  cases request with
  | getRange start stop =>
    have ends : ¬ stop < start := not_lt.mpr forward
    have listed : state.getRange start stop =
        some (state.inner.toList.filter fun entry => inRange start stop entry.1) := by
      rw [MemoryWorldState.getRange, if_neg ends]
    exact ⟨(state, _), congrArg (Option.map fun found => (state, found)) listed,
      (direct_lists state start stop).ordered⟩
  | _ => exact ⟨_, rfl, trivial⟩

/-- Every read of a simulation shows what it would show on a copy of the base
after the same puts and deletes, and every listing is sorted without repeats. -/
theorem simulated_reads_right (clock : Clock) (base : MemoryWorldState) (calls : List ServedCall)
    (forward : ∀ call ∈ calls, Forward call) :
    ∃ readings, shown served read calls (.new (.memory base)) = some readings ∧
      shown (applied clock) read calls base = some readings ∧
      ∀ reading ∈ readings, Sorted reading := by
  obtain ⟨readings, direct, sorted⟩ := shown_all Sorted calls
    (fun call member => applied_answers clock call (forward call member)) base
  refine ⟨readings, ?_, direct, sorted⟩
  rw [← direct]
  exact shown_related (served_alike clock base) read_same calls _ _ (overlays_new base)

def mixedCalls : List ServedCall :=
  [(.asStored, .put "b" [2]), (.asStored, .delete "k"), (.asStored, .put "a" [1]),
    (.reversed, .getRange "a" "z"), (.asStored, .get "k"), (.asStored, .get "b")]

theorem mixed_calls_read :
    shown served read mixedCalls (.new (.memory stockedBase)) =
      some [.written, .written, .written, .listed [("a", [1]), ("b", [2])], .found none,
        .found (some [2])] := by
  have forward : ∀ call ∈ mixedCalls, Forward call := by
    simp only [mixedCalls, List.forall_mem_cons, Forward, true_and]
    exact ⟨by decide, List.forall_mem_nil _⟩
  obtain ⟨readings, simulated, direct, -⟩ :=
    simulated_reads_right noTime stockedBase mixedCalls forward
  rw [simulated, ← direct]
  decide +kernel

end CeruleanLedger.SimulatedReads
