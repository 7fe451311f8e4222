import CeruleanLedger.BlockAdmission
import CeruleanLedger.ForkChoice

/-!
What an error of `accept_block` leaves behind. The store is written after the DAG: when the
write fails, the block is in the DAG only, and every later attempt is refused as a duplicate. An
in-memory store refuses any second block of one height, so a fork is enough.
-/

namespace CeruleanLedger.BlockAtomicity

open ByteCodec BlockDag BlockStore BlockAdmission ForkChoice IterationOrder QuorumValidation

structure Untouched (before after : ConsensusEngine) : Prop where
  dag : after.dag = before.dag
  chain : ∀ rule iteration,
    canonicalChain rule iteration after.dag = canonicalChain rule iteration before.dag
  store : after.store = before.store

section Calls

variable (engine : ConsensusEngine) (surroundings : Surroundings) (block : DagBlock)

/-- After an error everything is as before, and a retry is answered as a first
attempt would be. -/
def Atomic : Prop :=
  let after := (engine.acceptBlock surroundings block).1
  ∀ reason, (engine.acceptBlock surroundings block).2 = .error reason →
    Untouched engine after ∧
      ∀ later, (after.acceptBlock later block).2 = (engine.acceptBlock later block).2

/-- The block passes every check and enters the DAG, and the attached store does
not take it. -/
def StoreFails : Prop :=
  ∃ dag store reason, engine.admission surroundings block = .ok () ∧
    engine.dag.addBlock block = .ok dag ∧ engine.store = some store ∧
    store.writeBlock surroundings.fault (ConsensusEngine.storageBlock block) = .error reason

variable {engine surroundings block}

theorem failed_early {reason : ConsensusError}
    (failed : (engine.acceptBlock surroundings block).2 = .error reason)
    (stored : ¬ StoreFails engine surroundings block) :
    (engine.acceptBlock surroundings block).1 = engine := by
  unfold ConsensusEngine.acceptBlock at failed ⊢
  cases admitted : engine.admission surroundings block with
  | error reason => rfl
  | ok value =>
    rw [admitted] at failed
    dsimp only at failed ⊢
    cases added : engine.dag.addBlock block with
    | error reason => rfl
    | ok dag =>
      rw [added] at failed
      dsimp only at failed ⊢
      cases attached : engine.store with
      | none =>
        rw [attached] at failed
        cases failed
      | some store =>
        rw [attached] at failed
        dsimp only at failed ⊢
        cases written : store.writeBlock surroundings.fault
            (ConsensusEngine.storageBlock block) with
        | error reason =>
          exact absurd ⟨dag, store, reason, admitted, added, attached, written⟩ stored
        | ok store =>
          rw [written] at failed
          cases failed

theorem store_failure {dag : Dag} {store : Store} {reason : StorageError}
    (admitted : engine.admission surroundings block = .ok ())
    (added : engine.dag.addBlock block = .ok dag) (attached : engine.store = some store)
    (refused : store.writeBlock surroundings.fault (ConsensusEngine.storageBlock block) =
      .error reason) :
    engine.acceptBlock surroundings block =
      ({ engine with dag }, .error (.storePersist reason.display)) := by
  unfold ConsensusEngine.acceptBlock
  rw [admitted]
  dsimp only
  rw [added]
  dsimp only
  rw [attached]
  dsimp only
  rw [refused]

theorem added_was_absent {dag after : Dag} (added : dag.addBlock block = .ok after) :
    dag.getBlock block.hash = none := by
  unfold Dag.addBlock at added
  split at added
  · cases added
  · next unknown =>
    rw [Dag.getBlock, Std.ExtTreeMap.getElem?_eq_none_of_contains_eq_false
      (Bool.eq_false_of_not_eq_true unknown)]
    rfl

theorem added_is_present {dag after : Dag} (added : dag.addBlock block = .ok after) :
    after.getBlock block.hash = some block := by
  rw [Dag.get_block_add_block added, if_pos rfl]

theorem present_refused (present : engine.dag.getBlock block.hash = some block)
    (later : Surroundings) : ∃ reason, (engine.acceptBlock later block).2 = .error reason := by
  unfold ConsensusEngine.acceptBlock
  cases engine.admission later block with
  | error reason => exact ⟨reason, rfl⟩
  | ok value =>
    dsimp only
    cases added : engine.dag.addBlock block with
    | error reason => exact ⟨.dagError reason, rfl⟩
    | ok dag =>
      rw [added_was_absent added] at present
      cases present

end Calls

/-- A call is atomic exactly if it does not end in a failure of the store; after
such a failure the block is never accepted. -/
theorem accept_atomic_iff (engine : ConsensusEngine) (surroundings : Surroundings)
    (block : DagBlock) :
    (Atomic engine surroundings block ↔ ¬ StoreFails engine surroundings block) ∧
      (StoreFails engine surroundings block → ∀ later, ∃ reason,
        ((engine.acceptBlock surroundings block).1.acceptBlock later block).2 =
          .error reason) := by
  refine ⟨⟨?_, ?_⟩, ?_⟩
  · rintro atomic ⟨dag, store, reason, admitted, added, attached, refused⟩
    have ended := store_failure admitted added attached refused
    obtain ⟨untouched, _⟩ := atomic _ (by rw [ended])
    have same : dag = engine.dag := by simpa [ended] using untouched.dag
    have present := added_is_present added
    rw [same, added_was_absent added] at present
    cases present
  · intro stored reason failed
    rw [failed_early failed stored]
    exact ⟨⟨rfl, fun _ _ => rfl, rfl⟩, fun _ => rfl⟩
  · rintro ⟨dag, store, reason, admitted, added, attached, refused⟩ later
    rw [store_failure admitted added attached refused]
    exact present_refused (added_is_present added) later

def thirdHash : Hash32 := Vector.replicate 32 3

def child (hash : Hash32) : DagBlock := { sampleBlock hash firstHash none with height := 1 }

def oneChild : ConsensusEngine :=
  (acceptAll ((ConsensusEngine.new 6000 ["v1"] 0).withStore (.memory .new))
    [(calm, sampleBlock firstHash zeroHash none), (calm, child secondHash)]).1

/-- The other child fails to be stored, is counted in the DAG all the same, and
is refused when it comes again. -/
theorem fork_left_in_dag :
    (oneChild.acceptBlock calm (child thirdHash)).2 =
        .error (.storePersist "Storage error: block at height 1 already committed") ∧
      oneChild.dag.blockCount = 2 ∧
      (oneChild.acceptBlock calm (child thirdHash)).1.dag.blockCount = 3 ∧
      ((oneChild.acceptBlock calm (child thirdHash)).1.acceptBlock calm (child thirdHash)).2 =
        .error (.dagError "Block already exists") := by
  decide +kernel

end CeruleanLedger.BlockAtomicity
