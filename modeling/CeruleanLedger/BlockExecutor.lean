import CeruleanLedger.TraceCommutation
import CeruleanLedger.WaveSchedule

/-!
The two block executors of `transaction/executor.rs` against the serial
`commit_block`. A panic (an index out of range, an unfilled outcome) is `none`.
In the concurrent executor the validation tasks of a wave only read, so each
sees the state at the start of the wave whatever their interleaving; no task
fails to join.
-/

namespace CeruleanLedger.BlockExecutor

open ByteCodec VersionedState Mvcc WaveSchedule TraceCommutation

inductive TxOutcome where
  | committed
  | mvccConflict (key : String)
  deriving DecidableEq

structure BlockExecResult where
  outcomes : List (String × TxOutcome)
  schedule : BatchSchedule
  committedCount : Nat
  conflictCount : Nat

structure Progress where
  outcomes : List (Option (String × TxOutcome))
  committedCount : Nat
  conflictCount : Nat
  state : WorldState

def Progress.start (count : Nat) (state : WorldState) : Progress :=
  ⟨List.replicate count none, 0, 0, state⟩

variable (clock : Clock) (txs : List EndorsedTransaction)

def recordCommitted (endorsed : EndorsedTransaction) (index : Nat) (progress : Progress) :
    Progress :=
  { progress with
    outcomes := progress.outcomes.set index (some (endorsed.tx.id, .committed))
    committedCount := progress.committedCount + 1
    state := applyWrites clock endorsed.rwset.writes progress.state }

def recordConflict (endorsed : EndorsedTransaction) (index : Nat) (key : String)
    (progress : Progress) : Progress :=
  { progress with
    outcomes := progress.outcomes.set index (some (endorsed.tx.id, .mvccConflict key))
    conflictCount := progress.conflictCount + 1 }

def batchOf : List TxWithRwSet :=
  txs.zipIdx.map fun (endorsed, index) => ⟨index, endorsed.tx.id, endorsed.rwset⟩

def prepareSchedule : BatchSchedule := scheduleBatch (batchOf txs)

/-- Slots no wave reached count as conflicts on the key `unscheduled`. -/
def fillUnscheduled (progress : Progress) : Progress :=
  { progress with
    outcomes := progress.outcomes.zipIdx.map fun (slot, index) =>
      match slot with
      | some outcome => some outcome
      | none => (txs[index]?).map fun endorsed =>
        (endorsed.tx.id, .mvccConflict "unscheduled")
    conflictCount := progress.conflictCount + (progress.outcomes.filter Option.isNone).length }

def finish (schedule : BatchSchedule) (progress : Progress) :
    Option (BlockExecResult × WorldState) := do
  let filled := fillUnscheduled txs progress
  let outcomes ← filled.outcomes.mapM id
  return (⟨outcomes, schedule, filled.committedCount, filled.conflictCount⟩, filled.state)

def executeOne (progress : Progress) (index : Nat) : Option Progress := do
  let endorsed ← txs[index]?
  match validateRwset endorsed.rwset progress.state with
  | .ok () => return recordCommitted clock endorsed index progress
  | .error conflict => return recordConflict endorsed index conflict.key progress

def executeWave (progress : Progress) (wave : Wave) : Option Progress :=
  (wave.txIndices.insertionSort (· ≤ ·)).foldlM (executeOne clock txs) progress

def executeBlockParallel (state : WorldState) : Option (BlockExecResult × WorldState) := do
  let schedule := prepareSchedule txs
  let progress ← schedule.waves.foldlM (executeWave clock txs) (.start txs.length state)
  finish txs schedule progress

inductive ValidationResult where
  | valid (index : Nat)
  | conflict (index : Nat) (key : String)

def validateTask (state : WorldState) (index : Nat) : Option ValidationResult := do
  let endorsed ← txs[index]?
  match validateRwset endorsed.rwset state with
  | .ok () => return .valid index
  | .error conflict => return .conflict index conflict.key

/-- One awaited handle: conflicts are recorded at once, valid indices queued. -/
def collectResult (collected : Progress × List Nat) (result : ValidationResult) :
    Option (Progress × List Nat) :=
  match result with
  | .valid index => some (collected.1, collected.2 ++ [index])
  | .conflict index key => do
      let endorsed ← txs[index]?
      return (recordConflict endorsed index key collected.1, collected.2)

def applyValid (progress : Progress) (index : Nat) : Option Progress := do
  let endorsed ← txs[index]?
  return recordCommitted clock endorsed index progress

def executeWaveConcurrent (progress : Progress) (wave : Wave) : Option Progress := do
  let sorted := wave.txIndices.insertionSort (· ≤ ·)
  let results ← sorted.mapM (validateTask txs progress.state)
  let (progress, valid) ← results.foldlM (collectResult txs) (progress, [])
  (valid.insertionSort (· ≤ ·)).foldlM (applyValid clock txs) progress

def executeBlockConcurrent (state : WorldState) : Option (BlockExecResult × WorldState) := do
  let schedule := prepareSchedule txs
  let progress ← schedule.waves.foldlM (executeWaveConcurrent clock txs)
    (.start txs.length state)
  finish txs schedule progress

def txAt (index : Nat) : EndorsedTransaction :=
  (txs[index]?).getD ⟨⟨"", 0, 0, "", "", 0, ""⟩, ⟨[], []⟩⟩

theorem get_tx_at {index : Nat} (inside : index < txs.length) :
    txs[index]? = some (txAt txs index) := by
  simp [txAt, inside]

def outcomeAt (index : Nat) (state : WorldState) : TxOutcome :=
  match validateRwset (txAt txs index).rwset state with
  | .ok () => .committed
  | .error conflict => .mvccConflict conflict.key

def actAt (index : Nat) (state : WorldState) : WorldState :=
  if outcomeAt txs index state = .committed then
    applyWrites clock (txAt txs index).rwset.writes state
  else state

theorem outcome_apply_writes (index : Nat) (writes : List KVWrite) (state : WorldState)
    (apart : ∀ read ∈ (txAt txs index).rwset.reads, read.key ∉ writes.map KVWrite.key) :
    outcomeAt txs index (applyWrites clock writes state) = outcomeAt txs index state := by
  have same : validateRwset (txAt txs index).rwset (applyWrites clock writes state) =
      validateRwset (txAt txs index).rwset state := by
    apply validate_reads_congr
    intro read member
    rw [WorldState.versionOf, apply_writes_get_of_notMem clock _ _ _ (apart read member),
      WorldState.versionOf]
  rw [outcomeAt, same, outcomeAt]

abbrev ran (order : List Nat) (state : WorldState) : WorldState × List (Nat × TxOutcome) :=
  run (actAt clock txs) (outcomeAt txs) order state

abbrev Apart : Nat → Nat → Prop := Independent (actAt clock txs) (outcomeAt txs)

/-- A transaction that writes nothing another one read does not change what
the other reports. -/
theorem outcome_act_at (index other : Nat) (state : WorldState)
    (apart : ∀ read ∈ (txAt txs index).rwset.reads,
      read.key ∉ (txAt txs other).rwset.writes.map KVWrite.key) :
    outcomeAt txs index (actAt clock txs other state) = outcomeAt txs index state := by
  unfold actAt
  split
  · exact outcome_apply_writes clock txs index _ state apart
  · rfl

theorem independent_of_no_conflict (left right : Nat)
    (free : conflicts (txAt txs left).rwset (txAt txs right).rwset = false) :
    Apart clock txs left right := by
  simp only [conflicts, keySets, Bool.or_eq_false_iff, Bool.not_eq_false', decide_eq_true_eq,
    Finset.disjoint_left, List.mem_toFinset] at free
  obtain ⟨⟨leftWrites, rightWrites⟩, bothWrites⟩ := free
  have leftBlind : ∀ state, outcomeAt txs left (actAt clock txs right state) =
      outcomeAt txs left state := fun state =>
    outcome_act_at clock txs left right state fun read member written =>
      rightWrites written (List.mem_map_of_mem member)
  have rightBlind : ∀ state, outcomeAt txs right (actAt clock txs left state) =
      outcomeAt txs right state := fun state =>
    outcome_act_at clock txs right left state fun read member written =>
      leftWrites written (List.mem_map_of_mem member)
  refine ⟨?_, leftBlind, rightBlind⟩
  intro state
  have writesApart : ∀ first ∈ (txAt txs left).rwset.writes,
      ∀ second ∈ (txAt txs right).rwset.writes, first.key ≠ second.key := by
    intro first inLeft second inRight same
    exact bothWrites (List.mem_map_of_mem inLeft) (same ▸ List.mem_map_of_mem inRight)
  -- Both orders decide on the outcomes in the common state; only writes remain to commute.
  rw [actAt, leftBlind, actAt.eq_def clock txs right (actAt clock txs left state), rightBlind]
  unfold actAt
  by_cases leftOk : outcomeAt txs left state = .committed
  · by_cases rightOk : outcomeAt txs right state = .committed
    · simp only [leftOk, rightOk, ↓reduceIte]
      exact apply_writes_comm clock _ _ state writesApart
    · simp [leftOk, rightOk]
  · simp [leftOk]

theorem batch_indexed : Indexed (batchOf txs) := by
  unfold Indexed batchOf
  rw [List.map_map, List.length_map, List.length_zipIdx]
  exact (List.zipIdx_map_snd 0 txs).trans (List.range_eq_range').symm

theorem batch_length : (batchOf txs).length = txs.length := by simp [batchOf]

theorem key_sets_at_batch {index : Nat} (inside : index < txs.length) :
    keySetsAt (batchOf txs) index = keySets (txAt txs index).rwset := by
  simp [keySetsAt, batchOf, txAt, inside]

def waveOrder : List Nat :=
  (prepareSchedule txs).waves.flatMap fun wave => wave.txIndices.insertionSort (· ≤ ·)

theorem wave_sorted (wave : Wave) (member : wave ∈ (prepareSchedule txs).waves) :
    ∃ id < waveCountOf (assignWaves (dependencies (batchOf txs))),
      wave.txIndices.insertionSort (· ≤ ·) = wave.txIndices ∧
      (∀ index ∈ wave.txIndices, index < txs.length) ∧
      wave.txIndices = (List.range txs.length).filter
        fun position => waveOf (batchOf txs) position = id := by
  have shape := schedule_waves (batchOf txs) (batch_indexed txs)
  have listed : wave.txIndices ∈ (scheduleBatch (batchOf txs)).waves.map Wave.txIndices :=
    List.mem_map_of_mem member
  rw [shape, List.mem_map] at listed
  obtain ⟨id, bound, same⟩ := listed
  rw [batch_length] at same
  refine ⟨id, List.mem_range.mp bound, ?_, ?_, same.symm⟩
  · apply List.Pairwise.insertionSort_eq
    rw [← same]
    exact (List.pairwise_le_range).filter _
  · intro index
    rw [← same]
    exact fun listed => List.mem_range.mp (List.mem_filter.mp listed).1

theorem wave_order_eq : waveOrder txs =
    (List.range (waveCountOf (assignWaves (dependencies (batchOf txs))))).flatMap fun id =>
      (List.range txs.length).filter fun position => waveOf (batchOf txs) position = id := by
  have shape := schedule_waves (batchOf txs) (batch_indexed txs)
  rw [batch_length] at shape
  have unsorted : waveOrder txs =
      ((prepareSchedule txs).waves.map Wave.txIndices).flatMap id := by
    rw [List.flatMap_map, waveOrder]
    apply List.flatMap_congr
    intro wave member
    obtain ⟨_, _, sorted, _⟩ := wave_sorted txs wave member
    exact sorted
  rw [unsorted, show (prepareSchedule txs).waves.map Wave.txIndices = _ from shape,
    List.flatMap_map]
  rfl

theorem wave_order_perm : (waveOrder txs).Perm (List.range txs.length) := by
  rw [wave_order_eq]
  apply (List.perm_ext_iff_of_nodup ?_ List.nodup_range).mpr
  · intro position
    simp only [List.mem_flatMap, List.mem_filter, List.mem_range, decide_eq_true_eq]
    constructor
    · rintro ⟨_, _, inside, _⟩
      exact inside
    · intro inside
      exact ⟨waveOf (batchOf txs) position,
        wave_of_lt_count (batchOf txs) position (batch_length txs ▸ inside), inside, rfl⟩
  · apply List.nodup_flatMap.mpr
    refine ⟨fun id _ => List.nodup_range.filter _, ?_⟩
    apply List.nodup_range.imp
    intro first second apart
    simp only [Function.onFun, List.disjoint_left, List.mem_filter, decide_eq_true_eq]
    rintro position ⟨_, inFirst⟩ ⟨_, inSecond⟩
    exact apart (inFirst.symm.trans inSecond)

theorem independent_of_wave_le (earlier later : Nat) (before : earlier < later)
    (inside : later < txs.length)
    (notAfter : waveOf (batchOf txs) later ≤ waveOf (batchOf txs) earlier) :
    Apart clock txs later earlier := by
  apply independent_of_no_conflict
  by_contra clash
  have dependent : dependsOn (keySetsAt (batchOf txs) earlier)
      (keySetsAt (batchOf txs) later) = true := by
    rw [key_sets_at_batch txs inside, key_sets_at_batch txs (before.trans inside),
      depends_on_eq_conflicts, conflicts_comm]
    simpa using clash
  have ahead := wave_of_lt (batchOf txs) earlier later before (batch_length txs ▸ inside) dependent
  omega

theorem wave_order_respects : (waveOrder txs).Pairwise fun left right =>
    left < right ∨ Apart clock txs left right := by
  rw [wave_order_eq]
  apply List.pairwise_flatMap.mpr
  constructor
  · intro id _
    apply List.Pairwise.filter
    exact List.pairwise_lt_range.imp Or.inl
  · apply List.pairwise_lt_range.imp
    intro first second before left inFirst right inSecond
    simp only [List.mem_filter, List.mem_range, decide_eq_true_eq] at inFirst inSecond
    rcases lt_trichotomy left right with ordered | same | reversed
    · exact Or.inl ordered
    · have waves := inSecond.2
      rw [← same, inFirst.2] at waves
      omega
    · exact Or.inr (independent_of_wave_le clock txs right left reversed inFirst.1 (by omega))

def stepAt (progress : Progress) (index : Nat) : Progress :=
  match outcomeAt txs index progress.state with
  | .committed => recordCommitted clock (txAt txs index) index progress
  | .mvccConflict key => recordConflict (txAt txs index) index key progress

theorem execute_one_eq (progress : Progress) {index : Nat} (inside : index < txs.length) :
    executeOne clock txs progress index = some (stepAt clock txs progress index) := by
  unfold executeOne stepAt outcomeAt
  rw [get_tx_at txs inside]
  simp only [Option.bind_eq_bind, Option.bind_some]
  cases validateRwset (txAt txs index).rwset progress.state with
  | ok value => rfl
  | error conflict => rfl

theorem foldl_some {Item Acc : Type} (step : Acc → Item → Option Acc)
    (pure : Acc → Item → Acc) (items : List Item) (start : Acc)
    (defined : ∀ item ∈ items, ∀ acc, step acc item = some (pure acc item)) :
    items.foldlM step start = some (items.foldl pure start) := by
  induction items generalizing start with
  | nil => rfl
  | cons item rest ih =>
    obtain ⟨head, tail⟩ := List.forall_mem_cons.mp defined
    rw [List.foldlM_cons, head start]
    exact ih _ tail

theorem step_state (progress : Progress) (index : Nat) :
    (stepAt clock txs progress index).state = actAt clock txs index progress.state := by
  unfold stepAt actAt
  cases outcomeAt txs index progress.state with
  | committed => rfl
  | mvccConflict key => rfl

theorem step_outcomes (progress : Progress) (index : Nat) :
    (stepAt clock txs progress index).outcomes = progress.outcomes.set index
      (some ((txAt txs index).tx.id, outcomeAt txs index progress.state)) := by
  unfold stepAt
  cases outcomeAt txs index progress.state with
  | committed => rfl
  | mvccConflict key => rfl

/-- Running a duplicate-free order leaves each reported outcome in its slot. -/
theorem fold_progress (order : List Nat) (progress : Progress) (distinct : order.Nodup)
    (inside : ∀ index ∈ order, index < progress.outcomes.length) :
    (order.foldl (stepAt clock txs) progress).state =
        (ran clock txs order progress.state).1 ∧
      (order.foldl (stepAt clock txs) progress).outcomes.length = progress.outcomes.length ∧
      (∀ index, index ∉ order → (order.foldl (stepAt clock txs) progress).outcomes[index]? =
        progress.outcomes[index]?) ∧
      ∀ entry ∈ (ran clock txs order progress.state).2,
        (order.foldl (stepAt clock txs) progress).outcomes[entry.1]? =
          some (some ((txAt txs entry.1).tx.id, entry.2)) := by
  induction order generalizing progress with
  | nil => simp [run]
  | cons index rest ih =>
    obtain ⟨fresh, restDistinct⟩ := List.nodup_cons.mp distinct
    obtain ⟨headInside, restInside⟩ := List.forall_mem_cons.mp inside
    have stepLength : (stepAt clock txs progress index).outcomes.length =
        progress.outcomes.length := by
      rw [step_outcomes, List.length_set]
    obtain ⟨state, size, others, entries⟩ :=
      ih (stepAt clock txs progress index) restDistinct
        (fun other member => stepLength ▸ restInside other member)
    rw [step_state] at state entries
    simp only [List.foldl_cons, run]
    -- The head's slot is written once: it does not occur in the rest.
    refine ⟨state, size.trans stepLength, ?_, ?_⟩
    · intro other absent
      simp only [List.mem_cons, not_or] at absent
      rw [others other absent.2, step_outcomes, List.getElem?_set_ne (Ne.symm absent.1)]
    · intro entry member
      rcases List.mem_cons.mp member with first | later
      · subst first
        rw [others index fresh, step_outcomes, List.getElem?_set_self headInside]
      · exact entries entry later

def serialOutcomes (state : WorldState) : List (String × TxOutcome) :=
  (ran clock txs (List.range txs.length) state).2.map
    fun entry => ((txAt txs entry.1).tx.id, entry.2)

theorem ran_indices (order : List Nat) (state : WorldState) :
    (ran clock txs order state).2.map Prod.fst = order :=
  run_indices _ _ order state

theorem serial_outcomes_length (state : WorldState) :
    (serialOutcomes clock txs state).length = txs.length := by
  have indices := congrArg List.length (ran_indices clock txs (List.range txs.length) state)
  simpa [serialOutcomes] using indices

theorem run_range_entry (state : WorldState) (index : Nat) (inside : index < txs.length) :
    ∃ outcome, (index, outcome) ∈
        (ran clock txs (List.range txs.length) state).2 ∧
      (serialOutcomes clock txs state)[index]? = some ((txAt txs index).tx.id, outcome) := by
  have indices := ran_indices clock txs (List.range txs.length) state
  have size := congrArg List.length indices
  rw [List.length_map, List.length_range] at size
  have bound : index < (ran clock txs (List.range txs.length) state).2.length := by omega
  have named := congrArg (fun names => names[index]?) indices
  simp only [List.getElem?_map, List.getElem?_eq_getElem bound, Option.map_some,
    List.getElem?_range inside, Option.some.injEq] at named
  refine ⟨((ran clock txs (List.range txs.length) state).2[index]).2,
    ?_, ?_⟩
  · nth_rewrite 1 [← named]
    exact List.getElem_mem bound
  · simp [serialOutcomes, List.getElem?_eq_getElem bound, named]

def TxOutcome.mark : TxOutcome → String
  | .committed => "committed"
  | .mvccConflict _ => "mvcc_conflict"

theorem commit_block_from (done rest : List EndorsedTransaction) (state : WorldState)
    (whole : txs = done ++ rest) :
    (commitBlock clock rest state).2 =
        (ran clock txs (List.range' done.length rest.length) state).1 ∧
      (commitBlock clock rest state).1.map BlockStore.Transaction.state =
        (ran clock txs (List.range' done.length rest.length)
          state).2.map fun entry => entry.2.mark := by
  induction rest generalizing done state with
  | nil => simp [commitBlock, run]
  | cons endorsed rest ih =>
    have next : txs = (done ++ [endorsed]) ++ rest := by simpa using whole
    have here : txAt txs done.length = endorsed := by simp [txAt, whole]
    have length : (done ++ [endorsed]).length = done.length + 1 := by simp
    simp only [List.length_cons, List.range'_succ, run, commitBlock]
    cases checked : validateRwset endorsed.rwset state with
    | ok value =>
      obtain ⟨final, marks⟩ := ih (done ++ [endorsed])
        (applyWrites clock endorsed.rwset.writes state) next
      rw [length] at final marks
      simp [actAt, outcomeAt, here, checked, final, marks, TxOutcome.mark]
    | error conflict =>
      obtain ⟨final, marks⟩ := ih (done ++ [endorsed]) state next
      rw [length] at final marks
      simp [actAt, outcomeAt, here, checked, final, marks, TxOutcome.mark]

theorem commit_block_eq (state : WorldState) :
    (commitBlock clock txs state).2 =
        (ran clock txs (List.range txs.length) state).1 ∧
      (commitBlock clock txs state).1.map BlockStore.Transaction.state =
        (serialOutcomes clock txs state).map fun outcome => outcome.2.mark := by
  have whole := commit_block_from clock txs [] txs state rfl
  rw [List.length_nil, ← List.range_eq_range'] at whole
  refine ⟨whole.1, whole.2.trans ?_⟩
  rw [serialOutcomes, List.map_map]
  rfl

section Parallel

variable (state : WorldState)

def finalProgress : Progress :=
  (waveOrder txs).foldl (stepAt clock txs) (.start txs.length state)

theorem wave_order_nodup : (waveOrder txs).Nodup :=
  (wave_order_perm txs).nodup_iff.mpr List.nodup_range

theorem wave_order_inside (index : Nat) (member : index ∈ waveOrder txs) :
    index < (Progress.start txs.length state).outcomes.length := by
  simpa [Progress.start] using (wave_order_perm txs).subset member

/-- The wave order ends in the state of the batch order, with its outcomes. -/
theorem final_progress :
    (finalProgress clock txs state).state =
        (ran clock txs (List.range txs.length) state).1 ∧
      (finalProgress clock txs state).outcomes = (serialOutcomes clock txs state).map some := by
  obtain ⟨folded, size, _, entries⟩ := fold_progress clock txs (waveOrder txs)
    (.start txs.length state) (wave_order_nodup txs) (wave_order_inside txs state)
  have reordered := run_reorder (waveOrder txs) (List.range txs.length) state
    (wave_order_perm txs) List.pairwise_lt_range (wave_order_respects clock txs)
  refine ⟨folded.trans reordered.1, ?_⟩
  have serialSize := serial_outcomes_length clock txs state
  have finalSize : (finalProgress clock txs state).outcomes.length = txs.length := by
    simpa [finalProgress, Progress.start] using size
  apply List.ext_getElem?
  intro index
  by_cases inside : index < txs.length
  · -- The serial report for this index is also a report of the wave order.
    obtain ⟨outcome, reported, serial⟩ := run_range_entry clock txs state index inside
    have stored := entries (index, outcome) (reordered.2.symm.subset reported)
    rw [finalProgress, stored, List.getElem?_map, serial]
    rfl
  · rw [List.getElem?_eq_none (by omega), List.getElem?_eq_none (by simp; omega)]

theorem wave_fold_eq : (prepareSchedule txs).waves.foldlM (executeWave clock txs)
    (.start txs.length state) = some (finalProgress clock txs state) := by
  rw [finalProgress, waveOrder, List.foldl_flatMap]
  apply foldl_some
  intro wave member progress
  obtain ⟨_, _, sorted, inside, _⟩ := wave_sorted txs wave member
  apply foldl_some
  intro index listed acc
  exact execute_one_eq clock txs acc (inside index (sorted ▸ listed))

theorem unwrap_filled {Item : Type} (items : List Item) :
    (items.map some).mapM id = some items := by
  induction items with
  | nil => rfl
  | cons item rest ih =>
    rw [List.map_cons, List.mapM_cons, ih]
    rfl

theorem finish_eq (schedule : BatchSchedule) (progress : Progress)
    (outcomes : List (String × TxOutcome)) (filled : progress.outcomes = outcomes.map some) :
    finish txs schedule progress = some
      (⟨outcomes, schedule, progress.committedCount, progress.conflictCount⟩,
        progress.state) := by
  have kept : (fillUnscheduled txs progress).outcomes = outcomes.map some := by
    simp only [fillUnscheduled, filled]
    apply List.ext_getElem?
    intro index
    simp only [List.getElem?_map, List.getElem?_zipIdx]
    cases outcomes[index]? <;> rfl
  have noneLeft : progress.outcomes.filter Option.isNone = [] := by
    rw [filled, List.filter_map]
    simp
  simp only [finish, kept, Option.bind_eq_bind]
  rw [unwrap_filled]
  simp [fillUnscheduled, noneLeft]

theorem execute_block_parallel_eq : executeBlockParallel clock txs state = some
    (⟨serialOutcomes clock txs state, prepareSchedule txs,
      (finalProgress clock txs state).committedCount,
      (finalProgress clock txs state).conflictCount⟩,
      (ran clock txs (List.range txs.length) state).1) := by
  rw [executeBlockParallel, wave_fold_eq, ← (final_progress clock txs state).1]
  exact finish_eq txs _ _ _ (final_progress clock txs state).2

end Parallel

/-- Wave-parallel execution commits and rejects what the serial loop does, and
leaves every key with the same version and data. -/
theorem parallel_matches_serial (clock : Clock) (txs : List EndorsedTransaction)
    (state : WorldState) :
    ∃ result after, executeBlockParallel clock txs state = some (result, after) ∧
      (∀ key, after.get key = (commitBlock clock txs state).2.get key) ∧
      result.outcomes.length = txs.length ∧
      ∀ index : Nat, ((result.outcomes[index]?).map Prod.snd = some TxOutcome.committed ↔
          (((commitBlock clock txs state).1)[index]?).map BlockStore.Transaction.state =
            some "committed") ∧
        ((∃ key, (result.outcomes[index]?).map Prod.snd = some (TxOutcome.mvccConflict key)) ↔
          (((commitBlock clock txs state).1)[index]?).map BlockStore.Transaction.state =
            some "mvcc_conflict") := by
  obtain ⟨final, marks⟩ := commit_block_eq clock txs state
  refine ⟨_, _, execute_block_parallel_eq clock txs state, ?_, ?_, ?_⟩
  · intro key
    rw [final]
  · exact serial_outcomes_length clock txs state
  · intro index
    have mark := congrArg (fun names => names[index]?) marks
    simp only [List.getElem?_map] at mark
    rw [mark]
    cases (serialOutcomes clock txs state)[index]? with
    | none => simp
    | some outcome =>
      obtain ⟨id, outcome⟩ := outcome
      cases outcome with
      | committed => simp [TxOutcome.mark]
      | mvccConflict key => simp [TxOutcome.mark]

section Concurrent

def conflictStep (seen : WorldState) (progress : Progress) (index : Nat) : Progress :=
  match outcomeAt txs index seen with
  | .committed => progress
  | .mvccConflict key => recordConflict (txAt txs index) index key progress

def commitStep (progress : Progress) (index : Nat) : Progress :=
  recordCommitted clock (txAt txs index) index progress

def validIn (seen : WorldState) (index : Nat) : Bool := outcomeAt txs index seen = .committed

def concurrentWave (wave : List Nat) (progress : Progress) : Progress :=
  (wave.filter (validIn txs progress.state)).foldl (commitStep clock txs)
    (wave.foldl (conflictStep txs progress.state) progress)

def resultAt (seen : WorldState) (index : Nat) : ValidationResult :=
  match outcomeAt txs index seen with
  | .committed => .valid index
  | .mvccConflict key => .conflict index key

variable (seen : WorldState) (wave : List Nat)

theorem validate_tasks_eq (inside : ∀ index ∈ wave, index < txs.length) :
    wave.mapM (validateTask txs seen) = some (wave.map (resultAt txs seen)) := by
  induction wave with
  | nil => rfl
  | cons index rest ih =>
    obtain ⟨head, tail⟩ := List.forall_mem_cons.mp inside
    have task : validateTask txs seen index = some (resultAt txs seen index) := by
      unfold validateTask resultAt outcomeAt
      rw [get_tx_at txs head]
      simp only [Option.bind_eq_bind, Option.bind_some]
      cases validateRwset (txAt txs index).rwset seen with
      | ok value => rfl
      | error conflict => rfl
    rw [List.mapM_cons, task, ih tail]
    rfl

theorem collect_results_eq (queued : List Nat) (progress : Progress)
    (inside : ∀ index ∈ wave, index < txs.length) :
    (wave.map (resultAt txs seen)).foldlM (collectResult txs) (progress, queued) =
      some (wave.foldl (conflictStep txs seen) progress,
        queued ++ wave.filter (validIn txs seen)) := by
  induction wave generalizing progress queued with
  | nil => simp
  | cons index rest ih =>
    obtain ⟨head, tail⟩ := List.forall_mem_cons.mp inside
    rw [List.map_cons, List.foldlM_cons, List.foldl_cons, List.filter_cons]
    cases outcome : outcomeAt txs index seen with
    | committed =>
      simp [resultAt, conflictStep, validIn, outcome, collectResult, ih _ _ tail]
    | mvccConflict key =>
      simp [resultAt, conflictStep, validIn, outcome, collectResult, get_tx_at txs head,
        ih _ _ tail]

theorem execute_wave_concurrent_eq (progress : Progress) (wave : Wave)
    (sorted : wave.txIndices.insertionSort (· ≤ ·) = wave.txIndices)
    (ascending : wave.txIndices.Pairwise (· ≤ ·))
    (inside : ∀ index ∈ wave.txIndices, index < txs.length) :
    executeWaveConcurrent clock txs progress wave =
      some (concurrentWave clock txs wave.txIndices progress) := by
  have validSorted : (wave.txIndices.filter (validIn txs progress.state)).insertionSort (· ≤ ·) =
      wave.txIndices.filter (validIn txs progress.state) :=
    (ascending.filter _).insertionSort_eq
  simp only [executeWaveConcurrent, sorted, validate_tasks_eq txs progress.state _ inside,
    Option.bind_eq_bind, Option.bind_some, collect_results_eq txs progress.state _ _ _ inside,
    List.nil_append, validSorted]
  apply foldl_some
  intro index member acc
  rw [applyValid, get_tx_at txs (inside index (List.mem_filter.mp member).1)]
  rfl

theorem conflict_fold_congr (seen' : WorldState) (wave : List Nat) (progress : Progress)
    (same : ∀ index ∈ wave, outcomeAt txs index seen = outcomeAt txs index seen') :
    wave.foldl (conflictStep txs seen) progress = wave.foldl (conflictStep txs seen') progress := by
  apply List.foldl_ext
  intro acc index member
  rw [conflictStep, same index member, conflictStep]

theorem commit_conflict_fold (index : Nat) (progress : Progress) (fresh : index ∉ wave) :
    commitStep clock txs (wave.foldl (conflictStep txs seen) progress) index =
      wave.foldl (conflictStep txs seen) (commitStep clock txs progress index) := by
  induction wave generalizing progress with
  | nil => rfl
  | cons other rest ih =>
    simp only [List.mem_cons, not_or] at fresh
    rw [List.foldl_cons, List.foldl_cons, ih _ fresh.2]
    congr 1
    unfold conflictStep
    cases outcomeAt txs other seen with
    | committed => rfl
    | mvccConflict key =>
      simp [commitStep, recordCommitted, recordConflict, List.set_comm _ _ fresh.1]

/-- Validating a whole wave first changes nothing when its members are
independent. -/
theorem concurrent_wave_eq (progress : Progress) (distinct : wave.Nodup)
    (apart : wave.Pairwise fun earlier later =>
      Apart clock txs later earlier) :
    concurrentWave clock txs wave progress = wave.foldl (stepAt clock txs) progress := by
  induction wave generalizing progress with
  | nil => rfl
  | cons index rest ih =>
    obtain ⟨fresh, restDistinct⟩ := List.nodup_cons.mp distinct
    obtain ⟨headApart, restApart⟩ := List.pairwise_cons.mp apart
    rw [List.foldl_cons, ← ih _ restDistinct restApart]
    unfold concurrentWave
    cases outcome : outcomeAt txs index progress.state with
    | mvccConflict key =>
      -- A conflict leaves the state alone, so the rest sees the same state.
      have stepped : stepAt clock txs progress index =
          recordConflict (txAt txs index) index key progress := by
        simp [stepAt, outcome]
      have rejected : validIn txs progress.state index = false := by
        simp [validIn, outcome]
      have recorded : conflictStep txs progress.state progress index =
          recordConflict (txAt txs index) index key progress := by
        simp [conflictStep, outcome]
      rw [stepped, List.filter_cons_of_neg (by simp [rejected]), List.foldl_cons, recorded]
      rfl
    | committed =>
      have stepped : stepAt clock txs progress index =
          commitStep clock txs progress index := by
        simp [stepAt, outcome, commitStep]
      have accepted : validIn txs progress.state index = true := by
        simp [validIn, outcome]
      have skipped : conflictStep txs progress.state progress index = progress := by
        simp [conflictStep, outcome]
      have after : (commitStep clock txs progress index).state =
          actAt clock txs index progress.state := by
        rw [← stepped, step_state]
      have unseen : ∀ other ∈ rest,
          outcomeAt txs other (actAt clock txs index progress.state) =
            outcomeAt txs other progress.state :=
        fun other member => (headApart other member).leftBlind progress.state
      have sameValid : rest.filter (validIn txs (actAt clock txs index progress.state)) =
          rest.filter (validIn txs progress.state) := by
        apply List.filter_congr
        intro other member
        rw [validIn, unseen other member, validIn]
      rw [stepped, after, sameValid, conflict_fold_congr txs _ progress.state rest _ unseen,
        List.filter_cons_of_pos accepted, List.foldl_cons, List.foldl_cons, skipped,
        commit_conflict_fold clock txs _ _ _ _ fresh]

theorem concurrent_fold_eq (state : WorldState) :
    (prepareSchedule txs).waves.foldlM (executeWaveConcurrent clock txs)
      (.start txs.length state) = some (finalProgress clock txs state) := by
  rw [finalProgress, waveOrder, List.foldl_flatMap]
  apply foldl_some
  intro wave member progress
  obtain ⟨id, _, sorted, inside, positions⟩ := wave_sorted txs wave member
  have apart : wave.txIndices.Pairwise fun earlier later =>
      Apart clock txs later earlier := by
    rw [positions]
    apply (List.pairwise_lt_range.filter _).imp_of_mem
    intro earlier later inEarlier inLater before
    simp only [List.mem_filter, List.mem_range, decide_eq_true_eq] at inEarlier inLater
    exact independent_of_wave_le clock txs earlier later before inLater.1
      (by rw [inEarlier.2, inLater.2])
  have ascending : wave.txIndices.Pairwise (· ≤ ·) := by
    rw [positions]
    exact List.pairwise_le_range.filter _
  have distinct : wave.txIndices.Nodup := by
    rw [positions]
    exact List.nodup_range.filter _
  rw [execute_wave_concurrent_eq clock txs progress wave sorted ascending inside, sorted,
    concurrent_wave_eq clock txs _ progress distinct apart]

end Concurrent

/-- Validating each wave as a whole returns the same outcomes and counts and
leaves the same state as executing it one transaction at a time. -/
theorem concurrent_matches_parallel (clock : Clock) (txs : List EndorsedTransaction)
    (state : WorldState) :
    ∃ result after, executeBlockConcurrent clock txs state = some (result, after) ∧
      executeBlockParallel clock txs state = some (result, after) := by
  refine ⟨_, _, ?_, execute_block_parallel_eq clock txs state⟩
  rw [executeBlockConcurrent, concurrent_fold_eq, ← (final_progress clock txs state).1]
  exact finish_eq txs _ _ _ (final_progress clock txs state).2

end CeruleanLedger.BlockExecutor
