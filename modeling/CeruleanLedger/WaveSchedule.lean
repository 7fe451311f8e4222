import CeruleanLedger.Mvcc

/-!
Wave scheduling of `transaction/parallel.rs`: each transaction goes one wave
past the latest earlier transaction it conflicts with. Hash sets are finite
sets; the parallelism ratio is the only floating-point value and nothing
depends on it.
-/

namespace CeruleanLedger.WaveSchedule

open Mvcc

structure TxWithRwSet where
  index : Nat
  txId : String
  rwset : ReadWriteSet

structure Wave where
  waveId : Nat
  txIndices : List Nat
  deriving DecidableEq

structure BatchSchedule where
  waves : List Wave
  totalTxs : Nat
  waveCount : Nat
  parallelismRatio : Float

structure KeySets where
  reads : Finset String
  writes : Finset String

def keySets (rwset : ReadWriteSet) : KeySets :=
  ⟨(rwset.reads.map KVRead.key).toFinset, (rwset.writes.map KVWrite.key).toFinset⟩

/-- Read-after-write, write-after-write or write-after-read on some key. -/
def dependsOn (earlier later : KeySets) : Bool :=
  !decide (Disjoint earlier.writes later.reads) ||
    !decide (Disjoint earlier.writes later.writes) ||
    !decide (Disjoint earlier.reads later.writes)

def conflicts (a b : ReadWriteSet) : Bool :=
  let first := keySets a
  let second := keySets b
  let raw := !decide (Disjoint first.writes second.reads) ||
    !decide (Disjoint second.writes first.reads)
  let waw := !decide (Disjoint first.writes second.writes)
  raw || waw

def keySetsAt (txs : List TxWithRwSet) (position : Nat) : KeySets :=
  ((txs[position]?).map fun tx => keySets tx.rwset).getD ⟨∅, ∅⟩

/-- `deps[j]`: the earlier positions that `j` conflicts with. -/
def dependencies (txs : List TxWithRwSet) : List (Finset Nat) :=
  (List.range txs.length).map fun later =>
    (Finset.range later).filter fun earlier =>
      dependsOn (keySetsAt txs earlier) (keySetsAt txs later)

def nextWave (assignment : List Nat) (dependency : Finset Nat) : Nat :=
  if dependency = ∅ then 0 else dependency.sup (fun earlier => assignment.getD earlier 0) + 1

/-- The wave array, filled from the front. -/
def assignWaves (deps : List (Finset Nat)) : List Nat :=
  deps.foldl (fun assignment dependency => assignment ++ [nextWave assignment dependency]) []

def waveCountOf (assignment : List Nat) : Nat :=
  match assignment.max? with
  | none => 0
  | some latest => latest + 1

def Wave.push (wave : Wave) (index : Nat) : Wave :=
  { wave with txIndices := wave.txIndices ++ [index] }

/-- The grouping loop: each transaction is pushed onto its wave. -/
def groupWaves (assigned : List (Nat × TxWithRwSet)) (waves : List Wave) : List Wave :=
  assigned.foldl (fun waves entry => waves.modify entry.1 (·.push entry.2.index)) waves

def scheduleBatch (txs : List TxWithRwSet) : BatchSchedule :=
  if txs.length = 0 then ⟨[], 0, 0, 0.0⟩
  else
    let assignment := assignWaves (dependencies txs)
    let waveCount := waveCountOf assignment
    { waves := groupWaves (assignment.zip txs) ((List.range waveCount).map fun id => ⟨id, []⟩)
      totalTxs := txs.length
      waveCount
      parallelismRatio :=
        if waveCount > 0 then Float.ofNat txs.length / Float.ofNat waveCount else 0.0 }

theorem depends_on_eq_conflicts (a b : ReadWriteSet) :
    dependsOn (keySets a) (keySets b) = conflicts a b := by
  unfold dependsOn conflicts
  simp only [disjoint_comm (a := (keySets b).writes) (b := (keySets a).reads)]
  cases decide (Disjoint (keySets a).writes (keySets b).reads) <;>
    cases decide (Disjoint (keySets a).writes (keySets b).writes) <;> simp

theorem conflicts_comm (a b : ReadWriteSet) : conflicts a b = conflicts b a := by
  unfold conflicts
  simp only [disjoint_comm (a := (keySets b).writes) (b := (keySets a).writes)]
  cases decide (Disjoint (keySets a).writes (keySets b).reads) <;> simp

theorem assign_waves_snoc (deps : List (Finset Nat)) (dependency : Finset Nat) :
    assignWaves (deps ++ [dependency]) =
      assignWaves deps ++ [nextWave (assignWaves deps) dependency] := by
  simp [assignWaves]

@[simp] theorem assign_waves_length (deps : List (Finset Nat)) :
    (assignWaves deps).length = deps.length := by
  induction deps using List.reverseRecOn with
  | nil => rfl
  | append_singleton deps dependency ih => simp [assign_waves_snoc, ih]

theorem next_wave_append (assignment more : List Nat) (dependency : Finset Nat)
    (inside : ∀ earlier ∈ dependency, earlier < assignment.length) :
    nextWave (assignment ++ more) dependency = nextWave assignment dependency := by
  unfold nextWave
  split
  · rfl
  · congr 1
    apply Finset.sup_congr rfl
    intro earlier member
    exact List.getD_append _ _ _ _ (inside earlier member)

/-- Every position depends on earlier positions only. -/
def Backward (deps : List (Finset Nat)) : Prop :=
  ∀ (place : Nat) (entry : Finset Nat), deps[place]? = some entry →
    ∀ earlier ∈ entry, earlier < place

/-- Each entry satisfies the longest-path equation of the finished array. -/
theorem assign_waves_entry (deps : List (Finset Nat)) (position : Nat) (dependency : Finset Nat)
    (backward : Backward deps) (found : deps[position]? = some dependency) :
    (assignWaves deps)[position]? = some (nextWave (assignWaves deps) dependency) := by
  induction deps using List.reverseRecOn with
  | nil => simp at found
  | append_singleton deps last ih =>
    have before : Backward deps := by
      intro place entry present
      have bound : place < deps.length := (List.getElem?_eq_some_iff.mp present).1
      exact backward place entry (by rw [List.getElem?_append_left bound]; exact present)
    rw [assign_waves_snoc]
    by_cases inside : position < deps.length
    · rw [List.getElem?_append_left inside] at found
      rw [List.getElem?_append_left (by simpa using inside), ih before found,
        next_wave_append]
      intro earlier member
      have smaller := before position dependency found earlier member
      simp only [assign_waves_length]
      omega
    · have atEnd : position = deps.length := by
        have bound := (List.getElem?_eq_some_iff.mp found).1
        simp only [List.length_append, List.length_cons, List.length_nil] at bound
        omega
      subst atEnd
      simp only [List.getElem?_concat_length, Option.some.injEq] at found
      subst found
      rw [next_wave_append]
      · simp
      · intro earlier member
        simpa using backward deps.length last (by simp) earlier member

theorem group_waves_entry (assigned : List (Nat × TxWithRwSet)) (waves : List Wave)
    (id : Nat) :
    (groupWaves assigned waves)[id]? = waves[id]?.map fun wave =>
      { wave with txIndices := wave.txIndices ++
          ((assigned.filter fun entry => entry.1 = id).map fun entry => entry.2.index) } := by
  induction assigned generalizing waves with
  | nil => simp [groupWaves]
  | cons entry rest ih =>
    have stepped : groupWaves (entry :: rest) waves =
        groupWaves rest (waves.modify entry.1 (·.push entry.2.index)) := rfl
    rw [stepped, ih, List.getElem?_modify]
    by_cases same : entry.1 = id
    · simp [same, Wave.push, Function.comp_def]
    · simp [same]

section Schedule

variable (txs : List TxWithRwSet)

def waveOf (position : Nat) : Nat := (assignWaves (dependencies txs)).getD position 0

/-- Batches as the executor prepares them: the index fields are `0..n-1`. -/
def Indexed : Prop := txs.map TxWithRwSet.index = List.range txs.length

theorem dependencies_backward : Backward (dependencies txs) := by
  intro place entry found earlier member
  simp only [dependencies, List.getElem?_map, Option.map_eq_some_iff] at found
  obtain ⟨later, atPlace, same⟩ := found
  obtain ⟨_, laterEq⟩ := List.getElem?_eq_some_iff.mp atPlace
  rw [List.getElem_range] at laterEq
  subst same laterEq
  exact Finset.mem_range.mp (Finset.mem_filter.mp member).1

theorem wave_of_eq (position : Nat) (inside : position < txs.length) :
    waveOf txs position = nextWave (assignWaves (dependencies txs))
      ((Finset.range position).filter fun earlier =>
        dependsOn (keySetsAt txs earlier) (keySetsAt txs position)) := by
  have found : (dependencies txs)[position]? = some ((Finset.range position).filter fun earlier =>
      dependsOn (keySetsAt txs earlier) (keySetsAt txs position)) := by
    simp [dependencies, inside]
  have entry := assign_waves_entry _ _ _ (dependencies_backward txs) found
  rw [waveOf, List.getD_eq_getElem?_getD, entry, Option.getD_some]

theorem wave_of_lt (earlier later : Nat) (before : earlier < later) (inside : later < txs.length)
    (dependent : dependsOn (keySetsAt txs earlier) (keySetsAt txs later) = true) :
    waveOf txs earlier < waveOf txs later := by
  have member : earlier ∈ (Finset.range later).filter fun earlier =>
      dependsOn (keySetsAt txs earlier) (keySetsAt txs later) := by
    exact Finset.mem_filter.mpr ⟨Finset.mem_range.mpr before, dependent⟩
  rw [wave_of_eq txs later inside, nextWave, if_neg (Finset.ne_empty_of_mem member)]
  apply Nat.lt_succ_of_le
  exact Finset.le_sup (f := fun place => (assignWaves (dependencies txs)).getD place 0) member

theorem wave_of_lt_count (position : Nat) (inside : position < txs.length) :
    waveOf txs position < waveCountOf (assignWaves (dependencies txs)) := by
  have bound : position < (assignWaves (dependencies txs)).length := by
    simpa [dependencies] using inside
  have member : waveOf txs position ∈ assignWaves (dependencies txs) := by
    rw [waveOf, List.getD_eq_getElem _ _ bound]
    exact List.getElem_mem bound
  unfold waveCountOf
  cases latest : (assignWaves (dependencies txs)).max? with
  | none =>
    rw [List.max?_eq_none_iff.mp latest] at member
    cases member
  | some most =>
    exact Nat.lt_succ_of_le ((List.max?_eq_some_iff.mp latest).2 _ member)

theorem wave_members (indexed : Indexed txs) (id : Nat) :
    (((assignWaves (dependencies txs)).zip txs).filter fun entry => entry.1 = id).map
        (fun entry => entry.2.index) =
      (List.range txs.length).filter fun position => waveOf txs position = id := by
  have listed : (assignWaves (dependencies txs)).zip (List.range txs.length) =
      (List.range txs.length).map fun position => (waveOf txs position, position) := by
    apply List.ext_getElem
    · simp [dependencies]
    · intro position left right
      have inside : position < (assignWaves (dependencies txs)).length := by
        simp only [List.length_zip] at left
        omega
      simp [waveOf, List.getElem?_eq_getElem inside]
  have relabelled : (((assignWaves (dependencies txs)).zip txs).filter
      fun entry => entry.1 = id).map (fun entry => entry.2.index) =
      (((assignWaves (dependencies txs)).zip (txs.map TxWithRwSet.index)).filter
        fun entry => entry.1 = id).map Prod.snd := by
    rw [List.zip_map_right, List.filter_map, List.map_map]
    rfl
  rw [relabelled, indexed, listed, List.filter_map, List.map_map]
  exact List.map_id _

theorem schedule_waves (indexed : Indexed txs) :
    (scheduleBatch txs).waves.map Wave.txIndices =
      (List.range (waveCountOf (assignWaves (dependencies txs)))).map fun id =>
        (List.range txs.length).filter fun position => waveOf txs position = id := by
  by_cases empty : txs.length = 0
  · have none : txs = [] := List.length_eq_zero_iff.mp empty
    subst none
    rfl
  · rw [scheduleBatch, if_neg empty]
    apply List.ext_getElem?
    intro id
    rw [List.getElem?_map, group_waves_entry, List.getElem?_map, List.getElem?_map]
    cases found : (List.range (waveCountOf (assignWaves (dependencies txs))))[id]? with
    | none => rfl
    | some wave =>
      obtain ⟨_, value⟩ := List.getElem?_eq_some_iff.mp found
      rw [List.getElem_range] at value
      simp [wave_members txs indexed, value]

end Schedule

/-- The wave at a place of the schedule holds an index. -/
def InWave (schedule : BatchSchedule) (place index : Nat) : Prop :=
  ∃ wave, schedule.waves[place]? = some wave ∧ index ∈ wave.txIndices

variable {txs : List TxWithRwSet}

theorem wave_indices (indexed : Indexed txs) {place : Nat} {wave : Wave}
    (found : (scheduleBatch txs).waves[place]? = some wave) :
    wave.txIndices =
      (List.range txs.length).filter fun position => waveOf txs position = place := by
  have listed := congrArg (·[place]?) (schedule_waves txs indexed)
  simp only [List.getElem?_map, found, Option.map_some] at listed
  obtain ⟨id, inside, same⟩ := Option.map_eq_some_iff.mp listed.symm
  obtain ⟨_, value⟩ := List.getElem?_eq_some_iff.mp inside
  rw [List.getElem_range] at value
  subst value
  exact same.symm

theorem wave_id_place {place : Nat} {wave : Wave}
    (found : (scheduleBatch txs).waves[place]? = some wave) : wave.waveId = place := by
  unfold scheduleBatch at found
  split at found
  · cases found
  · rw [group_waves_entry, List.getElem?_map] at found
    obtain ⟨empty, initial, same⟩ := Option.map_eq_some_iff.mp found
    obtain ⟨id, inside, numbered⟩ := Option.map_eq_some_iff.mp initial
    obtain ⟨_, value⟩ := List.getElem?_eq_some_iff.mp inside
    rw [List.getElem_range] at value
    subst same numbered value
    rfl

theorem in_wave_iff (indexed : Indexed txs) (place index : Nat) :
    InWave (scheduleBatch txs) place index ↔ index < txs.length ∧ waveOf txs index = place := by
  constructor
  · rintro ⟨wave, found, member⟩
    rw [wave_indices indexed found, List.mem_filter] at member
    exact ⟨List.mem_range.mp member.1, by simpa using member.2⟩
  · rintro ⟨inside, assigned⟩
    subst assigned
    have counted := wave_of_lt_count txs index inside
    have listed := congrArg (·[waveOf txs index]?) (schedule_waves txs indexed)
    simp only [List.getElem?_map, List.getElem?_range counted, Option.map_some] at listed
    obtain ⟨wave, found, same⟩ := Option.map_eq_some_iff.mp listed
    refine ⟨wave, found, ?_⟩
    rw [same]
    simp [inside]

theorem wave_of_tight (index place : Nat) (inside : index < txs.length)
    (assigned : waveOf txs index = place + 1) :
    ∃ earlier < index, waveOf txs earlier = place ∧
      dependsOn (keySetsAt txs earlier) (keySetsAt txs index) = true := by
  rw [wave_of_eq txs index inside, nextWave] at assigned
  split at assigned
  · cases assigned
  · rename_i some
    -- The wave is one past the maximum over the dependencies, which one of them attains.
    obtain ⟨earlier, member, attained⟩ := Finset.exists_mem_eq_sup _
      (Finset.nonempty_iff_ne_empty.mpr some)
      (fun place => (assignWaves (dependencies txs)).getD place 0)
    rw [attained] at assigned
    obtain ⟨before, dependent⟩ := Finset.mem_filter.mp member
    exact ⟨earlier, Finset.mem_range.mp before, Nat.succ.inj assigned, dependent⟩

theorem depends_at {earlier later : Nat} {first second : TxWithRwSet}
    (atEarlier : txs[earlier]? = some first) (atLater : txs[later]? = some second) :
    dependsOn (keySetsAt txs earlier) (keySetsAt txs later) =
      conflicts first.rwset second.rwset := by
  rw [keySetsAt, keySetsAt, atEarlier, atLater]
  exact depends_on_eq_conflicts _ _

/-- What a schedule owes its batch. -/
structure Layered (txs : List TxWithRwSet) (schedule : BatchSchedule) : Prop where
  numbered : ∀ (place : Nat) (wave : Wave), schedule.waves[place]? = some wave → wave.waveId = place
  covered : ∀ index < txs.length, ∃! place, InWave schedule place index
  known : ∀ place index, InWave schedule place index → index < txs.length
  ascending : ∀ wave ∈ schedule.waves, wave.txIndices.Pairwise (· < ·)
  separated : ∀ (earlier later : Nat) (first second : TxWithRwSet), earlier < later →
    txs[earlier]? = some first → txs[later]? = some second →
    conflicts first.rwset second.rwset = true →
    ∀ place place', InWave schedule place earlier → InWave schedule place' later →
      place < place'
  tight : ∀ place index, InWave schedule (place + 1) index →
    ∃ earlier < index, ∃ first second : TxWithRwSet, txs[earlier]? = some first ∧
      txs[index]? = some second ∧ conflicts first.rwset second.rwset = true ∧
      InWave schedule place earlier

/-- Waves are correct and as early as the conflicts allow. -/
theorem schedule_layered (txs : List TxWithRwSet) (indexed : Indexed txs) :
    Layered txs (scheduleBatch txs) where
  numbered := fun _ _ => wave_id_place
  covered := by
    intro index inside
    refine ⟨waveOf txs index, (in_wave_iff indexed _ _).mpr ⟨inside, rfl⟩, ?_⟩
    intro place member
    exact ((in_wave_iff indexed _ _).mp member).2.symm
  known := by
    intro place index member
    exact ((in_wave_iff indexed _ _).mp member).1
  ascending := by
    intro wave member
    obtain ⟨place, found⟩ := List.mem_iff_getElem?.mp member
    rw [wave_indices indexed found]
    exact List.pairwise_lt_range.filter _
  separated := by
    intro earlier later first second before atEarlier atLater conflict place place' here there
    obtain ⟨_, assigned⟩ := (in_wave_iff indexed _ _).mp here
    obtain ⟨inside, assigned'⟩ := (in_wave_iff indexed _ _).mp there
    rw [← assigned, ← assigned']
    apply wave_of_lt txs earlier later before inside
    rw [depends_at atEarlier atLater]
    exact conflict
  tight := by
    intro place index member
    obtain ⟨inside, assigned⟩ := (in_wave_iff indexed _ _).mp member
    obtain ⟨earlier, before, one, dependent⟩ := wave_of_tight index place inside assigned
    have earlierInside : earlier < txs.length := Nat.lt_trans before inside
    have atEarlier := List.getElem?_eq_getElem earlierInside
    have atIndex := List.getElem?_eq_getElem inside
    refine ⟨earlier, before, _, _, atEarlier, atIndex, ?_, ?_⟩
    · rw [← depends_at atEarlier atIndex]
      exact dependent
    · exact (in_wave_iff indexed _ _).mpr ⟨earlierInside, one⟩

def threeTxs : List TxWithRwSet :=
  [⟨0, "t0", ⟨[], [⟨"a", []⟩]⟩⟩, ⟨1, "t1", ⟨[⟨"a", 0⟩], []⟩⟩, ⟨2, "t2", ⟨[], [⟨"b", []⟩]⟩⟩]

theorem three_txs_layered :
    (scheduleBatch threeTxs).waves = [⟨0, [0, 2]⟩, ⟨1, [1]⟩] ∧
      Layered threeTxs (scheduleBatch threeTxs) :=
  ⟨by decide +kernel, schedule_layered threeTxs rfl⟩

end CeruleanLedger.WaveSchedule
