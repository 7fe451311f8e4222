import CeruleanLedger.BlockStore
import CeruleanLedger.VersionedState

/-!
Multi-version validation of `transaction/mvcc.rs` over the read-write sets of
`transaction/rwset.rs`. The version counter of a key restarts when the key is deleted, so an
equal version means equal data only under a condition.
-/

namespace CeruleanLedger.Mvcc

open ByteCodec BlockStore VersionedState

structure KVRead where
  key : String
  version : UInt64
  deriving DecidableEq

structure KVWrite where
  key : String
  value : Bytes
  deriving DecidableEq

structure ReadWriteSet where
  reads : List KVRead
  writes : List KVWrite
  deriving DecidableEq

structure MvccConflict where
  key : String
  readVersion : UInt64
  currentVersion : UInt64
  deriving DecidableEq

def validateReads : List KVRead → WorldState → Except MvccConflict Unit
  | [], _ => .ok ()
  | read :: rest, state =>
    if read.version ≠ state.versionOf read.key then
      .error ⟨read.key, read.version, state.versionOf read.key⟩
    else validateReads rest state

def validateRwset (rwset : ReadWriteSet) (state : WorldState) : Except MvccConflict Unit :=
  validateReads rwset.reads state

def applyWrites (clock : Clock) (writes : List KVWrite) (state : WorldState) : WorldState :=
  writes.foldl (fun state write => state.put clock write.key write.value) state

/-- The proposal's transaction and the endorsed read-write set; endorsements
and creator fields are not read when a block is executed. -/
structure EndorsedTransaction where
  tx : Transaction
  rwset : ReadWriteSet

def commitBlock (clock : Clock) : List EndorsedTransaction → WorldState →
    List Transaction × WorldState
  | [], state => ([], state)
  | endorsed :: rest, state =>
    match validateRwset endorsed.rwset state with
    | .ok () =>
      let (marked, final) :=
        commitBlock clock rest (applyWrites clock endorsed.rwset.writes state)
      ({ endorsed.tx with state := "committed" } :: marked, final)
    | .error _ =>
      let (marked, final) := commitBlock clock rest state
      ({ endorsed.tx with state := "mvcc_conflict" } :: marked, final)

theorem validate_reads_iff (reads : List KVRead) (state : WorldState) :
    validateReads reads state = .ok () ↔
      ∀ read ∈ reads, read.version = state.versionOf read.key := by
  induction reads with
  | nil => simp [validateReads]
  | cons read rest ih =>
    by_cases same : read.version = state.versionOf read.key
    · simp [validateReads, same, ih]
    · simp [validateReads, same]

theorem validate_reads_congr (reads : List KVRead) (left right : WorldState)
    (same : ∀ read ∈ reads, left.versionOf read.key = right.versionOf read.key) :
    validateReads reads left = validateReads reads right := by
  induction reads with
  | nil => rfl
  | cons read rest ih =>
    obtain ⟨head, tail⟩ := List.forall_mem_cons.mp same
    simp [validateReads, head, ih tail]

variable (clock : Clock) (writes : List KVWrite) (state : WorldState) (key : String)

theorem apply_writes_get_of_notMem (absent : key ∉ writes.map KVWrite.key) :
    (applyWrites clock writes state).get key = state.get key := by
  induction writes generalizing state with
  | nil => rfl
  | cons write rest ih =>
    simp only [List.map_cons, List.mem_cons, not_or] at absent
    rw [applyWrites, List.foldl_cons, ← applyWrites, ih _ absent.2]
    exact WorldState.get_put_of_ne clock state write.value (Ne.symm absent.1)

theorem apply_writes_get_of_mem (distinct : (writes.map KVWrite.key).Nodup) (write : KVWrite)
    (member : write ∈ writes) :
    (applyWrites clock writes state).get write.key =
      some ⟨state.versionOf write.key + 1, write.value⟩ := by
  induction writes generalizing state with
  | nil => cases member
  | cons first rest ih =>
    obtain ⟨fresh, others⟩ := List.nodup_cons.mp distinct
    rw [applyWrites, List.foldl_cons, ← applyWrites]
    rcases List.mem_cons.mp member with rfl | later
    · rw [apply_writes_get_of_notMem clock rest _ write.key fresh, WorldState.get_put, if_pos rfl]
    · have apart : first.key ≠ write.key := by
        intro same
        exact fresh (List.mem_map.mpr ⟨write, later, same.symm⟩)
      rw [ih _ others later, WorldState.versionOf, WorldState.versionOf,
        WorldState.get_put_of_ne clock state first.value apart]

theorem apply_writes_append (first second : List KVWrite) (state : WorldState) :
    applyWrites clock (first ++ second) state =
      applyWrites clock second (applyWrites clock first state) := by
  rw [applyWrites, List.foldl_append, ← applyWrites, ← applyWrites]

theorem put_apply_writes (data : Bytes) (state : WorldState)
    (apart : ∀ write ∈ writes, write.key ≠ key) :
    (applyWrites clock writes state).put clock key data =
      applyWrites clock writes (state.put clock key data) := by
  induction writes generalizing state with
  | nil => rfl
  | cons write rest ih =>
    obtain ⟨head, tail⟩ := List.forall_mem_cons.mp apart
    simp only [applyWrites, List.foldl_cons] at ih ⊢
    rw [ih _ tail, put_comm clock state write.value data head]

theorem apply_writes_comm (left right : List KVWrite) (state : WorldState)
    (apart : ∀ first ∈ left, ∀ second ∈ right, first.key ≠ second.key) :
    applyWrites clock left (applyWrites clock right state) =
      applyWrites clock right (applyWrites clock left state) := by
  induction left generalizing state with
  | nil => rfl
  | cons write rest ih =>
    obtain ⟨head, tail⟩ := List.forall_mem_cons.mp apart
    have passed := put_apply_writes clock right write.key write.value state
      (fun second member => (head second member).symm)
    have moved := ih (state.put clock write.key write.value) tail
    simp only [applyWrites, List.foldl_cons] at passed moved ⊢
    rw [passed, moved]

theorem apply_writes_perm {first second : List KVWrite} (same : first.Perm second)
    (distinct : (first.map KVWrite.key).Nodup) :
    applyWrites clock first state = applyWrites clock second state := by
  induction same generalizing state with
  | nil => rfl
  | cons write tail ih => exact ih _ (List.nodup_cons.mp distinct).2
  | swap left right rest =>
    have apart : right.key ≠ left.key := by
      intro equal
      simp [equal] at distinct
    simp only [applyWrites, List.foldl_cons]
    rw [put_comm clock state right.value left.value apart]
  | trans front _ first_ih second_ih =>
    rw [first_ih state distinct, second_ih state ((front.map _).nodup_iff.mp distinct)]

inductive WriteOp where
  | put (key : String) (data : Bytes)
  | delete (key : String)

variable (ops : List WriteOp)

def WriteOp.apply (clock : Clock) (state : WorldState) : WriteOp → WorldState
  | .put key data => state.put clock key data
  | .delete key => state.delete clock key

def applyOps (clock : Clock) (state : WorldState) (ops : List WriteOp) : WorldState :=
  ops.foldl (WriteOp.apply clock) state

def Simulated (state : WorldState) (rwset : ReadWriteSet) : Prop :=
  ∀ read ∈ rwset.reads, read.version = state.versionOf read.key

/-- Whatever was read has the same presence and data whenever validation after
the operations succeeds. -/
def ReadsSound (clock : Clock) (state : WorldState) (ops : List WriteOp) : Prop :=
  ∀ rwset, Simulated state rwset → validateRwset rwset (applyOps clock state ops) = .ok () →
    ∀ read ∈ rwset.reads, (applyOps clock state ops).dataOf read.key = state.dataOf read.key

def WriteOp.effect (key : String) : WriteOp → Option (Option Bytes)
  | .put other data => if other = key then some (some data) else none
  | .delete other => if other = key then some none else none

def latestFirst (key : String) (ops : List WriteOp) : List (Option Bytes) :=
  (ops.filterMap (WriteOp.effect key)).reverse

def recentPuts (key : String) (ops : List WriteOp) : Nat :=
  ((latestFirst key ops).takeWhile Option.isSome).length

def counterStart (state : WorldState) (key : String) (ops : List WriteOp) : UInt64 :=
  if none ∈ latestFirst key ops then 0 else state.versionOf key

/-- For every key the operations touch: if they end in a delete, the key was
absent or had a version other than 0; if they end in a put, the puts since the
last delete do not bring the counter back to the version read, or the data put
last is the data read. -/
def CounterIdentifies (state : WorldState) (ops : List WriteOp) : Prop :=
  ∀ key, match latestFirst key ops with
    | [] => True
    | none :: _ => state.versionOf key = 0 → state.dataOf key = none
    | some data :: _ =>
      counterStart state key ops + UInt64.ofNat (recentPuts key ops) = state.versionOf key →
        state.dataOf key = some data

theorem latest_first_snoc (op : WriteOp) :
    latestFirst key (ops ++ [op]) = (op.effect key).toList ++ latestFirst key ops := by
  unfold latestFirst
  cases effect : op.effect key with
  | none => simp [effect]
  | some change => simp [effect]

theorem get_apply_ops (key : String) :
    (applyOps clock state ops).get key =
      match latestFirst key ops with
      | [] => state.get key
      | none :: _ => none
      | some data :: _ =>
        some ⟨counterStart state key ops + UInt64.ofNat (recentPuts key ops), data⟩ := by
  induction ops using List.reverseRecOn with
  | nil => rfl
  | append_singleton ops op ih =>
    have stepped : applyOps clock state (ops ++ [op]) =
        op.apply clock (applyOps clock state ops) := by
      simp [applyOps]
    rw [stepped]
    simp only [counterStart, recentPuts, latest_first_snoc]
    cases op with
    | delete other =>
      simp only [WriteOp.apply, WorldState.get_delete, WriteOp.effect]
      by_cases same : other = key
      · simp [same]
      · simpa [same, counterStart, recentPuts] using ih
    | put other data =>
      simp only [WriteOp.apply, WorldState.get_put, WriteOp.effect]
      by_cases same : other = key
      · subst same
        simp only [↓reduceIte, Option.toList_some, List.singleton_append, List.mem_cons,
          reduceCtorEq, false_or, List.takeWhile_cons, Option.isSome_some,
          List.length_cons, Option.some.injEq, VersionedValue.mk.injEq, and_true]
        rw [WorldState.versionOf, ih]
        -- The counter before this put: untouched, just deleted, or already counting.
        cases touched : latestFirst other ops with
        | nil => simp [WorldState.versionOf]
        | cons change rest =>
          cases change with
          | none => simp
          | some previous =>
            simp [counterStart, recentPuts, touched, add_assoc]
      · simpa [same, counterStart, recentPuts] using ih

-- Soundness for all read sets is soundness key by key: one read suffices.
theorem reads_sound_pointwise :
    ReadsSound clock state ops ↔
      ∀ key, (applyOps clock state ops).versionOf key = state.versionOf key →
        (applyOps clock state ops).dataOf key = state.dataOf key := by
  constructor
  · intro sound key same
    have single := sound ⟨[⟨key, state.versionOf key⟩], []⟩ (by simp [Simulated])
      (by simp [validateRwset, validate_reads_iff, same])
    exact single ⟨key, state.versionOf key⟩ (by simp)
  · intro pointwise rwset simulated valid read member
    have current := (validate_reads_iff rwset.reads _).mp valid read member
    exact pointwise read.key (current.symm.trans (simulated read member))

/-- Equal versions identify the data read exactly when the counter condition
holds for the operations in between. -/
theorem reads_sound_iff (clock : Clock) (state : WorldState) (ops : List WriteOp) :
    ReadsSound clock state ops ↔ CounterIdentifies state ops := by
  rw [reads_sound_pointwise]
  apply forall_congr'
  intro key
  have final := get_apply_ops clock state ops key
  unfold WorldState.versionOf WorldState.dataOf
  rw [final]
  cases touched : latestFirst key ops with
  | nil => simp
  | cons change rest =>
    cases change with
    | none => simp [eq_comm]
    | some data => simp [eq_comm]

/-- Deleting and recreating a key brings back version 1 with other data. -/
theorem recreated_key_validates :
    ¬ ReadsSound (fun _ _ => 0) (WorldState.new.put (fun _ _ => 0) "k" [1])
      [.delete "k", .put "k" [2]] := by
  intro sound
  have same := sound ⟨[⟨"k", 1⟩], []⟩ (by unfold Simulated; decide) (by decide) ⟨"k", 1⟩
    (by decide)
  exact absurd same (by decide)

end CeruleanLedger.Mvcc
