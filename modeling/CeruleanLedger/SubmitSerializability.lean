import CeruleanLedger.SubmitAlone

/-!
Serializability of concurrent submits. A client commits at the step that validates its
read-write set. The serial run of the clients in commit order is compared with the interleaved
one through the writes that are validated and not made yet.
-/

namespace CeruleanLedger.SubmitSerializability

open VersionedState Mvcc Simulation GatewaySubmit GuardedRun SubmitAlone

/-- The later state has at most `bound` puts per key more than the earlier one,
and a key without a put is unchanged. -/
def Drift (bound : Nat) (before after : WorldState) : Prop :=
  ∀ key, ∃ puts ≤ bound, after.versionOf key = before.versionOf key + UInt64.ofNat puts ∧
    (puts = 0 → after.get key = before.get key)

theorem drift_refl (bound : Nat) (state : WorldState) : Drift bound state state := by
  intro key
  exact ⟨0, Nat.zero_le _, by simp, fun _ => rfl⟩

variable {bound count : Nat}

section Growing

variable {before after : WorldState} (drift : Drift bound before after)
include drift

theorem drift_mono : Drift (bound + 1) before after := by
  intro key
  obtain ⟨puts, within, rest⟩ := drift key
  exact ⟨puts, Nat.le_succ_of_le within, rest⟩

theorem drift_put (clock : Clock) (key : String) (data : ByteCodec.Bytes) :
    Drift (bound + 1) before (after.put clock key data) := by
  intro probe
  obtain ⟨puts, within, version, unchanged⟩ := drift probe
  by_cases same : key = probe
  · subst same
    refine ⟨puts + 1, Nat.succ_le_succ within, ?_, fun impossible => absurd impossible (by simp)⟩
    rw [WorldState.versionOf, WorldState.get_put, if_pos rfl]
    simp [version, add_assoc]
  · refine ⟨puts, Nat.le_succ_of_le within, ?_, ?_⟩
    · rw [← version, WorldState.versionOf, WorldState.get_put_of_ne clock after data same]
      rfl
    · rw [WorldState.get_put_of_ne clock after data same]
      exact unchanged

/-- Below 2^64 puts an equal version means an untouched key. -/
theorem drift_same_version {key : String} (short : bound < 2 ^ 64)
    (same : after.versionOf key = before.versionOf key) : after.get key = before.get key := by
  obtain ⟨puts, within, version, unchanged⟩ := drift key
  apply unchanged
  rw [same, left_eq_add] at version
  have asNat := congrArg UInt64.toNat version
  rw [UInt64.toNat_ofNat', Nat.mod_eq_of_lt (by omega)] at asNat
  exact asNat

end Growing

def DriftWorld (bound : Nat) : Option WorldState → Option WorldState → Prop
  | none, none => True
  | some before, some after => Drift bound before after
  | _, _ => False

theorem drift_world_map {bound : Nat} {before world : Option WorldState}
    {change : WorldState → WorldState}
    (keeps : ∀ earlier later, Drift bound earlier later → Drift (bound + 1) earlier (change later))
    (drift : DriftWorld bound before world) :
    DriftWorld (bound + 1) before (world.map change) := by
  cases before with
  | none => cases world with
    | none => trivial
    | some state => exact drift
  | some earlier => cases world with
    | none => exact drift
    | some state => exact keeps earlier state drift

section Serial

variable (node : Node) (requests : Fin count → Request)

def serialRun (orders : Fin count → HashOrder) (sequence : List (Fin count))
    (world : Option WorldState) : Option (Option WorldState) :=
  sequence.foldlM (fun world client => submitAlone node (orders client) (requests client) world)
    world

def validating : Stage → List ReadWriteSet
  | .indexing (some rwset) _ [] => [rwset]
  | _ => []

def touches (rwset : ReadWriteSet) (key : String) : Bool :=
  (rwset.reads.map KVRead.key).contains key || (rwset.writes.map KVWrite.key).contains key

/-- A client validates while no other client still has a put to make on a key
it has read or writes. -/
def Undisturbed (system : System count) (input : Fin count × Moment) : Prop :=
  ∀ rwset ∈ validating (system.stages input.1), ∀ other, other ≠ input.1 →
    ∀ write ∈ outstanding (system.stages other), touches rwset write.key = false
  deriving Decidable

/-- The writes still to be made by the committed clients, in commit order. -/
def remaining (done : List (Fin count)) (stages : Fin count → Stage) : List KVWrite :=
  done.flatMap fun client => outstanding (stages client)

/-- The clients in `done` committed in this order, and running them serially
gives the current state with the remaining writes made. -/
structure Replays (initial : Option WorldState) (bound : Nat) (stages : Fin count → Stage)
    (world : Option WorldState) (done : List (Fin count)) : Prop where
  nodup : done.Nodup
  members : ∀ client, client ∈ done ↔ committed (stages client) = true
  serial : ∀ orders, serialRun node requests orders done initial =
    some (world.map (applyWrites node.clock (remaining done stages)))
  carried : ∀ client rwset, carried (stages client) = some rwset →
    ∃ order before, endorse node.guest order (requests client) before = .ok rwset ∧
      DriftWorld bound before world
  apart : ∀ client other, client ≠ other → ∀ write ∈ outstanding (stages client),
    ∀ second ∈ outstanding (stages other), write.key ≠ second.key

end Serial

section Alone

variable {node : Node} {request : Request} {order order' : HashOrder}

theorem alone_unchecked {before world reached : Option WorldState}
    {rwset : Option ReadWriteSet}
    (endorsed : endorse node.guest order request before = .ok rwset)
    (drift : DriftWorld bound before world) (absent : rwset = none ∨ world = none)
    (alike : reached.isSome = world.isSome) :
    submitAlone node order' request reached = some reached := by
  have sameKind : world.isSome = before.isSome ∧ (world = none → before = none) := by
    cases before with
    | none => cases world with
      | none => exact ⟨rfl, fun _ => rfl⟩
      | some state => exact absurd drift id
    | some earlier => cases world with
      | none => exact absurd drift id
      | some state => exact ⟨rfl, fun impossible => by cases impossible⟩
  have again : endorse node.guest order' request reached = .ok rwset :=
    endorse_unsimulated endorsed (absent.imp_right sameKind.2) (alike.trans sameKind.1)
  refine submit_alone_unchecked again (absent.imp_right ?_)
  rintro rfl
  exact Option.not_isSome_iff_eq_none.mp (by simp [alike])

theorem alone_validated {before : Option WorldState} {state : WorldState}
    {rwset : ReadWriteSet} {writes : List KVWrite}
    (noHistory : ∀ chaincode ∈ node.guest, chaincode.NoHistory) (short : bound < 2 ^ 64)
    (endorsed : endorse node.guest order request before = .ok (some rwset))
    (drift : DriftWorld bound before (some state)) (valid : validateRwset rwset state = .ok ())
    (untouched : ∀ write ∈ writes, touches rwset write.key = false) :
    submitAlone node order' request (some (applyWrites node.clock writes state)) =
      some (some (applyWrites node.clock rwset.writes (applyWrites node.clock writes state))) := by
  cases before with
  | none => exact absurd drift id
  | some before =>
    have current := (validate_reads_iff rwset.reads state).mp valid
    have unread : ∀ read ∈ rwset.reads,
        (applyWrites node.clock writes state).get read.key = state.get read.key := by
      intro read member
      apply apply_writes_get_of_notMem
      intro written
      obtain ⟨write, present, sameKey⟩ := List.mem_map.mp written
      have free := untouched write present
      simp only [touches, Bool.or_eq_false_iff, sameKey] at free
      have isRead : read.key ∈ rwset.reads.map KVRead.key := List.mem_map_of_mem member
      simp [isRead] at free
    -- The reads see what they saw when they were simulated.
    have agree : ∀ read ∈ rwset.reads, read.version = before.versionOf read.key →
        (applyWrites node.clock writes state).get read.key = before.get read.key := by
      intro read member recorded
      rw [unread read member]
      exact drift_same_version drift short ((current read member).symm.trans recorded)
    obtain ⟨reordered, again, sameEffect⟩ :=
      @endorse_agrees node.guest order order' request before _ rwset noHistory endorsed agree
    have stillValid : validateRwset ⟨rwset.reads, reordered⟩
        (applyWrites node.clock writes state) = .ok () := by
      refine (validate_reads_iff _ _).mpr fun read member => ?_
      rw [current read member, WorldState.versionOf, WorldState.versionOf, unread read member]
    rw [submit_alone_validated again stillValid, sameEffect]

end Alone

section Steps

variable {node : Node} {requests : Fin count → Request}
variable {initial world : Option WorldState} {stages : Fin count → Stage}
variable {done : List (Fin count)} {client : Fin count} {next : Stage}

theorem view_of_update {View : Type} (view : Stage → View)
    (same : view next = view (stages client)) (other : Fin count) :
    view (Function.update stages client next other) = view (stages other) := by
  by_cases here : other = client
  · subst here
    rw [Function.update_self, same]
  · rw [Function.update_of_ne here]

theorem remaining_of_update (absent : client ∉ done) :
    remaining done (Function.update stages client next) = remaining done stages := by
  apply List.flatMap_congr
  intro other member
  have elsewhere : other ≠ client := fun same => absent (same ▸ member)
  rw [Function.update_of_ne elsewhere]

variable (replays : Replays node requests initial bound stages world done)
include replays

theorem replays_absent (uncommitted : committed (stages client) = false) : client ∉ done := by
  intro member
  rw [replays.members, uncommitted] at member
  cases member

theorem replays_carried {rwset : Option ReadWriteSet} (carries : carried (stages client) = some rwset) :
    ∃ order before, endorse node.guest order (requests client) before = .ok rwset ∧
      DriftWorld (bound + 1) before world := by
  obtain ⟨order, before, endorsed, drift⟩ := replays.carried client rwset carries
  have kept := drift_world_map (fun _ _ => drift_mono) drift
  rw [Option.map_id'] at kept
  exact ⟨order, before, endorsed, kept⟩

theorem replays_still
    (sameWrites : outstanding next = outstanding (stages client))
    (sameCommit : committed next = committed (stages client))
    (held : ∀ rwset, carried next = some rwset →
      ∃ order before, endorse node.guest order (requests client) before = .ok rwset ∧
        DriftWorld (bound + 1) before world) :
    Replays node requests initial (bound + 1) (Function.update stages client next) world
      done := by
  have writes : ∀ other, outstanding (Function.update stages client next other) =
      outstanding (stages other) := view_of_update outstanding sameWrites
  refine ⟨replays.nodup, ?_, ?_, ?_, ?_⟩
  · intro other
    rw [view_of_update committed sameCommit]
    exact replays.members other
  · intro orders
    simp only [remaining, writes]
    exact replays.serial orders
  · intro other rwset carries
    by_cases here : other = client
    · subst here
      rw [Function.update_self] at carries
      exact held rwset carries
    · rw [Function.update_of_ne here] at carries
      exact replays_carried replays carries
  · intro first second distinct
    rw [writes, writes]
    exact replays.apart first second distinct

/-- A client that commits is appended, and its serial turn starts from the
state the others lead to. -/
theorem replays_commit
    (uncommitted : committed (stages client) = false) (commits : committed next = true)
    (dropped : carried next = none)
    (turn : ∀ order, submitAlone node order (requests client)
      (world.map (applyWrites node.clock (remaining done stages))) =
        some (world.map (applyWrites node.clock (remaining done stages ++ outstanding next))))
    (untouched : ∀ other, other ≠ client → ∀ write ∈ outstanding (stages other),
      ∀ second ∈ outstanding next, write.key ≠ second.key) :
    Replays node requests initial (bound + 1) (Function.update stages client next) world
      (done ++ [client]) := by
  have absent : client ∉ done := replays_absent replays uncommitted
  refine ⟨?_, ?_, ?_, ?_, ?_⟩
  · exact List.nodup_append.mpr ⟨replays.nodup, List.nodup_singleton _, by
      intro member isDone other isLast same
      rw [List.mem_singleton.mp isLast] at same
      exact absent (same ▸ isDone)⟩
  · intro other
    rw [List.mem_append, List.mem_singleton]
    by_cases here : other = client
    · subst here
      simp [commits]
    · simp [here, replays.members]
  · -- The new client runs last in the serial order, from the settled state.
    intro orders
    have after : remaining (done ++ [client]) (Function.update stages client next) =
        remaining done stages ++ outstanding next := by
      have front := @remaining_of_update _ stages done client next absent
      simp only [remaining] at front
      simp [remaining, front]
    rw [after, serialRun, List.foldlM_append]
    have front := replays.serial orders
    rw [serialRun] at front
    simp [front, turn (orders client)]
  · intro other rwset carries
    by_cases here : other = client
    · subst here
      rw [Function.update_self, dropped] at carries
      cases carries
    · rw [Function.update_of_ne here] at carries
      exact replays_carried replays carries
  · intro first second distinct write member other written
    by_cases firstHere : first = client
    · subst firstHere
      rw [Function.update_self] at member
      rw [Function.update_of_ne distinct.symm] at written
      exact (untouched second distinct.symm other written write member).symm
    · rw [Function.update_of_ne firstHere] at member
      by_cases secondHere : second = client
      · subst secondHere
        rw [Function.update_self] at written
        exact untouched first firstHere write member other written
      · rw [Function.update_of_ne secondHere] at written
        exact replays.apart first second distinct write member other written

omit replays in
/-- The next put of a committed client may be made before the writes that the
serial order has in front of it. -/
theorem remaining_put (clock : Clock) {state : WorldState} {block : BlockStore.Block}
    {write : KVWrite} {rest : List KVWrite} (nodup : done.Nodup) (member : client ∈ done)
    (applying : stages client = .applying block (write :: rest))
    (apart : ∀ other, other ≠ client → ∀ second ∈ outstanding (stages other),
      second.key ≠ write.key) :
    applyWrites clock (remaining done (Function.update stages client (.applying block rest)))
        (state.put clock write.key write.value) =
      applyWrites clock (remaining done stages) state := by
  obtain ⟨front, back, split⟩ := List.append_of_mem member
  subst split
  have notFront : client ∉ front := fun inFront =>
    (List.nodup_append.mp nodup).2.2 client inFront client (by simp) rfl
  have notBack : client ∉ back := (List.nodup_cons.mp (List.nodup_append.mp nodup).2.1).1
  have spread : ∀ stages : Fin count → Stage, remaining (front ++ client :: back) stages =
      remaining front stages ++ (outstanding (stages client) ++ remaining back stages) := by
    intro stages
    simp [remaining]
  have frontApart : ∀ second ∈ remaining front stages, second.key ≠ write.key := by
    intro second inFront
    obtain ⟨other, isFront, isOutstanding⟩ := List.mem_flatMap.mp inFront
    exact apart other (fun same => notFront (same ▸ isFront)) second isOutstanding
  rw [spread, spread, remaining_of_update notFront, remaining_of_update notBack,
    Function.update_self, applying]
  simp only [apply_writes_append]
  rw [← put_apply_writes clock _ _ _ state frontApart]
  rfl

theorem replays_put {block : BlockStore.Block} {write : KVWrite} {rest : List KVWrite}
    (applying : stages client = .applying block (write :: rest)) :
    Replays node requests initial (bound + 1)
      (Function.update stages client (.applying block rest))
      (world.map fun state => state.put node.clock write.key write.value) done := by
  have isDone : client ∈ done := (replays.members client).mpr (by rw [applying]; rfl)
  have fewer : ∀ other, ∀ second ∈ outstanding
      (Function.update stages client (.applying block rest) other),
      second ∈ outstanding (stages other) := by
    intro other second member
    by_cases here : other = client
    · subst here
      rw [Function.update_self] at member
      rw [applying]
      exact List.mem_cons_of_mem _ member
    · rwa [Function.update_of_ne here] at member
  refine ⟨replays.nodup, ?_, ?_, ?_, ?_⟩
  · intro other
    rw [view_of_update committed (by rw [applying]; rfl)]
    exact replays.members other
  · intro orders
    rw [replays.serial orders]
    cases world with
    | none => rfl
    | some state =>
      have moved := @remaining_put _ stages done client node.clock state block write rest
        replays.nodup isDone applying fun other elsewhere second member =>
          replays.apart other client elsewhere second member write (by rw [applying]; simp [outstanding])
      simp only [Option.map_some, moved]
  · intro other rwset carries
    have held : carried (stages other) = some rwset := by
      rwa [view_of_update carried (by rw [applying]; rfl)] at carries
    obtain ⟨order, before, endorsed, drift⟩ := replays.carried other rwset held
    exact ⟨order, before, endorsed, drift_world_map (fun _ _ grown => drift_put grown _ _ _) drift⟩
  · intro first second distinct write' member other written
    exact replays.apart first second distinct write' (fewer first write' member) other
      (fewer second other written)

omit replays in
/-- Every step that meets the condition keeps the correspondence with the
serial run, extending its order by the client if the client commits. -/
theorem step_replays {system : System count} {input : Fin count × Moment}
    (noHistory : ∀ chaincode ∈ node.guest, chaincode.NoHistory) (short : bound < 2 ^ 64)
    (replays : ∃ done, Replays node requests initial bound system.stages system.shared.world done)
    (meets : Undisturbed system input) :
    ∃ done, Replays node requests initial (bound + 1)
      (stepClient node requests system input).stages
      (stepClient node requests system input).shared.world done := by
  obtain ⟨done, replays⟩ := replays
  have effect := advance_effect node (requests input.1) input.2 system.shared
    (system.stages input.1)
  simp only [stepClient]
  generalize advance node (requests input.1) input.2 system.shared (system.stages input.1) =
    moved at effect
  obtain ⟨next, shared⟩ := moved
  dsimp only at effect ⊢
  generalize shared.world = after at effect ⊢
  cases effect with
  | quiet _ sameWrites sameCommit sameCarried =>
    refine ⟨done, replays_still replays sameWrites sameCommit ?_⟩
    exact fun rwset carries => replays_carried replays (sameCarried rwset carries)
  | simulated rwset fresh endorsed =>
    -- The state the client simulated on is remembered with no drift yet.
    refine ⟨done, replays_still replays (by rw [fresh]; rfl) (by rw [fresh]; rfl) ?_⟩
    rintro _ ⟨⟩
    refine ⟨input.2.hashOrder, system.shared.world, endorsed, ?_⟩
    cases system.shared.world with
    | none => trivial
    | some state => exact drift_refl _ state
  | unchecked rwset block indexed absent =>
    obtain ⟨order, before, endorsed, drift⟩ :=
      replays.carried input.1 rwset (by rw [indexed]; rfl)
    refine ⟨done ++ [input.1], replays_commit replays (by rw [indexed]; rfl) rfl rfl ?_ ?_⟩
    · intro order'
      simp only [returned, outstanding, List.append_nil]
      exact alone_unchecked endorsed drift absent (by simp)
    · intro other elsewhere write member second impossible
      cases impossible
  | validated rwset block state indexed present valid =>
    obtain ⟨order, before, endorsed, drift⟩ :=
      replays.carried input.1 (some rwset) (by rw [indexed]; rfl)
    have free := meets rwset (by rw [indexed]; exact List.mem_singleton_self _)
    have uncommitted : committed (system.stages input.1) = false := by
      rw [indexed]
      rfl
    -- All writes still to be made belong to other clients, so the guard covers them.
    have untouched : ∀ write ∈ remaining done system.stages,
        touches rwset write.key = false := by
      intro write member
      obtain ⟨other, isDone, isOutstanding⟩ := List.mem_flatMap.mp member
      exact free other (fun same => replays_absent replays uncommitted (same ▸ isDone)) write
        isOutstanding
    rw [present] at drift replays ⊢
    refine ⟨done ++ [input.1], replays_commit replays uncommitted rfl rfl ?_ ?_⟩
    · intro order'
      rw [Option.map_some, Option.map_some, apply_writes_append]
      exact alone_validated noHistory short endorsed drift valid untouched
    · intro other elsewhere write member second written same
      have clear := free other elsewhere write member
      have isWritten : write.key ∈ rwset.writes.map KVWrite.key :=
        same ▸ List.mem_map_of_mem written
      simp [touches, isWritten] at clear
  | put block write rest applying => exact ⟨done, replays_put replays applying⟩

end Steps

variable (node : Node) (requests : Fin count → Request)

def isFinished : Stage → Bool
  | .finished _ => true
  | _ => false

def validClients (system : System count) : List (Fin count) :=
  (List.finRange count).filter fun client => committed (system.stages client)

/-- The world state is that of a serial run of the clients that returned
`valid = true`, in some order and whatever order the hash maps yield there. -/
def Serializable (initial : Option WorldState) (final : System count) : Prop :=
  ∃ sequence, sequence.Perm (validClients final) ∧
    ∀ orders, serialRun node requests orders sequence initial = some final.shared.world

theorem start_replays (shared : Shared) :
    Replays node requests shared.world 0 (startOf count shared).stages shared.world [] := by
  refine ⟨List.nodup_nil, ?_, ?_, ?_, ?_⟩
  · intro client
    simp [startOf, committed]
  · intro orders
    cases world : shared.world with
    | none => rfl
    | some state => rfl
  · rintro client rwset ⟨⟩
  · intro first second distinct write impossible
    cases impossible

theorem serializable_of_replays {initial : Option WorldState} {bound : Nat}
    {final : System count} {done : List (Fin count)}
    (replays : Replays node requests initial bound final.stages final.shared.world done)
    (finished : ∀ client, isFinished (final.stages client) = true) :
    Serializable node requests initial final := by
  refine ⟨done, ?_, ?_⟩
  · refine (List.perm_ext_iff_of_nodup replays.nodup ((List.nodup_finRange count).filter _)).mpr
      fun client => ?_
    simp [replays.members]
  · intro orders
    have nothing : remaining done final.stages = [] := by
      refine List.flatMap_eq_nil_iff.mpr fun client _ => ?_
      have ended := finished client
      cases stage : final.stages client with
      | finished result => rfl
      | _ => rw [stage] at ended; cases ended
    rw [replays.serial orders, nothing]
    cases final.shared.world with
    | none => rfl
    | some state => rfl

/-- In every run whose steps meet `Undisturbed`, the final world state is that
of a serial run. -/
theorem submit_serializable (shared : Shared) (inputs : List (Fin count × Moment))
    (noHistory : ∀ chaincode ∈ node.guest, chaincode.NoHistory)
    (short : inputs.length < 2 ^ 64)
    (meets : AllMeet (stepClient node requests) Undisturbed (startOf count shared) inputs)
    (finished : ∀ client, isFinished
      ((runClients node requests (startOf count shared) inputs).stages client) = true) :
    Serializable node requests shared.world
      (runClients node requests (startOf count shared) inputs) := by
  have invariant := run_invariant
    (fun steps system => steps < 2 ^ 64 → ∃ done, Replays node requests shared.world steps
      system.stages system.shared.world done)
    0 (startOf count shared) inputs (fun _ => ⟨[], start_replays node requests shared⟩)
    (fun steps system input replays guarded more =>
      step_replays noHistory (by omega) (replays (by omega)) guarded) meets
  rw [Nat.zero_add] at invariant
  obtain ⟨done, replays⟩ := invariant short
  exact serializable_of_replays node requests replays finished

def counter : Guest :=
  .getState "counter" fun value =>
    .putState "counter" [(value.bind List.head?).getD 0 + 1] (.done [])

def counterNode : Node := ⟨OrderingLayer.paddingCrypto, fun _ _ => 0, some counter⟩

def counterShared : Shared :=
  { world := some WorldState.new
    ordering := ⟨[], 1, none, none⟩
    store := .memory BlockStore.MemoryStore.new }

def threeRequests : Fin 3 → Request := ![plainRequest "a", plainRequest "b", plainRequest "c"]

theorem counter_alone :
    ∃ order, submitAlone counterNode order (threeRequests 0) (some .new) =
      some (runClients counterNode threeRequests (startOf 3 counterShared)
        (turns (List.replicate 9 0))).shared.world :=
  @alone_steps 3 counterNode threeRequests 0 (startOf 3 counterShared)
    (turns (List.replicate 9 0)) rfl (by decide) (by decide) (by decide)

/-- The second client simulates before the first one puts and is refused; the
third runs after both. -/
def refusedTurns (first second third : Fin count) : List (Fin count × Moment) :=
  turns ([first, second] ++ List.replicate 8 first ++ List.replicate 6 second ++
    List.replicate 9 third)

theorem refused_run_serializable :
    Serializable counterNode threeRequests (some WorldState.new)
      (runClients counterNode threeRequests (startOf 3 counterShared)
        (refusedTurns 0 1 2)) :=
  submit_serializable counterNode threeRequests counterShared (refusedTurns 0 1 2)
    (by rintro chaincode ⟨⟩; exact fun _ => trivial) (by decide) (by decide) (by decide)

/-- Both clients validate before either puts. -/
def lostUpdateTurns (first second : Fin count) : List (Fin count × Moment) :=
  turns ([first, second] ++ List.replicate 5 first ++ List.replicate 5 second ++
    [first, second, first, second, first, second])

def twoRequests : Fin 2 → Request := ![plainRequest "a", plainRequest "b"]

/-- Both clients return `valid = true`, and one of the two increments is lost. -/
theorem lost_update :
    (∀ client, isFinished ((runClients counterNode twoRequests (startOf 2 counterShared)
      (lostUpdateTurns 0 1)).stages client) = true) ∧
    ¬ Serializable counterNode twoRequests (some WorldState.new)
      (runClients counterNode twoRequests (startOf 2 counterShared)
        (lostUpdateTurns 0 1)) := by
  refine ⟨by decide, ?_⟩
  rintro ⟨sequence, perm, serial⟩
  have both : validClients (runClients counterNode twoRequests (startOf 2 counterShared)
      (lostUpdateTurns 0 1)) = [0, 1] := by decide
  rw [both, ← List.mem_permutations'] at perm
  have data := congrArg (Option.map (Option.map fun state => state.dataOf "counter"))
    (serial fun _ => .asStored)
  clear serial
  revert sequence
  decide

end CeruleanLedger.SubmitSerializability
