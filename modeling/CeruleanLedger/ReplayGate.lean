import CeruleanLedger.ExpiringRecords
import CeruleanLedger.GuardedRun
import CeruleanLedger.TransactionValidation

/-!
Runs of the validation gate under a clock that does not go back: calls of `validate`,
`confirm_transaction` and `cleanup_old_records`, and restarts as `new(config).with_store(same
store)`. A restart forgets all content hashes, and the ids as well unless the store kept them.
-/

namespace CeruleanLedger.ReplayGate

open ExpiringRecords GuardedRun OrderedMap TransactionValidation TransactionValidator
open NativeLedger (saturating_sub_toNat)

inductive Event where
  | validate (tx : Validatable) (checkedAt recordedAt : UInt64) (fault : Option String)
  | confirm (tx : Validatable)
  | cleanup (now storeNow maxAgeSeconds : UInt64) (fault : Option String) (fails : String → Bool)
  | restart (fault : Option String)

structure Accepted where
  epoch : Nat
  tx : Validatable
  deriving DecidableEq

/-- The clock is at the latest reading; no step reads `epoch` and `accepted`. -/
structure Gate where
  validator : TransactionValidator
  clock : UInt64
  epoch : Nat
  accepted : List Accepted

def restarted (validator : TransactionValidator) (fault : Option String) : TransactionValidator :=
  match validator.store with
  | none => .new validator.config
  | some store => (TransactionValidator.new validator.config).withStore store fault

def step (digest : String → String) (gate : Gate) : Event → Gate
  | .validate tx checkedAt recordedAt fault =>
    let validated := validate tx digest gate.validator checkedAt recordedAt fault
    { gate with
      validator := validated.1
      clock := recordedAt
      accepted :=
        if validated.2.isValid then gate.accepted ++ [⟨gate.epoch, tx⟩] else gate.accepted }
  | .confirm tx => { gate with validator := confirmTransaction tx gate.validator }
  | .cleanup now storeNow maxAgeSeconds fault fails =>
    { gate with
      validator := cleanupOldRecords gate.validator now storeNow maxAgeSeconds fault fails
      clock := storeNow }
  | .restart fault =>
    { gate with validator := restarted gate.validator fault, epoch := gate.epoch + 1 }

def opened (config : ValidationConfig) (store : SeenStore) (fault : Option String) : Gate :=
  ⟨(TransactionValidator.new config).withStore store fault, 0, 0, []⟩

/-- The readings of an event do not go back, and a clean-up keeps what is not
older than both ends of the timestamp window together. -/
def Paced (config : ValidationConfig) (gate : Gate) : Event → Prop
  | .validate _ checkedAt recordedAt _ => gate.clock ≤ checkedAt ∧ checkedAt ≤ recordedAt
  | .cleanup now storeNow maxAgeSeconds _ _ => gate.clock ≤ now ∧ now ≤ storeNow ∧
      config.maxPastAgeSecs.toNat + config.maxFutureDriftSecs.toNat + 1 ≤ maxAgeSeconds.toNat
  | _ => True

instance (config : ValidationConfig) (gate : Gate) :
    ∀ event, Decidable (Paced config gate event)
  | .validate .. => inferInstanceAs (Decidable (_ ∧ _))
  | .cleanup .. => inferInstanceAs (Decidable (_ ∧ _ ∧ _))
  | .confirm _ => .isTrue trivial
  | .restart _ => .isTrue trivial

def SameId (earlier later : Validatable) : Prop :=
  earlier.id = later.id ∧ earlier.timestamp = later.timestamp

def SameContent (earlier later : Validatable) : Prop :=
  earlier.timestamp = later.timestamp ∧ earlier.sender = later.sender ∧
    earlier.recipient = later.recipient ∧ earlier.amount = later.amount ∧
    earlier.fee = later.fee ∧ earlier.data = later.data
  deriving Decidable

def Replays (earlier later : Validatable) : Prop :=
  SameId earlier later ∨ SameContent earlier later

def NoReplay (accepted : List Accepted) : Prop :=
  accepted.Pairwise fun earlier later => ¬ Replays earlier.tx later.tx

/-- No replay of a transaction that was accepted before a restart in between. -/
def NoReplayAcrossRestarts (accepted : List Accepted) : Prop :=
  accepted.Pairwise fun earlier later =>
    earlier.epoch ≠ later.epoch → ¬ Replays earlier.tx later.tx

/-- The store takes every mark and answers every load. -/
def Reliable : Event → Prop
  | .validate _ _ _ fault => fault = none
  | .restart fault => fault = none
  | _ => True

section Times

def timesIn (records : Std.ExtTreeMap String UInt64) (key : String) : Option Nat :=
  records[key]?.map UInt64.toNat

variable {span : Nat}

theorem times_of_found {records : Std.ExtTreeMap String UInt64} {key : String} {time : Nat}
    (found : timesIn records key = some time) :
    ∃ timestamp : UInt64, records[key]? = some timestamp ∧ timestamp.toNat = time :=
  Option.map_eq_some_iff.mp found

theorem ages_retain (records : Std.ExtTreeMap String UInt64) {now maxAge : UInt64}
    (long : span + 1 ≤ maxAge.toNat) :
    Ages span (timesIn records)
      (timesIn (records.filter fun _ timestamp => now - timestamp < maxAge)) now.toNat := by
  apply ages_of_drop
  intro key time found past
  obtain ⟨timestamp, stored, rfl⟩ := times_of_found found
  have age : (now - timestamp).toNat = now.toNat - timestamp.toNat :=
    UInt64.toNat_sub_of_le now timestamp (UInt64.le_iff_toNat_le.mpr past)
  by_cases young : now - timestamp < maxAge
  · left
    simp [timesIn, stored, young]
  · right
    rw [UInt64.not_lt, UInt64.le_iff_toNat_le, age] at young
    omega

theorem ages_drop_old (rows : Std.ExtTreeMap String UInt64) {now maxAge : UInt64}
    (fails : String → Bool) (long : span + 1 ≤ maxAge.toNat) :
    Ages span (timesIn rows)
      (timesIn (SeenStore.dropOld now maxAge fails rows.toList rows)) now.toNat := by
  apply ages_of_drop
  intro key time found past
  obtain ⟨timestamp, stored, rfl⟩ := times_of_found found
  have only : ∀ other, (key, other) ∈ rows.toList → other = timestamp := by
    intro other member
    rw [Std.ExtTreeMap.mem_toList_iff_getElem?_eq_some, stored, Option.some.injEq] at member
    exact member.symm
  rcases drop_old_get now maxAge fails only stored with kept | old
  · left
    rw [timesIn, kept]
    rfl
  · right
    rw [gt_iff_lt, UInt64.lt_iff_toNat_lt, saturating_sub_toNat] at old
    omega

theorem times_loaded (rows : Std.ExtTreeMap String UInt64) :
    timesIn ((∅ : Std.ExtTreeMap String UInt64).insertMany rows.toList) = timesIn rows := by
  funext key
  rw [timesIn, timesIn]
  congr 1
  cases stored : rows[key]? with
  | some timestamp =>
    exact Std.ExtTreeMap.getElem?_insertMany_list_of_mem Std.ReflCmp.compare_self
      Std.ExtTreeMap.distinct_keys_toList
      (Std.ExtTreeMap.mem_toList_iff_getElem?_eq_some.mpr stored)
  | none =>
    rw [Std.ExtTreeMap.getElem?_insertMany_list_of_contains_eq_false]
    · simp
    · rw [Std.ExtTreeMap.map_fst_toList_eq_keys]
      simpa using stored

end Times

variable {digest : String → String} {config : ValidationConfig} {gate : Gate}

section Steps

def deadline (config : ValidationConfig) (tx : Validatable) : Nat :=
  tx.timestamp.toNat + config.maxPastAgeSecs.toNat

def span (config : ValidationConfig) : Nat :=
  config.maxPastAgeSecs.toNat + config.maxFutureDriftSecs.toNat

theorem step_validate (digest : String → String) (gate : Gate) (tx : Validatable)
    (checkedAt recordedAt : UInt64) (fault : Option String) :
    step digest gate (.validate tx checkedAt recordedAt fault) =
        { gate with clock := recordedAt } ∨
      (firstError (checks tx digest gate.validator checkedAt) = .ok () ∧
        step digest gate (.validate tx checkedAt recordedAt fault) =
          { gate with
            validator := record tx digest gate.validator recordedAt fault
            clock := recordedAt
            accepted := gate.accepted ++ [⟨gate.epoch, tx⟩] }) := by
  cases passed : firstError (checks tx digest gate.validator checkedAt) with
  | error reason =>
    left
    simp only [step, validate, passed]
    rfl
  | ok _ =>
    refine Or.inr ⟨rfl, ?_⟩
    simp only [step, validate, passed]
    rfl

/-- The key of every listed transaction is held until its deadline. -/
def Remembers (config : ValidationConfig) (records : Std.ExtTreeMap String UInt64)
    (keyOf : Validatable → String) (clock : UInt64) (listed : Accepted → Prop) : Prop :=
  ∀ accepted, listed accepted → Held (span config) (timesIn records) (keyOf accepted.tx)
    (deadline config accepted.tx) clock.toNat

variable {before after : Std.ExtTreeMap String UInt64} {keyOf : Validatable → String}
  {clock now : UInt64} {listed : Accepted → Prop}

theorem Remembers.mono {fewer : Accepted → Prop}
    (remembers : Remembers config before keyOf clock listed)
    (among : ∀ accepted, fewer accepted → listed accepted) :
    Remembers config before keyOf clock fewer :=
  fun accepted member => remembers accepted (among accepted member)

theorem Remembers.age (remembers : Remembers config before keyOf clock listed)
    (passed : clock ≤ now) (ages : Ages (span config) (timesIn before) (timesIn after) now.toNat) :
    Remembers config after keyOf now listed := by
  intro accepted member
  exact (remembers accepted member).age (UInt64.le_iff_toNat_le.mp passed) ages

/-- A transaction that is accepted while the key of an earlier one would be its
own is outside the window of that one. -/
theorem Remembers.fresh (remembers : Remembers config before keyOf clock listed)
    {tx : Validatable} {checkedAt : UInt64} (passed : clock ≤ checkedAt)
    (absent : before[keyOf tx]? = none)
    (timely : validateTimestamp config tx checkedAt = .ok ()) {earlier : Accepted}
    (member : listed earlier) (sameKey : keyOf earlier.tx = keyOf tx) :
    earlier.tx.timestamp ≠ tx.timestamp := by
  intro sameTime
  have gone := (remembers earlier member).gone (by rw [sameKey, timesIn, absent]; rfl)
  have window := (validate_timestamp_ok timely).2
  rw [UInt64.le_iff_toNat_le] at passed
  rw [deadline, sameTime] at gone
  omega

theorem Remembers.note (remembers : Remembers config before keyOf clock listed)
    {tx : Validatable} {checkedAt recordedAt : UInt64} (started : clock ≤ checkedAt)
    (ended : checkedAt ≤ recordedAt) (timely : validateTimestamp config tx checkedAt = .ok ())
    (epoch : Nat) :
    Remembers config (before.insert (keyOf tx) recordedAt) keyOf recordedAt
      fun accepted => listed accepted ∨ accepted = ⟨epoch, tx⟩ := by
  have aged : Remembers config (before.insert (keyOf tx) recordedAt) keyOf recordedAt listed := by
    refine remembers.age (UInt64.le_trans started ended) (ages_of_set (keyOf tx) fun other => ?_)
    simp only [timesIn, get_insert]
    split
    · rfl
    · rfl
  rintro accepted (member | rfl)
  · exact aged accepted member
  · apply held_from
    · simp [timesIn]
    · have window := (validate_timestamp_ok timely).1
      rw [UInt64.le_iff_toNat_le] at ended
      simp only [deadline, span]
      omega

end Steps

section Runs

def Current (gate : Gate) (accepted : Accepted) : Prop :=
  accepted ∈ gate.accepted ∧ accepted.epoch = gate.epoch

structure Sound (digest : String → String) (config : ValidationConfig) (gate : Gate) : Prop where
  configured : gate.validator.config = config
  ids : Remembers config gate.validator.seenTransactionIds Validatable.id gate.clock (Current gate)
  hashes : Remembers config gate.validator.seenContentHashes (contentHash · digest) gate.clock
    (Current gate)
  epochs : ∀ accepted ∈ gate.accepted, accepted.epoch ≤ gate.epoch
  distinct : gate.accepted.Pairwise fun earlier later =>
    earlier.epoch = later.epoch → ¬ Replays earlier.tx later.tx

theorem same_content_hash {earlier later : Validatable} (same : SameContent earlier later) :
    contentHash earlier digest = contentHash later digest := by
  obtain ⟨-, sender, recipient, amount, fee, data⟩ := same
  rw [contentHash, contentHash, content, content, sender, recipient, amount, fee, data]

theorem with_store_config (validator : TransactionValidator) (store : SeenStore)
    (fault : Option String) : (validator.withStore store fault).config = validator.config := by
  unfold TransactionValidator.withStore
  split
  · rfl
  · rfl

theorem restarted_config (validator : TransactionValidator) (fault : Option String) :
    (restarted validator fault).config = validator.config := by
  unfold restarted
  split
  · rfl
  · exact with_store_config ..

theorem Sound.accept (sound : Sound digest config gate) {tx : Validatable}
    {checkedAt recordedAt : UInt64} (fault : Option String) (started : gate.clock ≤ checkedAt)
    (ended : checkedAt ≤ recordedAt)
    (passed : firstError (checks tx digest gate.validator checkedAt) = .ok ()) :
    Sound digest config
      { gate with
        validator := record tx digest gate.validator recordedAt fault
        clock := recordedAt
        accepted := gate.accepted ++ [⟨gate.epoch, tx⟩] } := by
  obtain ⟨newId, newContent, timely⟩ := checks_ok passed
  rw [sound.configured] at timely
  have among : ∀ accepted, Current { gate with
      validator := record tx digest gate.validator recordedAt fault
      clock := recordedAt
      accepted := gate.accepted ++ [⟨gate.epoch, tx⟩] } accepted →
      Current gate accepted ∨ accepted = ⟨gate.epoch, tx⟩ := by
    rintro accepted ⟨member, current⟩
    rcases List.mem_append.mp member with before | new
    · exact Or.inl ⟨before, current⟩
    · exact Or.inr (List.mem_singleton.mp new)
  refine ⟨sound.configured, ?_, ?_, ?_, ?_⟩
  · exact (sound.ids.note started ended timely gate.epoch).mono among
  · exact (sound.hashes.note started ended timely gate.epoch).mono among
  · intro accepted member
    rcases List.mem_append.mp member with before | new
    · exact sound.epochs accepted before
    · rw [List.mem_singleton.mp new]
  · refine List.pairwise_append.mpr ⟨sound.distinct, List.pairwise_singleton _ _, ?_⟩
    intro earlier member later new sameEpoch replays
    rw [List.mem_singleton.mp new] at sameEpoch replays
    rcases replays with ⟨sameId, sameTime⟩ | content
    · exact sound.ids.fresh started newId timely ⟨member, sameEpoch⟩ sameId sameTime
    · exact sound.hashes.fresh started newContent timely ⟨member, sameEpoch⟩
        (same_content_hash content) content.1

/-- Between two restarts nothing is accepted twice. -/
theorem Sound.step (sound : Sound digest config gate) (event : Event)
    (paced : Paced config gate event) : Sound digest config (step digest gate event) := by
  cases event with
  | validate tx checkedAt recordedAt fault =>
    obtain ⟨started, ended⟩ := paced
    rcases step_validate digest gate tx checkedAt recordedAt fault with
      refused | ⟨passed, accepted⟩
    · rw [refused]
      have later := UInt64.le_trans started ended
      exact ⟨sound.configured, sound.ids.age later ages_refl, sound.hashes.age later ages_refl,
        sound.epochs, sound.distinct⟩
    · rw [accepted]
      exact sound.accept fault started ended passed
  | confirm tx => exact ⟨sound.configured, sound.ids, sound.hashes, sound.epochs, sound.distinct⟩
  | cleanup now storeNow maxAgeSeconds fault fails =>
    obtain ⟨started, ended, long⟩ := paced
    exact ⟨sound.configured,
      (sound.ids.age started (ages_retain _ long)).age ended ages_refl,
      (sound.hashes.age started (ages_retain _ long)).age ended ages_refl,
      sound.epochs, sound.distinct⟩
  | restart fault =>
    -- Whatever was accepted belongs to an earlier epoch now.
    have none : ∀ accepted, ¬ Current (ReplayGate.step digest gate (.restart fault)) accepted := by
      rintro accepted ⟨member, current⟩
      have earlier := sound.epochs accepted member
      simp only [ReplayGate.step] at current
      omega
    refine ⟨(restarted_config ..).trans sound.configured, ?_, ?_, ?_, sound.distinct⟩
    · exact fun accepted current => absurd current (none accepted)
    · exact fun accepted current => absurd current (none accepted)
    · exact fun accepted member => (sound.epochs accepted member).trans (Nat.le_succ _)

theorem opened_sound (digest : String → String) (config : ValidationConfig) (store : SeenStore)
    (fault : Option String) : Sound digest config (opened config store fault) := by
  refine ⟨with_store_config .., ?_, ?_, List.forall_mem_nil _, List.Pairwise.nil⟩
  · rintro accepted ⟨member, -⟩
    cases member
  · rintro accepted ⟨member, -⟩
    cases member

end Runs

section Persistence

variable {rows : Std.ExtTreeMap String UInt64}

/-- With the ids in the database as well, restarts make no difference to them. -/
structure Persisted (config : ValidationConfig) (gate : Gate) : Prop where
  configured : gate.validator.config = config
  ids : Remembers config gate.validator.seenTransactionIds Validatable.id gate.clock
    (· ∈ gate.accepted)
  rows : ∃ rows, gate.validator.store = some (.rocksDb rows) ∧
    Remembers config rows Validatable.id gate.clock (· ∈ gate.accepted)
  distinct : gate.accepted.Pairwise fun earlier later => ¬ SameId earlier.tx later.tx

theorem Persisted.step (persisted : Persisted config gate) (event : Event)
    (paced : Paced config gate event) (reliable : Reliable event) :
    Persisted config (step digest gate event) := by
  obtain ⟨rows, stored, remembered⟩ := persisted.rows
  cases event with
  | validate tx checkedAt recordedAt fault =>
    obtain ⟨started, ended⟩ := paced
    have later := UInt64.le_trans started ended
    rcases step_validate digest gate tx checkedAt recordedAt fault with
      refused | ⟨passed, accepted⟩
    · rw [refused]
      exact ⟨persisted.configured, persisted.ids.age later ages_refl,
        ⟨rows, stored, remembered.age later ages_refl⟩, persisted.distinct⟩
    · rw [accepted]
      obtain ⟨newId, -, timely⟩ := checks_ok passed
      rw [persisted.configured] at timely
      have among : ∀ other, other ∈ gate.accepted ++ [⟨gate.epoch, tx⟩] →
          other ∈ gate.accepted ∨ other = ⟨gate.epoch, tx⟩ := by
        intro other member
        simpa using member
      refine ⟨persisted.configured, ?_, ⟨rows.insert tx.id recordedAt, ?_, ?_⟩, ?_⟩
      · exact (persisted.ids.note started ended timely gate.epoch).mono among
      · rw [Reliable] at reliable
        subst reliable
        simp only [record, stored, Option.map_some, SeenStore.markTxSeen]
      · exact (remembered.note started ended timely gate.epoch).mono among
      · refine List.pairwise_append.mpr ⟨persisted.distinct, List.pairwise_singleton _ _, ?_⟩
        rintro earlier member later new ⟨sameId, sameTime⟩
        rw [List.mem_singleton.mp new] at sameId sameTime
        exact persisted.ids.fresh started newId timely member sameId sameTime
  | confirm tx =>
    exact ⟨persisted.configured, persisted.ids, ⟨rows, stored, remembered⟩, persisted.distinct⟩
  | cleanup now storeNow maxAgeSeconds fault fails =>
    obtain ⟨started, ended, long⟩ := paced
    obtain ⟨kept, left, ages⟩ : ∃ kept, (cleanupOldRecords gate.validator now storeNow
        maxAgeSeconds fault fails).store = some (.rocksDb kept) ∧
        Ages (span config) (timesIn rows) (timesIn kept) storeNow.toNat := by
      simp only [cleanupOldRecords, stored, Option.map_some, SeenStore.cleanupSeenTxs,
        SeenStore.loadSeenTxs]
      cases fault with
      | some reason => exact ⟨rows, rfl, ages_refl⟩
      | none => exact ⟨_, rfl, ages_drop_old rows fails long⟩
    exact ⟨persisted.configured,
      (persisted.ids.age started (ages_retain _ long)).age ended ages_refl,
      ⟨kept, left, remembered.age (UInt64.le_trans started ended) ages⟩, persisted.distinct⟩
  | restart fault =>
    rw [Reliable] at reliable
    subst reliable
    obtain ⟨kept, loaded⟩ : (restarted gate.validator none).store = some (.rocksDb rows) ∧
        timesIn (restarted gate.validator none).seenTransactionIds = timesIn rows := by
      rw [restarted, stored]
      exact ⟨rfl, times_loaded rows⟩
    refine ⟨(restarted_config ..).trans persisted.configured, ?_, ⟨rows, kept, remembered⟩,
      persisted.distinct⟩
    intro accepted member
    have held := remembered accepted member
    rwa [← loaded] at held

theorem opened_persisted (config : ValidationConfig) (rows : Std.ExtTreeMap String UInt64)
    (fault : Option String) : Persisted config (opened config (.rocksDb rows) fault) := by
  have stored : (opened config (.rocksDb rows) fault).validator.store =
      some (.rocksDb rows) := by
    cases fault with
    | none => rfl
    | some reason => rfl
  exact ⟨with_store_config .., List.forall_mem_nil _, ⟨rows, stored, List.forall_mem_nil _⟩,
    List.Pairwise.nil⟩

end Persistence

/-- Over every run of the gate from a fresh start on a store: a replay is only
ever one of a transaction accepted before a restart; and on RocksDB, if all marks
and loads succeed, no id is accepted twice with one timestamp. -/
theorem replay_only_across_restarts (digest : String → String) (config : ValidationConfig)
    (store : SeenStore) (fault : Option String) (events : List Event)
    (paced : AllMeet (step digest) (Paced config) (opened config store fault) events) :
    (NoReplay (events.foldl (step digest) (opened config store fault)).accepted ↔
      NoReplayAcrossRestarts (events.foldl (step digest) (opened config store fault)).accepted) ∧
    ((∃ rows, store = .rocksDb rows) → (∀ event ∈ events, Reliable event) →
      (events.foldl (step digest) (opened config store fault)).accepted.Pairwise
        fun earlier later => ¬ SameId earlier.tx later.tx) := by
  constructor
  · have sound := run_invariant_plain (Sound digest config) _ events
      (opened_sound digest config store fault) (fun _ event holds => holds.step event) paced
    constructor
    · intro free
      apply free.imp
      intro earlier later fresh _
      exact fresh
    · intro across
      apply (across.and sound.distinct).imp
      rintro earlier later ⟨apart, within⟩
      by_cases same : earlier.epoch = later.epoch
      · exact within same
      · exact apart same
  · rintro ⟨rows, rfl⟩ reliable
    have persisted := run_invariant_plain (Persisted config) _ events
      (opened_persisted config rows fault)
      (fun _ event holds both => holds.step event both.1 both.2)
      (all_meet_and_each paced reliable)
    exact persisted.distinct

def payment (id : String) (timestamp : UInt64) : Validatable :=
  ⟨id, "alice", "bobby", 5, 0, timestamp, none⟩

def gateAfter (store : SeenStore) (events : List Event) : Gate :=
  events.foldl (step id) (opened .default store none)

def pacedRun : List Event :=
  [.validate (payment "tx1" 100) 100 100 none, .cleanup 731 731 631 none fun _ => false,
    .validate (payment "tx2" 731) 731 731 none]

theorem paced_run_accepts :
    (gateAfter (.rocksDb ∅) pacedRun).accepted = [⟨0, payment "tx1" 100⟩, ⟨0, payment "tx2" 731⟩] ∧
      NoReplay (gateAfter (.rocksDb ∅) pacedRun).accepted := by
  have ran : (gateAfter (.rocksDb ∅) pacedRun).accepted =
      [⟨0, payment "tx1" 100⟩, ⟨0, payment "tx2" 731⟩] := by decide +kernel
  refine ⟨ran, (replay_only_across_restarts id .default (.rocksDb ∅) none pacedRun
    (by decide +kernel)).1.mpr ?_⟩
  rw [gateAfter] at ran
  rw [ran]
  simp [NoReplayAcrossRestarts]

/-- After a restart the content is accepted again under another id, and with a
store that keeps nothing the transaction itself. -/
theorem restart_admits_replay :
    (gateAfter (.rocksDb ∅) [.validate (payment "tx1" 100) 100 100 none, .restart none,
        .validate (payment "tx2" 100) 100 100 none]).accepted =
      [⟨0, payment "tx1" 100⟩, ⟨1, payment "tx2" 100⟩] ∧
    SameContent (payment "tx1" 100) (payment "tx2" 100) ∧
    (gateAfter .memory [.validate (payment "tx1" 100) 100 100 none, .restart none,
        .validate (payment "tx1" 100) 100 100 none]).accepted =
      [⟨0, payment "tx1" 100⟩, ⟨1, payment "tx1" 100⟩] := by
  decide +kernel

end CeruleanLedger.ReplayGate
