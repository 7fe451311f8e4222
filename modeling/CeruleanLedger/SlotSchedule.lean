import CeruleanLedger.BlockAdmission

/-!
Which slots a timestamp belongs to. The bounds of a slot are computed in 64 bits
and wrap, while a block names its slot freely: almost every schedule has two
slots for one timestamp, and then two proposers. Slots whose bounds do not wrap
are the ones that `get_current_slot` computes.
-/

namespace CeruleanLedger.SlotSchedule

open ByteCodec BlockDag BlockAdmission

def getCurrentSlot (scheduler : SlotScheduler) (timestamp : UInt64) : UInt64 :=
  if timestamp < scheduler.genesisTime then 0
  else (timestamp - scheduler.genesisTime) / scheduler.slotDuration

def startOf (scheduler : SlotScheduler) (slot : UInt64) : UInt64 :=
  scheduler.genesisTime + slot * scheduler.slotDuration

/-- At most one slot has the timestamp, and from the genesis time on it is the
current one. -/
structure SlotDetermined (scheduler : SlotScheduler) (timestamp : UInt64) : Prop where
  unique : ∀ first second, scheduler.validateBlockSlot first timestamp →
    scheduler.validateBlockSlot second timestamp → first = second
  current : scheduler.genesisTime ≤ timestamp → ∀ slot,
    scheduler.validateBlockSlot slot timestamp → slot = getCurrentSlot scheduler timestamp

def Unwrapped (scheduler : SlotScheduler) (slot : UInt64) : Prop :=
  scheduler.genesisTime.toNat + (slot.toNat + 1) * scheduler.slotDuration.toNat < 2 ^ 64

/-- Seconds as slots, or one slot for all of time from an end of the range. -/
def Exceptional (scheduler : SlotScheduler) : Prop :=
  scheduler.slotDuration = 1 ∨
    scheduler.slotDuration.toNat = 2 ^ 64 - 1 ∧
      (scheduler.genesisTime.toNat = 0 ∨ scheduler.genesisTime.toNat = 2 ^ 64 - 1)

section Bounds

variable (scheduler : SlotScheduler)

theorem valid_iff (slot timestamp : UInt64) :
    scheduler.validateBlockSlot slot timestamp ↔
      (startOf scheduler slot).toNat ≤ timestamp.toNat ∧
        timestamp.toNat < (startOf scheduler slot).toNat + scheduler.slotDuration.toNat ∧
        (startOf scheduler slot).toNat + scheduler.slotDuration.toNat < 2 ^ 64 := by
  have below := (startOf scheduler slot).toNat_lt
  have short := scheduler.slotDuration.toNat_lt
  have bounded := timestamp.toNat_lt
  change (decide (startOf scheduler slot ≤ timestamp) &&
    decide (timestamp < startOf scheduler slot + scheduler.slotDuration)) = true ↔ _
  rw [Bool.and_eq_true, decide_eq_true_iff, decide_eq_true_iff, UInt64.le_iff_toNat_le,
    UInt64.lt_iff_toNat_lt, UInt64.toNat_add]
  omega

theorem start_toNat (slot : UInt64) :
    (startOf scheduler slot).toNat =
      (scheduler.genesisTime.toNat + slot.toNat * scheduler.slotDuration.toNat) % 2 ^ 64 := by
  rw [startOf, UInt64.toNat_add, UInt64.toNat_mul, Nat.add_mod_mod]

theorem start_add (slot shift : UInt64) :
    startOf scheduler (slot + shift) =
      startOf scheduler slot + shift * scheduler.slotDuration := by
  rw [startOf, startOf, UInt64.add_mul, UInt64.add_assoc]

/-- Each slot starts `2 ^ 64 - d` before the last one, modulo 2^64, so that one of
them starts within that distance of zero and does not reach the end. -/
theorem exists_open_slot (positive : 0 < scheduler.slotDuration.toNat) :
    ∃ slot, (startOf scheduler slot).toNat + scheduler.slotDuration.toNat < 2 ^ 64 := by
  have short := scheduler.slotDuration.toNat_lt
  have bounded := scheduler.genesisTime.toNat_lt
  let back := 2 ^ 64 - scheduler.slotDuration.toNat
  let steps := scheduler.genesisTime.toNat / back
  have few : steps < 2 ^ 64 := Nat.lt_of_le_of_lt (Nat.div_le_self _ _) bounded
  have near : scheduler.genesisTime.toNat % back < back := Nat.mod_lt _ (by omega)
  have parts : back * steps + scheduler.genesisTime.toNat % back = scheduler.genesisTime.toNat :=
    Nat.div_add_mod _ _
  have whole : back * steps + steps * scheduler.slotDuration.toNat = 2 ^ 64 * steps := by
    rw [Nat.mul_comm steps, ← Nat.add_mul]
    congr 1
    omega
  have started : scheduler.genesisTime.toNat + steps * scheduler.slotDuration.toNat =
      scheduler.genesisTime.toNat % back + 2 ^ 64 * steps := by omega
  refine ⟨UInt64.ofNat steps, ?_⟩
  rw [start_toNat, UInt64.toNat_ofNat_of_lt' few, started, Nat.add_mul_mod_self_left,
    Nat.mod_eq_of_lt (by omega)]
  omega

end Bounds

section Collisions

variable {scheduler : SlotScheduler}

/-- With an even duration, half of the range later the slots start again. -/
theorem even_not_unique (positive : 0 < scheduler.slotDuration.toNat)
    (even : scheduler.slotDuration.toNat % 2 = 0) :
    ¬ ∀ timestamp, SlotDetermined scheduler timestamp := by
  intro determined
  obtain ⟨slot, fits⟩ := exists_open_slot scheduler positive
  have half : (9223372036854775808 : UInt64) * scheduler.slotDuration = 0 := by
    apply UInt64.toNat_inj.mp
    rw [UInt64.toNat_mul]
    change 9223372036854775808 * scheduler.slotDuration.toNat % 2 ^ 64 = 0
    omega
  have same : startOf scheduler (slot + 9223372036854775808) = startOf scheduler slot := by
    rw [start_add, half, UInt64.add_zero]
  have equal := (determined (startOf scheduler slot)).unique slot (slot + 9223372036854775808)
    ((valid_iff _ _ _).mpr ⟨Nat.le_refl _, by omega, fits⟩)
    ((valid_iff _ _ _).mpr (by rw [same]; exact ⟨Nat.le_refl _, by omega, fits⟩))
  have shifted := congrArg UInt64.toNat equal
  rw [UInt64.toNat_add] at shifted
  have bounded := slot.toNat_lt
  change slot.toNat = (slot.toNat + 9223372036854775808) % 2 ^ 64 at shifted
  omega

/-- With an odd duration some number of slots later the start is one later. -/
theorem exists_unit_shift (odd : scheduler.slotDuration.toNat % 2 = 1) :
    ∃ shift : UInt64, shift * scheduler.slotDuration = 1 := by
  have coprime : Nat.Coprime scheduler.slotDuration.toNat (2 ^ 64) :=
    (Nat.coprime_two_right.mpr (Nat.odd_iff.mpr odd)).pow_right 64
  obtain ⟨factor, _, unit⟩ := Nat.exists_mul_mod_eq_one_of_coprime coprime (by decide)
  refine ⟨UInt64.ofNat factor, UInt64.toNat_inj.mp ?_⟩
  rw [UInt64.toNat_mul, UInt64.toNat_ofNat', Nat.mod_mul_mod, Nat.mul_comm, unit]
  rfl

theorem neighbours_overlap (long : 2 ≤ scheduler.slotDuration.toNat) {first second : UInt64}
    (next : (startOf scheduler second).toNat = (startOf scheduler first).toNat + 1)
    (fits : (startOf scheduler second).toNat + scheduler.slotDuration.toNat < 2 ^ 64) :
    ¬ ∀ timestamp, SlotDetermined scheduler timestamp := by
  intro determined
  have equal := (determined (startOf scheduler second)).unique first second
    ((valid_iff _ _ _).mpr (by omega)) ((valid_iff _ _ _).mpr (by omega))
  rw [equal] at next
  omega

theorem odd_not_unique (odd : scheduler.slotDuration.toNat % 2 = 1)
    (long : 2 ≤ scheduler.slotDuration.toNat)
    (short : scheduler.slotDuration.toNat < 2 ^ 64 - 1) :
    ¬ ∀ timestamp, SlotDetermined scheduler timestamp := by
  obtain ⟨slot, fits⟩ := exists_open_slot scheduler (by omega)
  obtain ⟨shift, unit⟩ := exists_unit_shift odd
  by_cases room : (startOf scheduler slot).toNat + 1 + scheduler.slotDuration.toNat < 2 ^ 64
  · have later : (startOf scheduler (slot + shift)).toNat =
        (startOf scheduler slot).toNat + 1 := by
      rw [start_add, unit, UInt64.toNat_add]
      exact Nat.mod_eq_of_lt (by change _ + 1 < 2 ^ 64; omega)
    exact neighbours_overlap long later (by omega)
  · -- The slot is the last that fits, so the one that starts before it does.
    have back : startOf scheduler (slot - shift) + 1 = startOf scheduler slot := by
      rw [← unit, ← start_add, UInt64.sub_add_cancel]
    have earlier : (startOf scheduler slot).toNat =
        (startOf scheduler (slot - shift)).toNat + 1 := by
      have moved := congrArg UInt64.toNat back
      have bounded := (startOf scheduler (slot - shift)).toNat_lt
      rw [UInt64.toNat_add] at moved
      change (_ + 1) % 2 ^ 64 = _ at moved
      omega
    exact neighbours_overlap long earlier fits

theorem longest_valid_iff (longest : scheduler.slotDuration.toNat = 2 ^ 64 - 1)
    (slot timestamp : UInt64) :
    scheduler.validateBlockSlot slot timestamp ↔
      slot = scheduler.genesisTime ∧ timestamp.toNat < 2 ^ 64 - 1 := by
  have minus : scheduler.slotDuration + 1 = 0 := by
    apply UInt64.toNat_inj.mp
    rw [UInt64.toNat_add, longest]
    rfl
  have start : startOf scheduler slot = scheduler.genesisTime - slot := by
    have moved : startOf scheduler slot + slot = scheduler.genesisTime := by
      calc startOf scheduler slot + slot
          = scheduler.genesisTime + slot * (scheduler.slotDuration + 1) := by
            rw [startOf, UInt64.mul_add, UInt64.mul_one, UInt64.add_assoc]
        _ = scheduler.genesisTime := by rw [minus, UInt64.mul_zero, UInt64.add_zero]
    rw [← moved, UInt64.add_sub_cancel]
  have zero_iff : (startOf scheduler slot).toNat = 0 ↔ slot = scheduler.genesisTime := by
    rw [start]
    constructor
    · intro none
      have difference : scheduler.genesisTime - slot = 0 := UInt64.toNat_inj.mp none
      rw [← UInt64.sub_add_cancel scheduler.genesisTime slot, difference, UInt64.zero_add]
    · rintro rfl
      rw [UInt64.sub_self]
      rfl
  rw [valid_iff, longest, ← zero_iff]
  omega

end Collisions

section Determined

variable {scheduler : SlotScheduler}

theorem unwrapped_valid_iff (positive : 0 < scheduler.slotDuration.toNat) {slot : UInt64}
    (unwrapped : Unwrapped scheduler slot) (timestamp : UInt64) :
    scheduler.validateBlockSlot slot timestamp ↔
      scheduler.genesisTime ≤ timestamp ∧ slot = getCurrentSlot scheduler timestamp := by
  unfold Unwrapped at unwrapped
  rw [Nat.add_mul, Nat.one_mul] at unwrapped
  have start := start_toNat scheduler slot
  rw [Nat.mod_eq_of_lt (by omega)] at start
  rw [valid_iff, start, UInt64.le_iff_toNat_le]
  by_cases early : timestamp < scheduler.genesisTime
  · have before := UInt64.lt_iff_toNat_lt.mp early
    exact iff_of_false (by omega) (by omega)
  · have since := UInt64.not_lt.mp early
    have later := UInt64.le_iff_toNat_le.mp since
    have quotient : slot = getCurrentSlot scheduler timestamp ↔
        slot.toNat * scheduler.slotDuration.toNat ≤
            timestamp.toNat - scheduler.genesisTime.toNat ∧
          timestamp.toNat - scheduler.genesisTime.toNat <
            (slot.toNat + 1) * scheduler.slotDuration.toNat := by
      rw [getCurrentSlot, if_neg early, ← UInt64.toNat_inj, UInt64.toNat_div,
        UInt64.toNat_sub_of_le _ _ since, ← Nat.le_div_iff_mul_le positive,
        ← Nat.div_lt_iff_lt_mul positive]
      omega
    rw [quotient, Nat.add_mul, Nat.one_mul]
    omega

theorem seconds_determined (second : scheduler.slotDuration = 1) (timestamp : UInt64) :
    SlotDetermined scheduler timestamp := by
  have start : ∀ slot, startOf scheduler slot = scheduler.genesisTime + slot := by
    intro slot
    rw [startOf, second, UInt64.mul_one]
  have reached : ∀ slot, scheduler.validateBlockSlot slot timestamp →
      scheduler.genesisTime + slot = timestamp := by
    intro slot valid
    obtain ⟨after, before, _⟩ := (valid_iff scheduler slot timestamp).mp valid
    rw [start] at after before
    rw [second] at before
    apply UInt64.toNat_inj.mp
    change timestamp.toNat < _ + 1 at before
    omega
  constructor
  · intro one other valid also
    exact (UInt64.add_right_inj _).mp ((reached one valid).trans (reached other also).symm)
  · intro since slot valid
    rw [getCurrentSlot, if_neg (UInt64.not_lt.mpr since), second, ← reached slot valid,
      UInt64.add_comm, UInt64.add_sub_cancel, UInt64.div_one]

theorem longest_determined (longest : scheduler.slotDuration.toNat = 2 ^ 64 - 1)
    (ends : scheduler.genesisTime.toNat = 0 ∨ scheduler.genesisTime.toNat = 2 ^ 64 - 1)
    (timestamp : UInt64) : SlotDetermined scheduler timestamp := by
  constructor
  · intro one other valid also
    rw [longest_valid_iff longest] at valid also
    exact valid.1.trans also.1.symm
  · intro since slot valid
    obtain ⟨rfl, before⟩ := (longest_valid_iff longest slot timestamp).mp valid
    have later := UInt64.le_iff_toNat_le.mp since
    apply UInt64.toNat_inj.mp
    rw [getCurrentSlot, if_neg (UInt64.not_lt.mpr since), UInt64.toNat_div,
      UInt64.toNat_sub_of_le _ _ since, longest, Nat.div_eq_of_lt (by omega)]
    omega

theorem longest_not_current (longest : scheduler.slotDuration.toNat = 2 ^ 64 - 1)
    (inside : 0 < scheduler.genesisTime.toNat ∧ scheduler.genesisTime.toNat < 2 ^ 64 - 1) :
    ¬ ∀ timestamp, SlotDetermined scheduler timestamp := by
  intro determined
  have current := (determined scheduler.genesisTime).current UInt64.le_rfl scheduler.genesisTime
    ((longest_valid_iff longest _ _).mpr ⟨rfl, inside.2⟩)
  rw [getCurrentSlot, if_neg (UInt64.lt_irrefl _), UInt64.sub_self, UInt64.zero_div] at current
  rw [current] at inside
  exact absurd inside.1 (by decide)

theorem determined_iff (positive : 0 < scheduler.slotDuration.toNat) :
    (∀ timestamp, SlotDetermined scheduler timestamp) ↔ Exceptional scheduler := by
  constructor
  · intro determined
    by_contra ordinary
    obtain ⟨notSecond, notLongest⟩ := not_or.mp ordinary
    have long : 2 ≤ scheduler.slotDuration.toNat := by
      have differs : scheduler.slotDuration.toNat ≠ 1 := fun one =>
        notSecond (UInt64.toNat_inj.mp one)
      omega
    have bounded := scheduler.slotDuration.toNat_lt
    have genesis := scheduler.genesisTime.toNat_lt
    by_cases even : scheduler.slotDuration.toNat % 2 = 0
    · exact even_not_unique positive even determined
    · by_cases longest : scheduler.slotDuration.toNat = 2 ^ 64 - 1
      · exact longest_not_current longest (by omega) determined
      · exact odd_not_unique (by omega) long (by omega) determined
  · rintro (second | ⟨longest, ends⟩) timestamp
    · exact seconds_determined second timestamp
    · exact longest_determined longest ends timestamp

end Determined

theorem validate_slot_ok {block : DagBlock} {scheduler : SlotScheduler}
    (passed : validateSlot block scheduler = .ok ()) :
    scheduler.validateBlockSlot block.slot block.timestamp ∧
      block.proposer = scheduler.getProposer block.slot := by
  unfold validateSlot at passed
  split at passed
  · cases passed
  · next inside =>
    split at passed
    · cases passed
    · next expected => exact ⟨by simpa using inside, not_not.mp expected⟩

/-- Every timestamp has at most one slot, the current one, exactly for the
exceptional schedules; it always has where slots do not wrap, and where it has,
only one proposer is admitted for it. -/
theorem slots_determined_iff (scheduler : SlotScheduler)
    (positive : 1 ≤ scheduler.slotDuration.toNat) :
    ((∀ timestamp, SlotDetermined scheduler timestamp) ↔ Exceptional scheduler) ∧
      (∀ slot timestamp, Unwrapped scheduler slot →
        (scheduler.validateBlockSlot slot timestamp ↔
          scheduler.genesisTime ≤ timestamp ∧ slot = getCurrentSlot scheduler timestamp)) ∧
      ∀ first second : DagBlock, SlotDetermined scheduler first.timestamp →
        second.timestamp = first.timestamp → validateSlot first scheduler = .ok () →
        validateSlot second scheduler = .ok () → first.proposer = second.proposer := by
  refine ⟨determined_iff positive,
    fun _ timestamp unwrapped => unwrapped_valid_iff positive unwrapped timestamp, ?_⟩
  intro first second determined together passed also
  obtain ⟨valid, proposer⟩ := validate_slot_ok passed
  obtain ⟨other, another⟩ := validate_slot_ok also
  rw [together] at other
  rw [proposer, another, determined.unique _ _ valid other]

def sixSeconds : SlotScheduler := ⟨6, ["a", "b", "c"], 0⟩

theorem six_seconds_undetermined : ¬ ∀ timestamp, SlotDetermined sixSeconds timestamp := by
  rw [(slots_determined_iff sixSeconds (by decide)).1]
  unfold Exceptional
  decide

def blockIn (slot timestamp : UInt64) (proposer : String) : DagBlock :=
  { sampleBlock zeroHash zeroHash none with slot, timestamp, proposer }

/-- At time zero slot 0 and slot 2^63 are both admitted, with their proposers. -/
theorem two_proposers_at_once :
    sixSeconds.validateBlockSlot 0 0 ∧ sixSeconds.validateBlockSlot 9223372036854775808 0 ∧
      validateSlot (blockIn 0 0 "a") sixSeconds = .ok () ∧
      validateSlot (blockIn 9223372036854775808 0 "c") sixSeconds = .ok () := by
  decide

end CeruleanLedger.SlotSchedule
