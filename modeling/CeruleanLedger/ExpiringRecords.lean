import Mathlib

/-!
Records of the time at which a key was last seen, of which old ones may be dropped. A key is
held until a deadline if it is on record from a time within a span of the deadline.
-/

namespace CeruleanLedger.ExpiringRecords

variable {Key : Type*} {span deadline clock now : Nat} {before after : Key → Option Nat} {key : Key}

/-- The deadline has passed, or the key has a time from which it is within the span. -/
def Held (span : Nat) (times : Key → Option Nat) (key : Key) (deadline clock : Nat) : Prop :=
  deadline < clock ∨ ∃ time, times key = some time ∧ time ≤ clock ∧ deadline ≤ time + span

/-- What may happen to the records by a moment: a time goes up, to that moment at
most, or it is dropped when it is longer ago than the span. -/
def Ages (span : Nat) (before after : Key → Option Nat) (now : Nat) : Prop :=
  ∀ key time, before key = some time → time ≤ now →
    (∃ later, after key = some later ∧ time ≤ later ∧ later ≤ now) ∨ time + span < now

theorem Held.age (held : Held span before key deadline clock) (passed : clock ≤ now)
    (ages : Ages span before after now) : Held span after key deadline now := by
  rcases held with gone | ⟨time, found, past, within⟩
  · exact Or.inl (gone.trans_le passed)
  · rcases ages key time found (past.trans passed) with ⟨later, kept, up, bounded⟩ | dropped
    · exact Or.inr ⟨later, kept, bounded, within.trans (Nat.add_le_add_right up span)⟩
    · exact Or.inl (within.trans_lt dropped)

theorem Held.gone (held : Held span before key deadline clock) (absent : before key = none) :
    deadline < clock := by
  rcases held with gone | ⟨time, found, _⟩
  · exact gone
  · rw [absent] at found
    cases found

theorem held_from (recorded : before key = some now) (within : deadline ≤ now + span) :
    Held span before key deadline now :=
  Or.inr ⟨now, recorded, Nat.le_refl now, within⟩

theorem ages_of_set [DecidableEq Key] (key : Key)
    (set : ∀ other, after other = if key = other then some now else before other) :
    Ages span before after now := by
  intro other time found past
  rw [set]
  split
  · exact Or.inl ⟨now, rfl, past, Nat.le_refl now⟩
  · exact Or.inl ⟨time, found, Nat.le_refl time, past⟩

theorem ages_of_drop (kept : ∀ key time, before key = some time → time ≤ now →
    after key = some time ∨ time + span < now) : Ages span before after now := by
  intro key time found past
  rcases kept key time found past with same | dropped
  · exact Or.inl ⟨time, same, Nat.le_refl time, past⟩
  · exact Or.inr dropped

theorem ages_refl : Ages span before before now :=
  ages_of_drop fun _ _ found _ => Or.inl found

end CeruleanLedger.ExpiringRecords
