import Mathlib

/-!
Accounts as lists of entries with a credit and a debit. The net of a list is
taken in the integers; a list is solvent if no front of it is overdrawn. A
running tally that never claims more than the net, and stops at zero instead of
going below, is a safe thing to check a batch of debits against.
-/

namespace CeruleanLedger.Solvency

variable {Entry : Type*} (credit debit : Entry → Nat)

def net (entries : List Entry) : ℤ :=
  (entries.map fun entry => (credit entry : ℤ) - debit entry).sum

def Solvent (entries : List Entry) : Prop :=
  ∀ front, front <+: entries → 0 ≤ net credit debit front

def spent (entries : List Entry) : Nat := (entries.map debit).sum

@[simp] theorem net_append (first second : List Entry) :
    net credit debit (first ++ second) = net credit debit first + net credit debit second := by
  simp [net]

variable {credit debit}

theorem solvent_nil : Solvent credit debit [] := by
  intro front isFront
  rw [List.prefix_nil.mp isFront]
  exact le_refl 0

theorem solvent_front {first second : List Entry}
    (solvent : Solvent credit debit (first ++ second)) : Solvent credit debit first :=
  fun front isFront => solvent front (isFront.trans (List.prefix_append first second))

theorem spent_le_net (front batch : List Entry) (isFront : front <+: batch) :
    -(spent debit batch : ℤ) ≤ net credit debit front := by
  induction front generalizing batch with
  | nil => simp [net]
  | cons entry front ih =>
    obtain ⟨rest, whole⟩ := isFront
    subst whole
    have shorter := ih (front ++ rest) (List.prefix_append front rest)
    simp only [spent, net, List.cons_append, List.map_cons, List.sum_cons, Nat.cast_add] at shorter ⊢
    omega

theorem solvent_append {entries batch : List Entry} (solvent : Solvent credit debit entries)
    (covered : (spent debit batch : ℤ) ≤ net credit debit entries) :
    Solvent credit debit (entries ++ batch) := by
  intro front isFront
  rcases List.prefix_or_prefix_of_prefix isFront (List.prefix_append entries batch) with
    inside | ⟨part, whole⟩
  · exact solvent front inside
  · subst whole
    have loses := @spent_le_net _ credit debit part batch
      ((List.prefix_append_right_inj entries).mp isFront)
    rw [net_append]
    omega

/-- A tally that follows the entries, rounding an overdraft up to zero and
otherwise never up, stays below the net of a solvent list. -/
theorem tally_le_net {Tally : Type*} (value : Tally → Nat) (step : Tally → Entry → Tally)
    (start : Tally) (zero : value start = 0) (entries : List Entry)
    (below : ∀ tally, ∀ entry ∈ entries,
      value (step tally entry) ≤ value tally + credit entry - debit entry)
    (solvent : Solvent credit debit entries) :
    (value (entries.foldl step start) : ℤ) ≤ net credit debit entries := by
  -- From the end: solvency of the whole list is what bounds the last rounding.
  induction entries using List.reverseRecOn with
  | nil => simp [net, zero]
  | append_singleton entries entry ih =>
    have earlier := ih (fun tally entry member => below tally entry
      (List.mem_append_left _ member)) (solvent_front solvent)
    have last := solvent _ (List.prefix_refl _)
    have next := below (entries.foldl step start) entry (by simp)
    rw [List.foldl_concat]
    simp only [net_append] at last ⊢
    have single : net credit debit [entry] = (credit entry : ℤ) - debit entry := by
      simp [net]
    omega

end CeruleanLedger.Solvency
