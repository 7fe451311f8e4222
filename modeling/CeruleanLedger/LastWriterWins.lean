import Mathlib.Order.Lattice
import Mathlib.Data.List.Basic

/-!
A register that keeps the value with the greatest stamp: an offered value replaces the current
one if its stamp is strictly greater. Values that come in batches act like one offer for each
batch.
-/

namespace CeruleanLedger.LastWriterWins

variable {Value Stamp : Type*} [LinearOrder Stamp] (stamp : Value → Stamp)

def accept (current offered : Value) : Value :=
  if stamp current < stamp offered then offered else current

def latest (current : Value) (offers : List Value) : Value :=
  offers.foldl (accept stamp) current

structure IsTop (current : Value) (offers : List Value) (top : Value) : Prop where
  offered : top ∈ offers
  newer : stamp current < stamp top
  greatest : ∀ value ∈ offers, stamp value ≤ stamp top

def Agree (current : Value) (offers : List Value) : Prop :=
  ∀ first second, IsTop stamp current offers first → IsTop stamp current offers second →
    first = second

section Order

variable {stamp}

theorem accept_of_lt {current offered : Value} (newer : stamp current < stamp offered) :
    accept stamp current offered = offered := if_pos newer

theorem accept_of_le {current offered : Value} (older : stamp offered ≤ stamp current) :
    accept stamp current offered = current := if_neg (not_lt.mpr older)

end Order

variable (current : Value) (offers : List Value)

theorem stamp_accept (offered : Value) :
    stamp (accept stamp current offered) = max (stamp current) (stamp offered) := by
  rcases lt_or_ge (stamp current) (stamp offered) with newer | older
  · rw [accept_of_lt newer, max_eq_right newer.le]
  · rw [accept_of_le older, max_eq_left older]

theorem latest_cons (offered : Value) (rest : List Value) :
    latest stamp current (offered :: rest) = latest stamp (accept stamp current offered) rest := rfl

theorem latest_append (earlier later : List Value) :
    latest stamp current (earlier ++ later) =
      latest stamp (latest stamp current earlier) later :=
  List.foldl_append

theorem latest_of_le (older : ∀ value ∈ offers, stamp value ≤ stamp current) :
    latest stamp current offers = current := by
  induction offers with
  | nil => rfl
  | cons offered rest ih =>
    rw [latest_cons, accept_of_le (older offered List.mem_cons_self)]
    exact ih fun value member => older value (List.mem_cons_of_mem _ member)

theorem le_latest : stamp current ≤ stamp (latest stamp current offers) := by
  induction offers generalizing current with
  | nil => exact le_rfl
  | cons offered rest ih =>
    refine le_trans ?_ (ih (accept stamp current offered))
    rw [stamp_accept stamp]
    exact le_max_left _ _

theorem offer_le_latest : ∀ value ∈ offers, stamp value ≤ stamp (latest stamp current offers) := by
  induction offers generalizing current with
  | nil => nofun
  | cons offered rest ih =>
    intro value member
    rcases List.mem_cons.mp member with rfl | later
    · refine le_trans ?_ (le_latest stamp _ rest)
      rw [stamp_accept stamp]
      exact le_max_right _ _
    · exact ih _ value later

theorem latest_cases :
    latest stamp current offers = current ∨
      IsTop stamp current offers (latest stamp current offers) := by
  induction offers generalizing current with
  | nil => exact .inl rfl
  | cons offered rest ih =>
    have greatest := offer_le_latest stamp current (offered :: rest)
    rw [latest_cons] at greatest ⊢
    rcases lt_or_ge (stamp current) (stamp offered) with newer | older
    · rw [accept_of_lt newer] at greatest ⊢
      rcases ih offered with same | top
      · rw [same] at greatest ⊢
        exact .inr ⟨List.mem_cons_self, newer, greatest⟩
      · exact .inr ⟨List.mem_cons_of_mem _ top.offered, newer.trans top.newer, greatest⟩
    · rw [accept_of_le older] at greatest ⊢
      rcases ih current with same | top
      · exact .inl same
      · exact .inr ⟨List.mem_cons_of_mem _ top.offered, top.newer, greatest⟩

variable {stamp}

/-- A register that is further on takes a batch as the one offer that it makes. -/
theorem latest_join {current later : Value} (order : stamp current ≤ stamp later) :
    latest stamp later offers = accept stamp later (latest stamp current offers) := by
  induction offers generalizing current later with
  | nil => exact (accept_of_le order).symm
  | cons offered rest ih =>
    rw [latest_cons, latest_cons]
    rcases lt_or_ge (stamp later) (stamp offered) with newer | older
    · rw [accept_of_lt newer, accept_of_lt (order.trans_lt newer)]
      exact (accept_of_lt (newer.trans_le (le_latest stamp offered rest))).symm
    · rw [accept_of_le older]
      apply ih
      rw [stamp_accept stamp]
      exact max_le order older

theorem latest_flatten (batches : List (List Value)) :
    latest stamp current batches.flatten =
      latest stamp current (batches.map (latest stamp current)) := by
  suffices general : ∀ later, stamp current ≤ stamp later →
      latest stamp later batches.flatten =
        latest stamp later (batches.map (latest stamp current)) from general current le_rfl
  induction batches with
  | nil => exact fun _ _ => rfl
  | cons batch rest ih =>
    intro later order
    rw [List.flatten_cons, latest_append, List.map_cons, latest_cons, latest_join batch order]
    apply ih
    rw [stamp_accept stamp]
    exact order.trans (le_max_left _ _)

/-- What is heard first of the newest offers stays. -/
theorem latest_cons_top {current top : Value} {offers rest : List Value}
    (isTop : IsTop stamp current offers top) (known : ∀ value ∈ rest, value ∈ offers) :
    latest stamp current (top :: rest) = top := by
  rw [latest_cons, accept_of_lt isTop.newer]
  exact latest_of_le stamp top rest fun value member => isTop.greatest value (known value member)

theorem latest_of_heard {current : Value} {offers heard : List Value}
    (agree : Agree stamp current offers) (known : ∀ value ∈ heard, value ∈ offers)
    (hears : ∀ top, IsTop stamp current offers top → top ∈ heard) :
    latest stamp current heard = latest stamp current offers := by
  rcases latest_cases stamp current offers with same | top
  · rw [same]
    apply latest_of_le
    intro value member
    rw [← same]
    exact offer_le_latest stamp current offers value (known value member)
  · have reached := offer_le_latest stamp current heard _ (hears _ top)
    rcases latest_cases stamp current heard with same | last
    · rw [same] at reached
      exact absurd top.newer (not_lt.mpr reached)
    · refine agree _ _ ⟨known _ last.offered, last.newer, ?_⟩ top
      exact fun value member => (top.greatest value member).trans reached

end CeruleanLedger.LastWriterWins
