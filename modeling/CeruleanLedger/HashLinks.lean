import Mathlib

/-!
Sequences in which each item names the digest of the item before it. What a hash function has to
satisfy is stated for the inputs that were hashed: a hash with a fixed output length has
collisions somewhere.
-/

namespace CeruleanLedger.HashLinks

def CollisionFree {Input Digest : Type} (hash : Input → Digest) (inputs : List Input) : Prop :=
  ∀ left ∈ inputs, ∀ right ∈ inputs, hash left = hash right → left = right

instance {Input Digest : Type} [DecidableEq Input] [DecidableEq Digest] (hash : Input → Digest)
    (inputs : List Input) : Decidable (CollisionFree hash inputs) :=
  inferInstanceAs (Decidable (∀ left ∈ inputs, ∀ right ∈ inputs, _))

section Inputs

variable {Input Digest : Type} {hash : Input → Digest} {left right : Input}
variable {lefts rights : List Input}

theorem CollisionFree.heads (free : CollisionFree hash (left :: lefts ++ right :: rights))
    (same : hash left = hash right) : left = right :=
  free left (by simp) right (by simp) same

theorem CollisionFree.tails (free : CollisionFree hash (left :: lefts ++ right :: rights)) :
    CollisionFree hash (lefts ++ rights) := by
  have within : lefts ++ rights ⊆ left :: lefts ++ right :: rights := by
    intro input member
    rcases List.mem_append.mp member with first | second
    · exact List.mem_append_left _ (List.mem_cons_of_mem _ first)
    · exact List.mem_append_right _ (List.mem_cons_of_mem _ second)
  exact fun first one second two same => free first (within one) second (within two) same

end Inputs

variable {Item Digest : Type} (digest parent : Item → Digest) (position : Item → Nat)

structure Linked (items : List Item) : Prop where
  positioned : ∀ index item, items[index]? = some item → position item = index
  named : ∀ index earlier later, items[index]? = some earlier →
    items[index + 1]? = some later → parent later = digest earlier

variable {digest parent position}

theorem linked_nil : Linked digest parent position [] :=
  ⟨fun _ _ found => (nomatch found), fun _ _ _ found => (nomatch found)⟩

theorem Linked.extend {items : List Item} (linked : Linked digest parent position items)
    (item : Item) (next : position item = items.length)
    (names : ∀ tip, items.getLast? = some tip → parent item = digest tip) :
    Linked digest parent position (items ++ [item]) := by
  constructor
  · intro index found present
    rcases lt_trichotomy index items.length with inside | atEnd | beyond
    · rw [List.getElem?_append_left inside] at present
      exact linked.positioned index found present
    · subst atEnd
      rw [List.getElem?_concat_length] at present
      rw [← Option.some.inj present, next]
    · rw [List.getElem?_eq_none (by simp; omega)] at present
      exact nomatch present
  · intro index earlier later first second
    have bound := (List.getElem?_eq_some_iff.mp second).1
    rw [List.length_append, List.length_singleton] at bound
    rw [List.getElem?_append_left (by omega)] at first
    rcases Nat.lt_or_ge (index + 1) items.length with inside | atEnd
    · rw [List.getElem?_append_left inside] at second
      exact linked.named index earlier later first second
    · have last : index + 1 = items.length := by omega
      rw [last, List.getElem?_concat_length] at second
      rw [← Option.some.inj second]
      apply names earlier
      rw [List.getLast?_eq_getElem?, ← last, Nat.add_sub_cancel]
      exact first

def Binds (digest parent : Item → Digest) (position : Item → Nat) (left right : List Item) :
    Prop :=
  ∀ first ∈ left, ∀ second ∈ right, digest first = digest second →
    position first = position second ∧ parent first = parent second

variable {left right : List Item}

theorem digest_below (leftLinked : Linked digest parent position left)
    (rightLinked : Linked digest parent position right)
    (binds : Binds digest parent position left right) {index : Nat}
    (inLeft : index + 1 < left.length) (inRight : index + 1 < right.length)
    (same : left[index + 1]?.map digest = right[index + 1]?.map digest) :
    left[index]?.map digest = right[index]?.map digest := by
  have leftBelow := List.getElem?_eq_getElem (Nat.lt_of_succ_lt inLeft)
  have rightBelow := List.getElem?_eq_getElem (Nat.lt_of_succ_lt inRight)
  have leftHere := List.getElem?_eq_getElem inLeft
  have rightHere := List.getElem?_eq_getElem inRight
  rw [leftHere, rightHere] at same
  have bound := binds _ (List.getElem_mem inLeft) _ (List.getElem_mem inRight)
    (Option.some.inj same)
  rw [leftBelow, rightBelow, Option.map_some, Option.map_some,
    ← leftLinked.named index _ _ leftBelow leftHere,
    ← rightLinked.named index _ _ rightBelow rightHere, bound.2]

theorem lengths_agree (leftLinked : Linked digest parent position left)
    (rightLinked : Linked digest parent position right)
    (binds : Binds digest parent position left right)
    (tips : left.getLast?.map digest = right.getLast?.map digest) :
    left.length = right.length := by
  cases leftTip : left.getLast? with
  | none =>
    rw [leftTip, Option.map_none, eq_comm, Option.map_eq_none_iff] at tips
    rw [List.getLast?_eq_none_iff.mp leftTip, List.getLast?_eq_none_iff.mp tips]
  | some first =>
    cases rightTip : right.getLast? with
    | none => rw [leftTip, rightTip] at tips; exact nomatch tips
    | some second =>
      rw [leftTip, rightTip] at tips
      have bound := binds first (List.mem_of_getLast? leftTip) second
        (List.mem_of_getLast? rightTip) (Option.some.inj tips)
      have leftSome := List.length_pos_of_mem (List.mem_of_getLast? leftTip)
      have rightSome := List.length_pos_of_mem (List.mem_of_getLast? rightTip)
      rw [List.getLast?_eq_getElem?] at leftTip rightTip
      have leftPlace := leftLinked.positioned _ _ leftTip
      have rightPlace := rightLinked.positioned _ _ rightTip
      omega

/-- The induction runs from the tip down. -/
theorem digests_agree (leftLinked : Linked digest parent position left)
    (rightLinked : Linked digest parent position right)
    (binds : Binds digest parent position left right)
    (tips : left.getLast?.map digest = right.getLast?.map digest) (index : Nat) :
    left[index]?.map digest = right[index]?.map digest := by
  have lengths := lengths_agree leftLinked rightLinked binds tips
  have fromTip : ∀ depth index, index + depth + 1 = left.length →
      left[index]?.map digest = right[index]?.map digest := by
    intro depth
    induction depth with
    | zero =>
      intro index atTip
      rw [List.getLast?_eq_getElem?, List.getLast?_eq_getElem?, ← lengths, ← atTip] at tips
      exact tips
    | succ depth ih =>
      intro index below
      have above := ih (index + 1) (by omega)
      exact digest_below leftLinked rightLinked binds (by omega) (by omega) above
  rcases Nat.lt_or_ge index left.length with inside | beyond
  · exact fromTip (left.length - 1 - index) index (by omega)
  · rw [List.getElem?_eq_none beyond, List.getElem?_eq_none (by omega)]

end CeruleanLedger.HashLinks
