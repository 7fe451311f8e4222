import Mathlib

/-!
Hash maps and hash sets yield their contents in no fixed order. An
`Arrangement` is one such order; what a program computes from the contents is
well defined when it is the same for every arrangement.
-/

namespace CeruleanLedger.IterationOrder

/-- An order in which a hash container lists its items. -/
structure Arrangement (Item : Type*) where
  arrange : List Item → List Item
  perm : ∀ items, (arrange items).Perm items

namespace Arrangement

variable {Item : Type*}

def asStored : Arrangement Item := ⟨id, fun _ => List.Perm.refl _⟩

def reversed : Arrangement Item := ⟨List.reverse, List.reverse_perm⟩

def preferring (chosen : Item → Bool) : Arrangement Item :=
  ⟨fun items => items.filter chosen ++ items.filter fun item => !chosen item,
    List.filter_append_perm chosen⟩

/-- Every listing of the items is one in which some order lists them. -/
theorem exists_arranging {items listing : List Item} (listed : listing.Perm items) :
    ∃ order : Arrangement Item, order.arrange items = listing := by
  classical
  refine ⟨⟨fun given => if given = items then listing else given, fun given => ?_⟩, if_pos rfl⟩
  split
  · next same => exact same ▸ listed
  · exact List.Perm.refl given

@[simp] theorem mem_arrange (order : Arrangement Item) (items : List Item) (item : Item) :
    item ∈ order.arrange items ↔ item ∈ items :=
  (order.perm items).mem_iff

end Arrangement

end CeruleanLedger.IterationOrder
