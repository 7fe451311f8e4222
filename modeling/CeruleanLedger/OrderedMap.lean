import Mathlib

/-!
Lookups in ordered maps whose comparison decides equality, and the keys of their
entries: none occurs twice, and strings are listed in increasing order. A weight
for each entry gives the total of a map, which an update changes by the entry it
touches. Pairs are compared component by component.
-/

namespace CeruleanLedger.OrderedMap

section Lookup

variable {Key Value : Type*} {cmp : Key → Key → Ordering} [Std.TransCmp cmp]
  [Std.LawfulEqCmp cmp] [DecidableEq Key] (map : Std.ExtTreeMap Key Value cmp)

theorem get_insert (key other : Key) (value : Value) :
    (map.insert key value)[other]? = if key = other then some value else map[other]? := by
  simp only [Std.ExtTreeMap.getElem?_insert, Std.LawfulEqCmp.compare_eq_iff_eq]

theorem get_erase (key other : Key) :
    (map.erase key)[other]? = if key = other then none else map[other]? := by
  simp only [Std.ExtTreeMap.getElem?_erase, Std.LawfulEqCmp.compare_eq_iff_eq]

theorem get_modify (key other : Key) (change : Value → Value) :
    (map.modify key change)[other]? =
      if key = other then map[key]?.map change else map[other]? := by
  simp only [Std.ExtTreeMap.getElem?_modify, Std.LawfulEqCmp.compare_eq_iff_eq]

theorem insert_twice (key : Key) (earlier later : Value) :
    (map.insert key earlier).insert key later = map.insert key later := by
  apply Std.ExtTreeMap.ext_getElem?
  intro other
  rw [get_insert, get_insert, get_insert]
  split <;> rfl

theorem get_erase_all (keys : List Key) (map : Std.ExtTreeMap Key Value cmp) (other : Key) :
    (keys.foldl (·.erase ·) map)[other]? = if other ∈ keys then none else map[other]? := by
  induction keys generalizing map with
  | nil => simp
  | cons key rest ih =>
    rw [List.foldl_cons, ih, get_erase]
    grind

end Lookup

section Entries

theorem keys_nodup {Key Value : Type*} {cmp : Key → Key → Ordering} [Std.TransCmp cmp]
    (map : Std.ExtTreeMap Key Value cmp) : (map.toList.map Prod.fst).Nodup := by
  rw [Std.ExtTreeMap.map_fst_toList_eq_keys]
  exact Std.ExtTreeMap.nodup_keys

theorem entries_sorted {Value : Type*} (map : Std.ExtTreeMap String Value) :
    map.toList.Pairwise fun left right => left.1 < right.1 :=
  Std.ExtTreeMap.ordered_keys_toList.imp compare_lt_iff_lt.mp

variable {Key Value : Type*} {cmp : Key → Key → Ordering} [Std.TransCmp cmp]
  [Std.LawfulEqCmp cmp] {map : Std.ExtTreeMap Key Value cmp} {keyOf : Value → Key}

theorem mem_values_iff (keyed : ∀ key value, map[key]? = some value → keyOf value = key)
    (value : Value) : value ∈ map.toList.map Prod.snd ↔ map[keyOf value]? = some value := by
  rw [List.mem_map]
  constructor
  · rintro ⟨⟨key, _⟩, entered, rfl⟩
    have found := Std.ExtTreeMap.mem_toList_iff_getElem?_eq_some.mp entered
    rwa [keyed key _ found]
  · intro found
    exact ⟨(keyOf value, value), Std.ExtTreeMap.mem_toList_iff_getElem?_eq_some.mpr found, rfl⟩

theorem values_nodup (keyed : ∀ key value, map[key]? = some value → keyOf value = key) :
    (map.toList.map Prod.snd).Nodup := by
  apply List.Nodup.of_map keyOf
  rw [List.map_map]
  convert keys_nodup map using 1
  apply List.map_congr_left
  rintro ⟨key, value⟩ entered
  exact keyed key value (Std.ExtTreeMap.mem_toList_iff_getElem?_eq_some.mp entered)

end Entries

section Totals

variable {Key Value : Type*} {cmp : Key → Key → Ordering} [Std.TransCmp cmp]

def total (weight : Key → Value → ℕ) (map : Std.ExtTreeMap Key Value cmp) : ℕ :=
  (map.toList.map fun entry => weight entry.1 entry.2).sum

variable (weight : Key → Value → ℕ) (map : Std.ExtTreeMap Key Value cmp)

def weightAt (key : Key) : ℕ := map[key]?.elim 0 (weight key)

@[simp] theorem total_empty : total weight (∅ : Std.ExtTreeMap Key Value cmp) = 0 := by
  rw [total, Std.ExtTreeMap.toList_eq_nil_iff.mpr rfl]
  rfl

theorem toList_nodup : map.toList.Nodup := (keys_nodup map).of_map

/-- An absent entry may count as any value that weighs nothing. -/
theorem weightAt_getD (measure : Value → ℕ) {default : Value} (nothing : measure default = 0)
    (key : Key) : weightAt (fun _ => measure) map key = measure (map[key]?.getD default) := by
  unfold weightAt
  cases map[key]? with
  | none => exact nothing.symm
  | some value => rfl

variable [Std.LawfulEqCmp cmp] [DecidableEq Key]

theorem toList_perm_erase {key : Key} {value : Value} (found : map[key]? = some value) :
    map.toList.Perm ((key, value) :: (map.erase key).toList) := by
  have absent : (key, value) ∉ (map.erase key).toList := by
    rw [Std.ExtTreeMap.mem_toList_iff_getElem?_eq_some, get_erase, if_pos rfl]
    exact nofun
  refine (List.perm_ext_iff_of_nodup (toList_nodup map)
    (List.nodup_cons.mpr ⟨absent, toList_nodup _⟩)).mpr ?_
  rintro ⟨other, stored⟩
  rw [List.mem_cons, Std.ExtTreeMap.mem_toList_iff_getElem?_eq_some,
    Std.ExtTreeMap.mem_toList_iff_getElem?_eq_some, get_erase]
  by_cases same : key = other
  · subst same
    simp [found, eq_comm]
  · simp [same, Ne.symm same]

theorem total_erase (key : Key) :
    total weight map = weightAt weight map key + total weight (map.erase key) := by
  cases found : map[key]? with
  | none =>
    have same : map.erase key = map := by
      apply Std.ExtTreeMap.ext_getElem?
      intro other
      rw [get_erase]
      split
      · next equal => rw [← equal, found]
      · rfl
    rw [same, weightAt, found]
    exact (Nat.zero_add _).symm
  | some value =>
    rw [total, ((toList_perm_erase map found).map _).sum_eq, weightAt, found]
    rfl

theorem total_insert (key : Key) (value : Value) :
    total weight (map.insert key value) = weight key value + total weight (map.erase key) := by
  have erased : (map.insert key value).erase key = map.erase key := by
    apply Std.ExtTreeMap.ext_getElem?
    intro other
    rw [get_erase, get_erase, get_insert]
    split <;> rfl
  rw [total_erase weight _ key, erased, weightAt, get_insert, if_pos rfl]
  rfl

theorem total_insert_add (key : Key) (value : Value) :
    total weight (map.insert key value) + weightAt weight map key =
      total weight map + weight key value := by
  have before := total_erase weight map key
  rw [total_insert, before]
  omega

theorem total_replace (measure : Value → ℕ) {default : Value} (nothing : measure default = 0)
    (key : Key) (value : Value) :
    total (fun _ => measure) (map.insert key value) + measure (map[key]?.getD default) =
      total (fun _ => measure) map + measure value := by
  rw [← weightAt_getD map measure nothing]
  exact total_insert_add _ map key value

theorem total_insert_fresh {key : Key} (value : Value) (fresh : map[key]? = none) :
    total weight (map.insert key value) = total weight map + weight key value := by
  have replaced := total_insert_add weight map key value
  rwa [weightAt, fresh] at replaced

theorem sum_weightAt_le (keys : List Key) (distinct : keys.Nodup) :
    (keys.map (weightAt weight map)).sum ≤ total weight map := by
  induction keys generalizing map with
  | nil => exact Nat.zero_le _
  | cons key rest ih =>
    obtain ⟨apart, distinct⟩ := List.nodup_cons.mp distinct
    have elsewhere : rest.map (weightAt weight map) =
        rest.map (weightAt weight (map.erase key)) := by
      apply List.map_congr_left
      intro other member
      have different : key ≠ other := fun same => apart (same ▸ member)
      rw [weightAt, weightAt, get_erase, if_neg different]
    rw [List.map_cons, List.sum_cons, total_erase weight map key, elsewhere]
    exact Nat.add_le_add_left (ih (map.erase key) distinct) _

end Totals

variable {First Second : Type*} [Ord First] [Ord Second]

def comparePair (left right : First × Second) : Ordering :=
  compareLex (compareOn Prod.fst) (compareOn Prod.snd) left right

instance [Std.TransOrd First] [Std.TransOrd Second] :
    Std.TransCmp (@comparePair First Second _ _) :=
  inferInstanceAs (Std.TransCmp (compareLex (compareOn Prod.fst) (compareOn Prod.snd)))

instance [Std.LawfulEqOrd First] [Std.LawfulEqOrd Second] :
    Std.LawfulEqCmp (@comparePair First Second _ _) where
  compare_self := by
    intro pair
    simp [comparePair, compareLex, compareOn]
  eq_of_compare := by
    intro left right equal
    simp only [comparePair, compareLex, compareOn, Ordering.then_eq_eq,
      Std.LawfulEqCmp.compare_eq_iff_eq] at equal
    exact Prod.ext equal.1 equal.2

end CeruleanLedger.OrderedMap
