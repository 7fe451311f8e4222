import CeruleanLedger.KeyPrefixes
import CeruleanLedger.VersionedState

/-!
Composite keys of `storage/world_state.rs`: an object type and attributes, each
ended by a NUL, behind a leading NUL. Strings are compared and split as the
lists of their characters.
-/

namespace CeruleanLedger.CompositeKeys

open KeyPrefixes
open OrderedMap
open VersionedState

def compositeSep : Char := '\x00'

def compositeKey (objectType : String) (attrs : List String) : String :=
  attrs.foldl (fun key attr => (key ++ attr).push compositeSep)
    (("".push compositeSep ++ objectType).push compositeSep)

def splitParts (rest : List Char) : List String :=
  let parts := (rest.splitOn compositeSep).map String.ofList
  if parts.getLast? = some "" then parts.dropLast else parts

def parseCompositeKey (key : String) : Option (String × List String) :=
  match key.toList with
  | [] => none
  | first :: rest =>
    if first = compositeSep then
      match splitParts rest with
      | [] => none
      | objectType :: attrs => some (objectType, attrs)
    else none

/-- The range that ends where the last NUL of the start becomes `\x01`. -/
def getByPartialKey (state : MemoryWorldState) (objectType : String) (front : List String) :
    Option (List (String × VersionedValue)) :=
  let start := compositeKey objectType front
  state.getRange start ((String.ofList start.toList.dropLast).push '\x01')

def Plain (component : String) : Prop := compositeSep ∉ component.toList

def Composite (key : String) : Prop :=
  ∃ objectType attrs, (∀ component ∈ objectType :: attrs, Plain component) ∧
    key = compositeKey objectType attrs

section Encoding

variable {objectType : String} {attrs : List String}

theorem composite_key_toList (objectType : String) (attrs : List String) :
    (compositeKey objectType attrs).toList =
      compositeSep :: terminated compositeSep ((objectType :: attrs).map String.toList) := by
  -- The loop appends the attributes one by one behind what is there.
  have appended : ∀ key : String,
      (attrs.foldl (fun key attr => (key ++ attr).push compositeSep) key).toList =
        key.toList ++ terminated compositeSep (attrs.map String.toList) := by
    induction attrs with
    | nil => simp [terminated]
    | cons attr attrs ih =>
      intro key
      rw [List.foldl_cons, ih, List.map_cons, terminated_cons]
      simp
  rw [compositeKey, appended, List.map_cons, terminated_cons]
  simp

theorem plain_fields (plain : ∀ component ∈ objectType :: attrs, Plain component) :
    ∀ field ∈ (objectType :: attrs).map String.toList, compositeSep ∉ field := by
  intro field member
  obtain ⟨component, inside, rfl⟩ := List.mem_map.mp member
  exact plain component inside

theorem parse_composite_key (plain : ∀ component ∈ objectType :: attrs, Plain component) :
    parseCompositeKey (compositeKey objectType attrs) = some (objectType, attrs) := by
  have parts : splitParts (terminated compositeSep ((objectType :: attrs).map String.toList)) =
      objectType :: attrs := by
    have strings : (((objectType :: attrs).map String.toList) ++ [[]]).map String.ofList =
        (objectType :: attrs) ++ [""] := by
      simp [Function.comp_def]
    rw [splitParts, split_terminated (plain_fields plain), strings, List.getLast?_concat,
      if_pos rfl, List.dropLast_concat]
  rw [parseCompositeKey, composite_key_toList]
  simp only [if_true, parts]

theorem composite_prefix_iff {otherType : String} {others : List String}
    (plain : ∀ component ∈ objectType :: attrs, Plain component)
    (plain' : ∀ component ∈ otherType :: others, Plain component) :
    (compositeKey objectType attrs).toList <+: (compositeKey otherType others).toList ↔
      objectType = otherType ∧ attrs <+: others := by
  have injective : Function.Injective String.toList := fun _ _ => String.toList_inj.mp
  rw [composite_key_toList, composite_key_toList, List.cons_prefix_cons,
    terminated_prefix_iff (plain_fields plain) (plain_fields plain'),
    List.prefix_map_iff_of_injective injective, List.cons_prefix_cons]
  simp

end Encoding

theorem below_one (letter : Char) : letter < '\x01' ↔ letter ≤ compositeSep := by
  rw [Char.lt_def, Char.le_def]
  change letter.val < 1 ↔ letter.val ≤ 0
  rw [UInt32.lt_iff_toNat_lt, UInt32.le_iff_toNat_le]
  exact Nat.lt_succ_iff

theorem query_range_iff (objectType : String) (front : List String) (key : String) :
    inRange (compositeKey objectType front)
        ((String.ofList (compositeKey objectType front).toList.dropLast).push '\x01') key = true ↔
      (compositeKey objectType front).toList <+: key.toList := by
  obtain ⟨body, ends⟩ : ∃ body, (compositeKey objectType front).toList =
      body ++ [compositeSep] := by
    obtain ⟨body, ends⟩ := @terminated_ends Char compositeSep _
      (List.cons_ne_nil objectType.toList (front.map String.toList))
    refine ⟨compositeSep :: body, ?_⟩
    rw [composite_key_toList, List.map_cons, ends, List.cons_append]
  have stop : ((String.ofList (compositeKey objectType front).toList.dropLast).push '\x01').toList =
      body ++ ['\x01'] := by
    rw [ends, List.dropLast_concat, String.toList_push, String.toList_ofList]
  rw [inRange, Bool.and_eq_true, Bool.not_eq_true', decide_eq_false_iff_not, decide_eq_true_eq,
    String.lt_iff_toList_lt, String.lt_iff_toList_lt, stop, ends, prefix_iff_in_range below_one]

/-- The query never panics: its range ends behind its start. -/
theorem query_range_returns (state : MemoryWorldState) (objectType : String)
    (front : List String) :
    getByPartialKey state objectType front = some (state.inner.toList.filter fun entry =>
      inRange (compositeKey objectType front)
        ((String.ofList (compositeKey objectType front).toList.dropLast).push '\x01') entry.1) := by
  have within := (query_range_iff objectType front _).mpr (List.prefix_refl _)
  rw [inRange, Bool.and_eq_true, decide_eq_true_eq] at within
  exact if_neg (lt_asymm within.2)

/-- Among composite keys the query finds, in key order, exactly those that parse
to its type and an extension of its attributes; and parsing undoes building. -/
theorem component_query_exact (state : MemoryWorldState)
    (composite : ∀ key ∈ state.inner, Composite key) (objectType : String) (front : List String)
    (plain : ∀ component ∈ objectType :: front, Plain component) :
    (∃ found, getByPartialKey state objectType front = some found ∧
      (found.Pairwise fun left right => left.1 < right.1) ∧
      ∀ key value, (key, value) ∈ found ↔ state.inner[key]? = some value ∧
        ∃ rest, parseCompositeKey key = some (objectType, front ++ rest)) ∧
    ∀ otherType attrs, (∀ component ∈ otherType :: attrs, Plain component) →
      parseCompositeKey (compositeKey otherType attrs) = some (otherType, attrs) := by
  refine ⟨⟨_, query_range_returns state objectType front,
    (entries_sorted state.inner).filter _, ?_⟩, fun _ _ => parse_composite_key⟩
  intro key value
  rw [List.mem_filter, query_range_iff, Std.ExtTreeMap.mem_toList_iff_getElem?_eq_some]
  refine and_congr_right fun stored => ?_
  have member : key ∈ state.inner := Std.ExtTreeMap.mem_iff_isSome_getElem?.mpr (by simp [stored])
  obtain ⟨otherType, attrs, plain', rfl⟩ := composite key member
  rw [composite_prefix_iff plain plain', parse_composite_key plain']
  constructor
  · rintro ⟨rfl, rest, rfl⟩
    exact ⟨rest, rfl⟩
  · rintro ⟨rest, same⟩
    obtain ⟨rfl, rfl⟩ := Prod.mk.inj (Option.some.inj same)
    exact ⟨rfl, List.prefix_append front rest⟩

def ownedState : MemoryWorldState :=
  ⟨((∅ : Std.ExtTreeMap String VersionedValue).insert (compositeKey "asset" ["ann", "car"])
    ⟨1, [1]⟩).insert (compositeKey "asset" ["ann", ""]) ⟨1, [2]⟩
      |>.insert (compositeKey "ass" ["et"]) ⟨1, [3]⟩, ∅⟩

theorem owned_assets_found :
    ∃ found, getByPartialKey ownedState "asset" ["ann"] = some found ∧
      (found.Pairwise fun left right => left.1 < right.1) ∧
      ∀ key value, (key, value) ∈ found ↔ ownedState.inner[key]? = some value ∧
        ∃ rest, parseCompositeKey key = some ("asset", ["ann"] ++ rest) := by
  have composite : ∀ key ∈ ownedState.inner, Composite key := by
    intro key member
    simp only [ownedState, Std.ExtTreeMap.mem_insert, compare_eq_iff_eq,
      Std.ExtTreeMap.not_mem_empty, or_false] at member
    rcases member with rfl | rfl | rfl
    · exact ⟨"ass", ["et"], by unfold Plain; decide, rfl⟩
    · exact ⟨"asset", ["ann", ""], by unfold Plain; decide, rfl⟩
    · exact ⟨"asset", ["ann", "car"], by unfold Plain; decide, rfl⟩
  exact (component_query_exact ownedState composite "asset" ["ann"]
    (by unfold Plain; decide)).1

example : getByPartialKey ownedState "asset" ["ann"] =
    some [("\x00asset\x00ann\x00\x00", ⟨1, [2]⟩), ("\x00asset\x00ann\x00car\x00", ⟨1, [1]⟩)] := by
  decide +kernel

end CeruleanLedger.CompositeKeys
