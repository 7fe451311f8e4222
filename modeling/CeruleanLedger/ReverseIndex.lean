import Mathlib

/-!
Entries at keys and an index from each owner to one key. A write points the index
of the owner at the key, and a removal clears the index of the removed entry's
owner. A lookup by owner is exact when it finds an entry of the owner that is live
wherever there is one, and nothing else.
-/

namespace CeruleanLedger.ReverseIndex

variable {Key Owner Entry : Type*}

@[ext]
structure Registry (Key Owner Entry : Type*) where
  entries : Key → Option Entry
  index : Owner → Option Key

namespace Registry

variable [DecidableEq Key] [DecidableEq Owner] (owner : Entry → Owner) (Live : Entry → Prop)

def put (registry : Registry Key Owner Entry) (key : Key) (entry : Entry) :
    Registry Key Owner Entry :=
  ⟨Function.update registry.entries key (some entry),
    Function.update registry.index (owner entry) (some key)⟩

def remove (registry : Registry Key Owner Entry) (key : Key) : Registry Key Owner Entry :=
  match registry.entries key with
  | none => registry
  | some entry => ⟨Function.update registry.entries key none,
      Function.update registry.index (owner entry) none⟩

def find (registry : Registry Key Owner Entry) (who : Owner) : Option Entry :=
  (registry.index who).bind registry.entries

def Exact (registry : Registry Key Owner Entry) : Prop :=
  ∀ who, (∀ entry, registry.find who = some entry → owner entry = who ∧ Live entry) ∧
    ∀ key entry, registry.entries key = some entry → owner entry = who → Live entry →
      ∃ found, registry.find who = some found

def Tight (registry : Registry Key Owner Entry) : Prop :=
  ∀ who key, registry.index who = some key →
    ∃ entry, registry.entries key = some entry ∧ owner entry = who

variable {owner Live} {registry : Registry Key Owner Entry} {key : Key} {entry : Entry}

theorem put_entries : (registry.put owner key entry).entries =
    Function.update registry.entries key (some entry) := rfl

theorem put_index : (registry.put owner key entry).index =
    Function.update registry.index (owner entry) (some key) := rfl

theorem find_put_owner : (registry.put owner key entry).find (owner entry) = some entry := by
  simp [find, put]

theorem find_put_other {who : Owner} (other : who ≠ owner entry)
    (elsewhere : registry.index who ≠ some key) :
    (registry.put owner key entry).find who = registry.find who := by
  simp only [find, put, Function.update_of_ne other]
  cases pointed : registry.index who with
  | none => rfl
  | some target =>
    have apart : target ≠ key := by
      rintro rfl
      exact elsewhere pointed
    rw [Option.bind_some, Option.bind_some, Function.update_of_ne apart]

theorem put_exact_iff (tight : registry.Tight owner) (exact : registry.Exact owner Live) :
    (registry.put owner key entry).Exact owner Live ↔
      Live entry ∧ ∀ old, registry.entries key = some old → owner old ≠ owner entry →
        registry.index (owner old) ≠ some key := by
  constructor
  · intro after
    refine ⟨((after (owner entry)).1 entry find_put_owner).2, ?_⟩
    intro old stored other pointed
    have found : (registry.put owner key entry).find (owner old) = some entry := by
      simp [find, put, Function.update_of_ne other, pointed]
    exact other ((after (owner old)).1 entry found).1.symm
  · rintro ⟨live, moved⟩ who
    by_cases same : who = owner entry
    · subst same
      refine ⟨fun found read => ?_, fun _ _ _ _ _ => ⟨entry, find_put_owner⟩⟩
      rw [find_put_owner] at read
      cases read
      exact ⟨rfl, live⟩
    · have elsewhere : registry.index who ≠ some key := by
        intro pointed
        obtain ⟨old, stored, owned⟩ := tight who key pointed
        subst owned
        exact moved old stored same pointed
      rw [find_put_other same elsewhere]
      refine ⟨(exact who).1, ?_⟩
      intro place found stored owned alive
      by_cases here : place = key
      · subst here
        rw [put_entries, Function.update_self] at stored
        cases stored
        exact absurd owned.symm same
      · rw [put_entries, Function.update_of_ne here] at stored
        exact (exact who).2 place found stored owned alive

/-- An exact write leaves no index behind that points at the overwritten entry. -/
theorem put_tight (tight : registry.Tight owner)
    (after : (registry.put owner key entry).Exact owner Live) :
    (registry.put owner key entry).Tight owner := by
  intro who place pointed
  by_cases same : who = owner entry
  · subst same
    rw [put_index, Function.update_self] at pointed
    cases pointed
    exact ⟨entry, Function.update_self .., rfl⟩
  · have before : registry.index who = some place := by
      rwa [put_index, Function.update_of_ne same] at pointed
    by_cases here : place = key
    · subst here
      have found : (registry.put owner place entry).find who = some entry := by
        simp [find, put, Function.update_of_ne same, before]
      exact absurd ((after who).1 entry found).1.symm same
    · obtain ⟨old, stored, owned⟩ := tight who place before
      exact ⟨old, (Function.update_of_ne here ..).trans stored, owned⟩

theorem remove_absent (absent : registry.entries key = none) :
    registry.remove owner key = registry := by
  rw [remove, absent]

theorem remove_entries (stored : registry.entries key = some entry) :
    (registry.remove owner key).entries = Function.update registry.entries key none := by
  rw [remove, stored]

theorem remove_index (stored : registry.entries key = some entry) :
    (registry.remove owner key).index = Function.update registry.index (owner entry) none := by
  rw [remove, stored]

omit [DecidableEq Key] [DecidableEq Owner] in
theorem remove_elsewhere (tight : registry.Tight owner)
    (stored : registry.entries key = some entry) {who : Owner} {place : Key}
    (other : who ≠ owner entry) (pointed : registry.index who = some place) : place ≠ key := by
  rintro rfl
  obtain ⟨found, read, owned⟩ := tight who place pointed
  rw [stored] at read
  cases read
  exact other owned.symm

theorem find_remove_other (tight : registry.Tight owner)
    (stored : registry.entries key = some entry) {who : Owner} (other : who ≠ owner entry) :
    (registry.remove owner key).find who = registry.find who := by
  rw [find, find, remove_index stored, remove_entries stored, Function.update_of_ne other]
  cases pointed : registry.index who with
  | none => rfl
  | some place =>
    rw [Option.bind_some, Option.bind_some,
      Function.update_of_ne (remove_elsewhere tight stored other pointed)]

theorem find_remove_owner (stored : registry.entries key = some entry) :
    (registry.remove owner key).find (owner entry) = none := by
  rw [find, remove_index stored, Function.update_self, Option.bind_none]

theorem remove_entries_iff (stored : registry.entries key = some entry) {place : Key}
    {other : Entry} : (registry.remove owner key).entries place = some other ↔
      place ≠ key ∧ registry.entries place = some other := by
  rw [remove_entries stored]
  by_cases here : place = key
  · simp [here]
  · simp [here]

theorem remove_exact_iff (tight : registry.Tight owner) (exact : registry.Exact owner Live) :
    (registry.remove owner key).Exact owner Live ↔
      ∀ entry, registry.entries key = some entry → ∀ place other, place ≠ key →
        registry.entries place = some other → owner other = owner entry → ¬ Live other := by
  cases present : registry.entries key with
  | none =>
    rw [remove_absent present]
    simp [exact]
  | some entry =>
    constructor
    · intro after entry' same place other apart stored owned live
      cases same
      obtain ⟨found, read⟩ := (after (owner entry)).2 place other
        ((remove_entries_iff present).mpr ⟨apart, stored⟩) owned live
      rw [find_remove_owner present] at read
      cases read
    · intro sole who
      by_cases same : who = owner entry
      · subst same
        rw [find_remove_owner present]
        constructor
        · intro found read
          cases read
        · intro place other stored owned live
          obtain ⟨apart, before⟩ := (remove_entries_iff present).mp stored
          exact absurd live (sole entry rfl place other apart before owned)
      · rw [find_remove_other tight present same]
        refine ⟨(exact who).1, ?_⟩
        intro place other stored owned live
        exact (exact who).2 place other ((remove_entries_iff present).mp stored).2 owned live

theorem remove_tight (tight : registry.Tight owner) : (registry.remove owner key).Tight owner := by
  cases present : registry.entries key with
  | none =>
    rw [remove_absent present]
    exact tight
  | some entry =>
    intro who place pointed
    rw [remove_index present] at pointed
    by_cases same : who = owner entry
    · rw [same, Function.update_self] at pointed
      cases pointed
    · rw [Function.update_of_ne same] at pointed
      obtain ⟨found, stored, owned⟩ := tight who place pointed
      have apart := remove_elsewhere tight present same pointed
      exact ⟨found, (remove_entries_iff present).mpr ⟨apart, stored⟩, owned⟩

end Registry

end CeruleanLedger.ReverseIndex
