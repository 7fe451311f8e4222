import CeruleanLedger.Mvcc
import CeruleanLedger.Snapshot

/-!
When a snapshot gives back the state it was taken from. The keys are written
unescaped, so a key with a tab or a line feed breaks its own line; versions
are assigned anew; and the range scan ends below U+FFFF.
-/

namespace CeruleanLedger.SnapshotRoundTrip

open ByteCodec BlockStore VersionedState Mvcc OrderedMap TextFields PaddedNumerals Snapshot

section Lines

variable (library : Library)

def entryChars (entry : String × VersionedValue) : List Char :=
  entry.1.toList ++ '\t' ::
    ((toString entry.2.version).toList ++ '\t' :: (library.base64.encode entry.2.data).toList)

theorem entry_line_chars (entry : String × VersionedValue) :
    (entryLine library entry).toList = entryChars library entry ++ ['\n'] := by
  simp [entryLine, entryChars]

theorem of_list_entry_chars (entry : String × VersionedValue) :
    String.ofList (entryChars library entry) ++ "\n" = entryLine library entry := by
  apply String.toList_inj.mp
  rw [String.toList_append, String.toList_ofList, entry_line_chars]
  rfl

theorem version_plain {char : Char} (foreign : char.isDigit = false) (version : UInt64) :
    char ∉ (toString version).toList := by
  intro member
  rw [decimal_digits version char member] at foreign
  cases foreign

theorem encoded_plain {char : Char} (foreign : char ∈ ['\t', '\n', '\r']) (data : Bytes) :
    char ∉ (library.base64.encode data).toList :=
  fun member => library.base64.refused (library.base64.roundTrip data) char member foreign

/-- Only the key can bring a line feed into a line. -/
theorem entry_chars_plain {entry : String × VersionedValue} (plain : '\n' ∉ entry.1.toList) :
    '\n' ∉ entryChars library entry ∧ (entryChars library entry).getLast? ≠ some '\r' := by
  constructor
  · simp only [entryChars, List.mem_append, List.mem_cons, not_or]
    exact ⟨plain, by decide, version_plain (by decide) _, by decide,
      encoded_plain library (by decide) _⟩
  · intro last
    -- The line ends in base64 or, without data, in the second tab.
    have tail : (entryChars library entry).getLast? =
        ('\t' :: (library.base64.encode entry.2.data).toList).getLast? := by
      rw [entryChars, List.getLast?_append_cons, ← List.cons_append, List.getLast?_append_cons]
    rw [tail] at last
    have member := List.mem_of_getLast? last
    rcases List.mem_cons.mp member with same | inside
    · exact absurd same (by decide)
    · exact encoded_plain library (by decide) _ inside

theorem lines_of_entries {entries : List (String × VersionedValue)}
    (plain : ∀ entry ∈ entries, '\n' ∉ entry.1.toList) :
    lines (String.join (entries.map (entryLine library))).toList = entries.map (entryChars library) := by
  have content : (String.join (entries.map (entryLine library))).toList =
      (entries.map (entryChars library)).flatMap fun line => line ++ ['\n'] := by
    rw [String.toList_join, List.flatMap_map, List.flatMap_map]
    apply List.flatMap_congr
    intro entry _
    exact entry_line_chars library entry
  rw [content]
  apply lines_flat_map
  intro line member
  obtain ⟨entry, listed, same⟩ := List.mem_map.mp member
  rw [← same]
  exact entry_chars_plain library (plain entry listed)

end Lines

section Restoring

variable (library : Library)
variable (state : WorldState) {entries : List (String × VersionedValue)}
  {outcome : WorldState × Nat}

theorem restore_entry {entry : String × VersionedValue} (plain : '\t' ∉ entry.1.toList) :
    restoreLine library state (entryChars library entry) =
      .ok (state.put library.clock entry.1 entry.2.data, 1) := by
  have fields : splitn '\t' 3 (entryChars library entry) =
      [entry.1.toList, (toString entry.2.version).toList,
        (library.base64.encode entry.2.data).toList] := by
    rw [entryChars, splitn, split_once_field plain]
    dsimp only
    rw [splitn, split_once_field (version_plain (by decide) _)]
    rfl
  rw [restoreLine, fields]
  simp only [String.ofList_toList, library.base64.roundTrip]

theorem restore_tabbed {entry : String × VersionedValue} (tabbed : '\t' ∈ entry.1.toList) :
    ∃ reason, restoreLine library state (entryChars library entry) = .error reason := by
  -- Two tabs of the format, and at least one of the key.
  have crowded : 2 < (entryChars library entry).count '\t' := by
    have present := List.count_pos_iff.mpr tabbed
    simp only [entryChars, List.count_append, List.count_cons_self]
    omega
  obtain ⟨first, second, rest, fields, inside⟩ := splitn_three_crowded crowded
  have refused : library.base64.decode (String.ofList rest) = none := by
    by_contra decoded
    obtain ⟨bytes, found⟩ := Option.ne_none_iff_exists'.mp decoded
    exact library.base64.refused found '\t' (by rwa [String.toList_ofList]) (by decide)
  rw [restoreLine, fields]
  simp only [refused]
  exact ⟨_, rfl⟩

def putEntries (state : WorldState) (entries : List (String × VersionedValue)) : WorldState :=
  entries.foldl (fun state entry => state.put library.clock entry.1 entry.2.data) state

theorem restore_entries (plain : ∀ entry ∈ entries, '\t' ∉ entry.1.toList) :
    restoreLines library state (entries.map (entryChars library)) =
      .ok (putEntries library state entries, entries.length) := by
  induction entries generalizing state with
  | nil => rfl
  | cons entry rest ih =>
    obtain ⟨here, others⟩ := List.forall_mem_cons.mp plain
    rw [List.map_cons, restoreLines, restore_entry library state here]
    dsimp only
    rw [ih _ others, List.length_cons, Nat.add_comm]
    rfl

theorem restore_lines_cons {state : WorldState} {line : List Char} {rest : List (List Char)}
    (restored : restoreLines library state (line :: rest) = .ok outcome) :
    ∃ first later, restoreLine library state line = .ok first ∧
      restoreLines library first.1 rest = .ok later ∧ outcome = (later.1, first.2 + later.2) := by
  rw [restoreLines] at restored
  cases step : restoreLine library state line with
  | error reason =>
    rw [step] at restored
    cases restored
  | ok first =>
    rw [step] at restored
    dsimp only at restored
    cases others : restoreLines library first.1 rest with
    | error reason =>
      rw [others] at restored
      cases restored
    | ok later =>
      rw [others] at restored
      cases restored
      exact ⟨first, later, rfl, others, rfl⟩

theorem tabs_refused
    (restored : restoreLines library state (entries.map (entryChars library)) = .ok outcome) :
    ∀ entry ∈ entries, '\t' ∉ entry.1.toList := by
  induction entries generalizing state outcome with
  | nil => nofun
  | cons entry rest ih =>
    obtain ⟨first, later, step, others, _⟩ := restore_lines_cons library restored
    rw [List.forall_mem_cons]
    refine ⟨?_, ih first.1 others⟩
    intro tabbed
    obtain ⟨reason, refused⟩ := restore_tabbed library state tabbed
    rw [step] at refused
    cases refused

def PlainKeys (state : WorldState) : Prop :=
  ∀ key value, state.get key = some value → '\n' ∉ key.toList

theorem restore_line_plain {state : WorldState} {line : List Char} (before : PlainKeys state)
    (plain : '\n' ∉ line) (restored : restoreLine library state line = .ok outcome) :
    PlainKeys outcome.1 := by
  unfold restoreLine at restored
  split at restored
  · rename_i key version text fields
    split at restored
    · cases restored
    · cases restored
      intro other value found
      rw [WorldState.get_put] at found
      split at found
      · rename_i same
        rw [← same, String.toList_ofList]
        exact fun inside => plain (splitn_three_mem fields inside)
      · exact before other value found
  · cases restored
    exact before

theorem restore_lines_plain {state : WorldState} {read : List (List Char)}
    (before : PlainKeys state) (plain : ∀ line ∈ read, '\n' ∉ line)
    (restored : restoreLines library state read = .ok outcome) : PlainKeys outcome.1 := by
  induction read generalizing state outcome with
  | nil =>
    cases restored
    exact before
  | cons line rest ih =>
    obtain ⟨here, others⟩ := List.forall_mem_cons.mp plain
    obtain ⟨first, later, step, more, same⟩ := restore_lines_cons library restored
    have plainLater : PlainKeys later.1 :=
      ih (restore_line_plain library before here step) others more
    rw [same]
    exact plainLater

theorem put_entries_eq (entries : List (String × VersionedValue)) :
    putEntries library state entries =
      applyWrites library.clock (entries.map fun entry => ⟨entry.1, entry.2.data⟩) state := by
  rw [putEntries, applyWrites, List.foldl_map]

theorem get_put_entries (distinct : (entries.map Prod.fst).Nodup)
    (absent : ∀ entry ∈ entries, state.get entry.1 = none) :
    (∀ entry ∈ entries, (putEntries library state entries).get entry.1 =
        some ⟨1, entry.2.data⟩) ∧
      ∀ key, key ∉ entries.map Prod.fst →
        (putEntries library state entries).get key = state.get key := by
  have keys : (entries.map fun entry => (⟨entry.1, entry.2.data⟩ : KVWrite)).map KVWrite.key =
      entries.map Prod.fst := by
    rw [List.map_map]
    rfl
  rw [put_entries_eq]
  constructor
  · intro entry member
    have version : state.versionOf entry.1 + 1 = 1 := by
      rw [WorldState.versionOf, absent entry member]
      rfl
    have written := apply_writes_get_of_mem library.clock _ state (keys ▸ distinct) _
      (List.mem_map_of_mem member)
    dsimp only at written
    rw [version] at written
    exact written
  · intro key outside
    exact apply_writes_get_of_notMem library.clock _ state key (keys ▸ outside)

end Restoring

section RoundTrip

def listed (state : MemoryWorldState) : List (String × VersionedValue) :=
  state.inner.toList.filter fun entry => inRange "" rangeEnd entry.1

variable (library : Library) (state : MemoryWorldState) (key : String)

theorem get_range_all : WorldState.getRange (.memory state) "" rangeEnd = some (listed state) := by
  rw [WorldState.getRange, MemoryWorldState.getRange, if_neg (by decide)]
  rfl

theorem mem_listed (value : VersionedValue) :
    (key, value) ∈ listed state ↔ state.inner[key]? = some value ∧ key < rangeEnd := by
  have first : ¬ key < "" := by
    rw [String.lt_iff_toList_lt]
    exact List.not_lt_nil _
  rw [listed, List.mem_filter, Std.ExtTreeMap.mem_toList_iff_getElem?_eq_some, inRange,
    Bool.and_eq_true, Bool.not_eq_true', decide_eq_false_iff_not, decide_eq_true_eq]
  exact and_congr_right fun _ => and_iff_right first

theorem listed_keys_nodup : ((listed state).map Prod.fst).Nodup :=
  (keys_nodup state.inner).sublist (List.filter_sublist.map _)

theorem new_empty : WorldState.new.get key = none := by
  simp [WorldState.new, WorldState.get, WorldState.inner]

theorem new_plain : PlainKeys WorldState.new := by
  intro key value found
  rw [new_empty] at found
  cases found

theorem get_restored_iff (value : VersionedValue) :
    (putEntries library WorldState.new (listed state)).get key = some value ↔
      ∃ stored, state.inner[key]? = some stored ∧ key < rangeEnd ∧
        value = ⟨1, stored.data⟩ := by
  obtain ⟨restored, kept⟩ := get_put_entries library WorldState.new (listed_keys_nodup state)
    (fun entry _ => new_empty entry.1)
  constructor
  · intro found
    by_cases inside : key ∈ (listed state).map Prod.fst
    · obtain ⟨entry, member, same⟩ := List.mem_map.mp inside
      have here := restored entry member
      have stored := (mem_listed state entry.1 entry.2).mp member
      rw [same] at here stored
      rw [here, Option.some.injEq] at found
      exact ⟨entry.2, stored.1, stored.2, found.symm⟩
    · rw [kept key inside, new_empty] at found
      cases found
  · rintro ⟨stored, present, scanned, same⟩
    rw [same]
    exact restored (key, stored) ((mem_listed state key stored).mpr ⟨present, scanned⟩)

def fileContent (library : Library) (state : MemoryWorldState) : String :=
  String.join ((listed state).map (entryLine library))

theorem create_snapshot_eq (store : Store) (channelId : String) (state : MemoryWorldState) :
    ∃ made, createSnapshot library store (.memory state) channelId =
        some (fileContent library state, made) ∧
      made.entryCount = UInt64.ofNat (listed state).length ∧
      made.stateHash = library.sha256 (((listed state).map (entryLine library)).flatMap utf8) := by
  rw [createSnapshot, get_range_all]
  exact ⟨_, rfl, rfl, rfl⟩

theorem hash_entries (entries : List (String × VersionedValue)) :
    ((entries.map (entryChars library)).flatMap fun line => utf8 (String.ofList line ++ "\n")) =
      (entries.map (entryLine library)).flatMap utf8 := by
  rw [List.flatMap_map, List.flatMap_map]
  apply List.flatMap_congr
  intro entry _
  rw [of_list_entry_chars]

theorem restore_snapshot_eq (fileStem directory : Option String) {state : MemoryWorldState}
    (oneLine : ∀ entry ∈ listed state, '\n' ∉ entry.1.toList)
    (oneField : ∀ entry ∈ listed state, '\t' ∉ entry.1.toList) :
    ∃ found, restoreSnapshot library fileStem directory (fileContent library state) WorldState.new =
        .ok (putEntries library WorldState.new (listed state), found) ∧
      found.entryCount = UInt64.ofNat (listed state).length ∧
      found.stateHash = library.sha256 (((listed state).map (entryLine library)).flatMap utf8) := by
  rw [restoreSnapshot, fileContent, lines_of_entries library oneLine,
    restore_entries library WorldState.new oneField, hash_entries]
  exact ⟨_, rfl, rfl, rfl⟩

/-- A restore that reproduces the keys was given a file with one line and
three fields for each entry. -/
theorem carried_of_restore (fileStem directory : Option String) {state : MemoryWorldState}
    {restored : WorldState} {found : StateSnapshot}
    (read : restoreSnapshot library fileStem directory (fileContent library state) WorldState.new =
      .ok (restored, found)) (same : ∀ key, restored.get key = state.inner[key]?) :
    (∀ (key : String) value, state.inner[key]? = some value → '\n' ∉ key.toList) ∧
      ∀ entry ∈ listed state, '\t' ∉ entry.1.toList := by
  rw [restoreSnapshot] at read
  cases outcome : restoreLines library WorldState.new (lines (fileContent library state).toList) with
  | error reason =>
    rw [outcome] at read
    cases read
  | ok final =>
    rw [outcome] at read
    cases read
    -- Restored keys are cut from lines, and those hold no line feed.
    have plain := restore_lines_plain library new_plain
      (lines_from_plain [] _ List.not_mem_nil) outcome
    have oneLine : ∀ (key : String) value, state.inner[key]? = some value → '\n' ∉ key.toList := by
      intro key value present
      exact plain key value (by rw [same]; exact present)
    refine ⟨oneLine, ?_⟩
    rw [fileContent, lines_of_entries] at outcome
    · exact tabs_refused library WorldState.new outcome
    · intro entry member
      exact oneLine _ _ ((mem_listed state entry.1 entry.2).mp member).1

end RoundTrip

/-- An entry that survives: written once since it was last absent, with a key
below the end of the scan and without a tab or a line feed. -/
structure Portable (key : String) (value : VersionedValue) : Prop where
  once : value.version = 1
  scanned : key < rangeEnd
  oneLine : '\n' ∉ key.toList
  oneField : '\t' ∉ key.toList

theorem portable_of_round_trips {library : Library} {store : Store} {channelId : String}
    {fileStem directory : Option String} {state : MemoryWorldState}
    (trips : RoundTrips library store channelId fileStem directory state) {key : String}
    {value : VersionedValue} (present : state.inner[key]? = some value) : Portable key value := by
  obtain ⟨content, made', restored, found, created', read, same, _, _⟩ := trips
  obtain ⟨made, created, _, _⟩ := create_snapshot_eq library store channelId state
  rw [created, Option.some.injEq, Prod.mk.injEq] at created'
  rw [← created'.1] at read
  obtain ⟨oneLine, oneField⟩ := carried_of_restore library fileStem directory read same
  obtain ⟨found', read', _, _⟩ := restore_snapshot_eq library fileStem directory
    (fun entry member => oneLine _ _ ((mem_listed state entry.1 entry.2).mp member).1) oneField
  rw [read', Except.ok.injEq, Prod.mk.injEq] at read
  have back : restored.get key = some value := by rw [same, present]
  rw [← read.1, get_restored_iff] at back
  obtain ⟨stored, again, scanned, equal⟩ := back
  refine ⟨by rw [equal], scanned, oneLine key value present, ?_⟩
  exact oneField (key, value) ((mem_listed state key value).mpr ⟨present, scanned⟩)

/-- A snapshot gives back the state exactly when every entry is portable. -/
theorem round_trips_iff (library : Library) (store : Store) (channelId : String)
    (fileStem directory : Option String) (state : MemoryWorldState) :
    RoundTrips library store channelId fileStem directory state ↔
      ∀ key value, state.inner[key]? = some value → Portable key value := by
  constructor
  · intro trips key value present
    exact portable_of_round_trips trips present
  · intro portable
    obtain ⟨made, created, madeCount, madeHash⟩ :=
      create_snapshot_eq library store channelId state
    have carried : ∀ entry ∈ listed state, Portable entry.1 entry.2 := by
      intro entry member
      exact portable _ _ ((mem_listed state entry.1 entry.2).mp member).1
    obtain ⟨found, read, count, hash⟩ := restore_snapshot_eq library fileStem directory
      (fun entry member => (carried entry member).oneLine)
      (fun entry member => (carried entry member).oneField)
    refine ⟨_, made, _, found, created, read, ?_, count.trans madeCount.symm,
      hash.trans madeHash.symm⟩
    intro key
    apply Option.ext
    intro value
    rw [get_restored_iff]
    constructor
    · rintro ⟨stored, present, _, equal⟩
      have once := (portable key stored present).once
      rw [present, equal, ← once]
    · intro present
      have fit := portable key value present
      exact ⟨value, present, fit.scanned, by rw [← fit.once]⟩

inductive Change where
  | put (key : String) (data : Bytes)
  | delete (key : String)

def applyChange (clock : Clock) (state : MemoryWorldState) : Change → MemoryWorldState
  | .put key data => state.put clock key data
  | .delete key => state.delete clock key

def reached (clock : Clock) (changes : List Change) : MemoryWorldState :=
  changes.foldl (applyChange clock) ⟨∅, ∅⟩

/-- No snapshot of the state that the history leaves can be restored. -/
def Lost (changes : List Change) : Prop :=
  ∀ library store channelId fileStem directory,
    ¬ RoundTrips library store channelId fileStem directory (reached library.clock changes)

/-- A second write, a tab, a line feed and a key beyond U+FFFF each break the
round trip. -/
theorem histories_not_restored :
    Lost [.put "k" [1], .put "k" [2]] ∧ Lost [.put "a\tb" [1]] ∧ Lost [.put "a\nb" [1]] ∧
      Lost [.put (String.ofList [Char.ofNat 65536]) [1]] := by
  refine ⟨?_, ?_, ?_, ?_⟩
  · intro library store channelId fileStem directory trips
    have present : (reached library.clock [.put "k" [1], .put "k" [2]]).inner["k"]? =
        some ⟨2, [2]⟩ := rfl
    exact absurd (portable_of_round_trips trips present).once (by decide)
  · intro library store channelId fileStem directory trips
    have present : (reached library.clock [.put "a\tb" [1]]).inner["a\tb"]? = some ⟨1, [1]⟩ := rfl
    exact absurd (portable_of_round_trips trips present).oneField (by decide)
  · intro library store channelId fileStem directory trips
    have present : (reached library.clock [.put "a\nb" [1]]).inner["a\nb"]? = some ⟨1, [1]⟩ := rfl
    exact absurd (portable_of_round_trips trips present).oneLine (by decide)
  · intro library store channelId fileStem directory trips
    have present : (reached library.clock
        [.put (String.ofList [Char.ofNat 65536]) [1]]).inner[String.ofList [Char.ofNat 65536]]? =
          some ⟨1, [1]⟩ := rfl
    exact absurd (portable_of_round_trips trips present).scanned (by decide)

end CeruleanLedger.SnapshotRoundTrip
