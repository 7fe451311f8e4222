import CeruleanLedger.GuardedRun
import CeruleanLedger.IterationOrder
import CeruleanLedger.OrderedMap
import CeruleanLedger.ReverseIndex

/-!
The alias registry of `storage/adapters.rs` and `storage/memory.rs`. RocksDB keeps an alias at
its commitment, and the commitment at `did:` and the DID, in one column family. JSON and UTF-8
are a codec that reads back what it wrote; every database operation is taken to succeed.
-/

namespace CeruleanLedger.AliasRegistry

open GuardedRun IterationOrder OrderedMap ReverseIndex

structure AliasEntry where
  commitment : String
  did : String
  salt : String
  encryptedAlias : String
  registeredAt : UInt64
  status : String
  revokedAt : Option UInt64
  deriving DecidableEq

inductive ReadError where
  | keyNotFound (key : String)
  | deserializationError (reason : String)
  deriving DecidableEq

structure Codec (Value : Type) where
  encode : AliasEntry → Value
  decode : Value → Except String AliasEntry
  text : String → Value
  readText : Value → Except String String
  decode_encode : ∀ entry, decode (encode entry) = .ok entry
  read_text : ∀ commitment, readText (text commitment) = .ok commitment

abbrev Rows (Value : Type) := Std.ExtTreeMap String Value

abbrev Aliases := Std.ExtTreeMap String AliasEntry

def didKey (did : String) : String := "did:" ++ did

/-- Not one of the keys of the reverse index. -/
def Plain (commitment : String) : Prop := ¬ "did:".toList <+: commitment.toList
  deriving Decidable

section Stores

variable {Value : Type} (codec : Codec Value)

def writeAlias (rows : Rows Value) (entry : AliasEntry) : Rows Value :=
  (rows.insert entry.commitment (codec.encode entry)).insert (didKey entry.did)
    (codec.text entry.commitment)

def readAlias (rows : Rows Value) (commitment : String) : Except ReadError AliasEntry :=
  match rows[commitment]? with
  | none => .error (.keyNotFound ("alias:" ++ commitment))
  | some data =>
    match codec.decode data with
    | .error reason => .error (.deserializationError reason)
    | .ok entry => .ok entry

/-- The status of the alias is not looked at. -/
def readAliasByDid (rows : Rows Value) (did : String) : Except ReadError AliasEntry :=
  match rows[didKey did]? with
  | none => .error (.keyNotFound ("alias for DID:" ++ did))
  | some data =>
    match codec.readText data with
    | .error reason => .error (.deserializationError reason)
    | .ok commitment => readAlias codec rows commitment

def deleteAlias (rows : Rows Value) (commitment : String) : Rows Value :=
  match readAlias codec rows commitment with
  | .ok entry => (rows.erase (didKey entry.did)).erase commitment
  | .error _ => rows.erase commitment

def memoryReadAliasByDid (order : Arrangement AliasEntry) (aliases : Aliases) (did : String) :
    Except ReadError AliasEntry :=
  match (order.arrange (aliases.toList.map Prod.snd)).find?
      fun entry => entry.did = did ∧ entry.status = "active" with
  | none => .error (.keyNotFound ("alias for DID:" ++ did))
  | some entry => .ok entry

inductive AliasCall where
  | write (entry : AliasEntry)
  | delete (commitment : String)

def AliasCall.IsPlain : AliasCall → Prop
  | .write entry => Plain entry.commitment
  | .delete commitment => Plain commitment

instance : ∀ call : AliasCall, Decidable call.IsPlain
  | .write entry => inferInstanceAs (Decidable (Plain entry.commitment))
  | .delete commitment => inferInstanceAs (Decidable (Plain commitment))

def apply (rows : Rows Value) : AliasCall → Rows Value
  | .write entry => writeAlias codec rows entry
  | .delete commitment => deleteAlias codec rows commitment

def memoryApply (aliases : Aliases) : AliasCall → Aliases
  | .write entry => aliases.insert entry.commitment entry
  | .delete commitment => aliases.erase commitment

def Live (rows : Rows Value) (did : String) (entry : AliasEntry) : Prop :=
  Plain entry.commitment ∧ readAlias codec rows entry.commitment = .ok entry ∧
    entry.did = did ∧ entry.status = "active"

/-- The lookup of each DID succeeds if it has an active alias, and returns one. -/
def Exact (rows : Rows Value) : Prop :=
  ∀ did, (∀ entry, readAliasByDid codec rows did = .ok entry → Live codec rows did entry) ∧
    ∀ entry, Live codec rows did entry → ∃ found, readAliasByDid codec rows did = .ok found

/-- What keeps the lookups exact. A written alias is active, and does not take the
place of the one that is found for another DID. A deleted alias is the only active
one of its DID. -/
def Keeps (rows : Rows Value) : AliasCall → Prop
  | .write entry => entry.status = "active" ∧
      ∀ old, readAlias codec rows entry.commitment = .ok old → old.did ≠ entry.did →
        readAliasByDid codec rows old.did ≠ .ok old
  | .delete commitment => ∀ entry, readAlias codec rows commitment = .ok entry →
      ∀ other, Live codec rows entry.did other → other.commitment = commitment

structure Formed (rows : Rows Value) : Prop where
  alias_rows : ∀ commitment value, Plain commitment → rows[commitment]? = some value →
    ∃ entry, value = codec.encode entry ∧ entry.commitment = commitment
  index_rows : ∀ did value, rows[didKey did]? = some value →
    ∃ commitment, value = codec.text commitment ∧ Plain commitment

def registry (rows : Rows Value) : Registry String String AliasEntry where
  entries commitment :=
    if Plain commitment then (readAlias codec rows commitment).toOption else none
  index did := rows[didKey did]?.bind fun value => (codec.readText value).toOption

end Stores

theorem did_key_inj {did other : String} : didKey did = didKey other ↔ did = other := by
  rw [didKey, didKey, ← String.toList_inj, String.toList_append, String.toList_append,
    List.append_cancel_left_eq, String.toList_inj]

theorem plain_ne_did_key {commitment : String} (plain : Plain commitment) (did : String) :
    commitment ≠ didKey did := by
  rintro rfl
  apply plain
  rw [didKey, String.toList_append]
  exact List.prefix_append _ _

section Registry

variable {Value : Type} {codec : Codec Value} {rows : Rows Value}
variable {commitment : String} {entry : AliasEntry}

theorem read_alias_encoded (stored : rows[commitment]? = some (codec.encode entry)) :
    readAlias codec rows commitment = .ok entry := by
  rw [readAlias, stored]
  simp only [codec.decode_encode]

theorem read_alias_absent (absent : rows[commitment]? = none) :
    readAlias codec rows commitment = .error (.keyNotFound ("alias:" ++ commitment)) := by
  rw [readAlias, absent]

theorem read_alias_congr {other : Rows Value} {commitment : String}
    (same : other[commitment]? = rows[commitment]?) :
    readAlias codec other commitment = readAlias codec rows commitment := by
  rw [readAlias, readAlias, same]

/-- Each commitment is free or has an alias that is read back. -/
theorem alias_cases (formed : Formed codec rows) (plain : Plain commitment) :
    rows[commitment]? = none ∨ ∃ entry, entry.commitment = commitment ∧
      rows[commitment]? = some (codec.encode entry) := by
  cases stored : rows[commitment]? with
  | none => exact Or.inl rfl
  | some value =>
    obtain ⟨entry, rfl, same⟩ := formed.alias_rows commitment value plain stored
    exact Or.inr ⟨entry, same, rfl⟩

theorem entries_iff :
    (registry codec rows).entries commitment = some entry ↔
      Plain commitment ∧ readAlias codec rows commitment = .ok entry := by
  by_cases plain : Plain commitment
  · simp only [registry, plain, true_and]
    cases readAlias codec rows commitment with
    | error reason => simp [Except.toOption]
    | ok found => simp [Except.toOption]
  · simp [registry, plain]

theorem stored_commitment (formed : Formed codec rows)
    (stored : (registry codec rows).entries commitment = some entry) :
    entry.commitment = commitment := by
  obtain ⟨plain, read⟩ := entries_iff.mp stored
  rcases alias_cases formed plain with absent | ⟨found, same, encoded⟩
  · rw [read_alias_absent absent] at read
    cases read
  · rw [read_alias_encoded encoded] at read
    cases read
    exact same

theorem find_iff (formed : Formed codec rows) {did : String} :
    (registry codec rows).find did = some entry ↔ readAliasByDid codec rows did = .ok entry := by
  cases pointed : rows[didKey did]? with
  | none => simp [Registry.find, registry, readAliasByDid, pointed]
  | some value =>
    obtain ⟨commitment, rfl, plain⟩ := formed.index_rows did value pointed
    have index : (registry codec rows).index did = some commitment := by
      simp [registry, pointed, codec.read_text, Except.toOption]
    rw [Registry.find, index, Option.bind_some, entries_iff, readAliasByDid, pointed]
    simp only [codec.read_text, plain, true_and]

theorem live_iff (formed : Formed codec rows) {did : String} :
    Live codec rows did entry ↔ ∃ commitment,
      (registry codec rows).entries commitment = some entry ∧ entry.did = did ∧
        entry.status = "active" := by
  constructor
  · rintro ⟨plain, read, owned, active⟩
    exact ⟨_, entries_iff.mpr ⟨plain, read⟩, owned, active⟩
  · rintro ⟨commitment, stored, owned, active⟩
    have same := stored_commitment formed stored
    subst same
    obtain ⟨plain, read⟩ := entries_iff.mp stored
    exact ⟨plain, read, owned, active⟩

theorem exact_iff (formed : Formed codec rows) :
    Exact codec rows ↔
      (registry codec rows).Exact AliasEntry.did (fun entry => entry.status = "active") := by
  constructor
  · intro exact did
    constructor
    · intro entry found
      exact ((exact did).1 entry ((find_iff formed).mp found)).2.2
    · intro commitment entry stored owned active
      obtain ⟨found, read⟩ := (exact did).2 entry
        ((live_iff formed).mpr ⟨commitment, stored, owned, active⟩)
      exact ⟨found, (find_iff formed).mpr read⟩
  · intro exact did
    constructor
    · intro entry read
      have found := (find_iff formed).mpr read
      obtain ⟨commitment, _, stored⟩ := Option.bind_eq_some_iff.mp found
      exact (live_iff formed).mpr ⟨commitment, stored, (exact did).1 entry found⟩
    · intro entry live
      obtain ⟨commitment, stored, owned, active⟩ := (live_iff formed).mp live
      obtain ⟨found, read⟩ := (exact did).2 commitment entry stored owned active
      exact ⟨found, (find_iff formed).mp read⟩

end Registry

section Writes

variable {Value : Type} {codec : Codec Value} {rows : Rows Value} {entry : AliasEntry}

theorem write_alias_row {commitment : String} (plain : Plain commitment) :
    (writeAlias codec rows entry)[commitment]? =
      if entry.commitment = commitment then some (codec.encode entry) else rows[commitment]? := by
  rw [writeAlias, get_insert, if_neg (plain_ne_did_key plain _).symm, get_insert]

theorem write_index_row (plain : Plain entry.commitment) (did : String) :
    (writeAlias codec rows entry)[didKey did]? =
      if entry.did = did then some (codec.text entry.commitment) else rows[didKey did]? := by
  rw [writeAlias, get_insert, get_insert, if_neg (plain_ne_did_key plain did)]
  simp only [did_key_inj]

theorem registry_write (plain : Plain entry.commitment) :
    registry codec (writeAlias codec rows entry) =
      (registry codec rows).put AliasEntry.did entry.commitment entry := by
  apply Registry.ext
  · funext commitment
    rw [Registry.put_entries]
    by_cases same : commitment = entry.commitment
    · subst same
      rw [Function.update_self, entries_iff]
      exact ⟨plain, read_alias_encoded (by rw [write_alias_row plain, if_pos rfl])⟩
    · rw [Function.update_of_ne same]
      by_cases other : Plain commitment
      · have read := @read_alias_congr Value codec rows (writeAlias codec rows entry) commitment
          (by rw [write_alias_row other, if_neg (Ne.symm same)])
        simp only [registry, read]
      · simp only [registry, if_neg other]
  · funext did
    rw [Registry.put_index]
    by_cases same : did = entry.did
    · subst same
      simp [registry, write_index_row plain, codec.read_text, Except.toOption]
    · rw [Function.update_of_ne same]
      simp only [registry, write_index_row plain, if_neg (Ne.symm same)]

theorem formed_write (formed : Formed codec rows) (plain : Plain entry.commitment) :
    Formed codec (writeAlias codec rows entry) where
  alias_rows := by
    intro commitment value other stored
    rw [write_alias_row other] at stored
    split at stored
    · next same =>
      cases stored
      exact ⟨entry, rfl, same⟩
    · exact formed.alias_rows commitment value other stored
  index_rows := by
    intro did value stored
    rw [write_index_row plain] at stored
    split at stored
    · cases stored
      exact ⟨entry.commitment, rfl, plain⟩
    · exact formed.index_rows did value stored

end Writes

section Deletions

variable {Value : Type} {codec : Codec Value} {rows : Rows Value} {commitment : String}

variable {entry : AliasEntry}

theorem delete_absent (absent : rows[commitment]? = none) :
    deleteAlias codec rows commitment = rows := by
  rw [deleteAlias, read_alias_absent absent]
  apply Std.ExtTreeMap.ext_getElem?
  intro other
  rw [get_erase]
  split
  · next same => rw [← same, absent]
  · rfl

theorem delete_alias_row (stored : rows[commitment]? = some (codec.encode entry)) {other : String}
    (plain : Plain other) : (deleteAlias codec rows commitment)[other]? =
      if commitment = other then none else rows[other]? := by
  rw [deleteAlias, read_alias_encoded stored]
  dsimp only
  rw [get_erase, get_erase, if_neg (plain_ne_did_key plain _).symm]

theorem delete_index_row (plain : Plain commitment)
    (stored : rows[commitment]? = some (codec.encode entry)) (did : String) :
    (deleteAlias codec rows commitment)[didKey did]? =
      if entry.did = did then none else rows[didKey did]? := by
  rw [deleteAlias, read_alias_encoded stored]
  dsimp only
  rw [get_erase, get_erase, if_neg (plain_ne_did_key plain did)]
  simp only [did_key_inj]

theorem registry_delete (formed : Formed codec rows) (plain : Plain commitment) :
    registry codec (deleteAlias codec rows commitment) =
      (registry codec rows).remove AliasEntry.did commitment := by
  rcases alias_cases formed plain with absent | ⟨entry, _, stored⟩
  · have missing : (registry codec rows).entries commitment = none := by
      simp only [registry, read_alias_absent absent, Except.toOption, ite_self]
    rw [delete_absent absent, Registry.remove_absent missing]
  · have present : (registry codec rows).entries commitment = some entry :=
      entries_iff.mpr ⟨plain, read_alias_encoded stored⟩
    apply Registry.ext
    · funext other
      rw [Registry.remove_entries present]
      by_cases same : other = commitment
      · subst same
        have gone : (deleteAlias codec rows other)[other]? = none := by
          rw [delete_alias_row stored plain, if_pos rfl]
        rw [Function.update_self]
        simp only [registry, read_alias_absent gone, Except.toOption, ite_self]
      · rw [Function.update_of_ne same]
        by_cases apart : Plain other
        · have read := @read_alias_congr Value codec rows (deleteAlias codec rows commitment) other
            (by rw [delete_alias_row stored apart, if_neg (Ne.symm same)])
          simp only [registry, read]
        · simp only [registry, if_neg apart]
    · funext did
      rw [Registry.remove_index present]
      by_cases same : did = entry.did
      · subst same
        simp [registry, delete_index_row plain stored]
      · rw [Function.update_of_ne same]
        simp only [registry, delete_index_row plain stored, if_neg (Ne.symm same)]

theorem formed_delete (formed : Formed codec rows) (plain : Plain commitment) :
    Formed codec (deleteAlias codec rows commitment) := by
  rcases alias_cases formed plain with absent | ⟨entry, _, encoded⟩
  · rw [delete_absent absent]
    exact formed
  · constructor
    · intro other value apart stored
      rw [delete_alias_row encoded apart] at stored
      split at stored
      · cases stored
      · exact formed.alias_rows other value apart stored
    · intro did value stored
      rw [delete_index_row plain encoded] at stored
      split at stored
      · cases stored
      · exact formed.index_rows did value stored

end Deletions

variable {Value : Type} {codec : Codec Value} {rows : Rows Value} {call : AliasCall}

def registryApply (current : Registry String String AliasEntry) :
    AliasCall → Registry String String AliasEntry
  | .write entry => current.put AliasEntry.did entry.commitment entry
  | .delete commitment => current.remove AliasEntry.did commitment

theorem apply_registry (formed : Formed codec rows) (plain : call.IsPlain) :
    Formed codec (apply codec rows call) ∧
      registry codec (apply codec rows call) = registryApply (registry codec rows) call := by
  cases call with
  | write entry => exact ⟨formed_write formed plain, registry_write plain⟩
  | delete commitment => exact ⟨formed_delete formed plain, registry_delete formed plain⟩

theorem write_keeps_iff (formed : Formed codec rows) {entry old : AliasEntry}
    (stored : (registry codec rows).entries entry.commitment = some old) :
    (registry codec rows).index old.did = some entry.commitment ↔
      readAliasByDid codec rows old.did = .ok old := by
  rw [← find_iff formed, Registry.find, Option.bind_eq_some_iff]
  constructor
  · intro pointed
    exact ⟨entry.commitment, pointed, stored⟩
  · rintro ⟨commitment, pointed, found⟩
    rw [pointed, ← stored_commitment formed found, stored_commitment formed stored]

theorem apply_exact_iff (formed : Formed codec rows) (plain : call.IsPlain)
    (tight : (registry codec rows).Tight AliasEntry.did) (exact : Exact codec rows) :
    Exact codec (apply codec rows call) ↔ Keeps codec rows call := by
  obtain ⟨formed', applied⟩ := apply_registry formed plain
  rw [exact_iff formed', applied]
  rw [exact_iff formed] at exact
  cases call with
  | write entry =>
    rw [registryApply, Registry.put_exact_iff tight exact, Keeps]
    refine and_congr Iff.rfl (forall_congr' fun old => ?_)
    constructor
    · intro moved read other found
      have stored := entries_iff.mpr ⟨plain, read⟩
      exact moved stored other ((write_keeps_iff formed stored).mpr found)
    · intro moved stored other pointed
      exact moved (entries_iff.mp stored).2 other ((write_keeps_iff formed stored).mp pointed)
  | delete commitment =>
    rw [registryApply, Registry.remove_exact_iff tight exact, Keeps]
    refine forall_congr' fun entry => ?_
    constructor
    · intro sole read other live
      by_contra apart
      obtain ⟨place, stored, owned, active⟩ := (live_iff formed).mp live
      rw [stored_commitment formed stored] at apart
      exact sole (entries_iff.mpr ⟨plain, read⟩) place other apart stored owned active
    · intro sole stored place other apart found owned active
      apply apart
      rw [← stored_commitment formed found]
      exact sole (entries_iff.mp stored).2 other ((live_iff formed).mpr
        ⟨place, found, owned, active⟩)

theorem apply_tight (formed : Formed codec rows) (plain : call.IsPlain)
    (tight : (registry codec rows).Tight AliasEntry.did)
    (after : Exact codec (apply codec rows call)) :
    (registry codec (apply codec rows call)).Tight AliasEntry.did := by
  obtain ⟨formed', applied⟩ := apply_registry formed plain
  rw [exact_iff formed', applied] at after
  rw [applied]
  cases call with
  | write entry => exact Registry.put_tight tight after
  | delete commitment => exact Registry.remove_tight tight

theorem formed_empty : Formed codec (∅ : Rows Value) where
  alias_rows := by simp
  index_rows := by simp

section Memory

variable {aliases : Aliases}

def Mirrors (codec : Codec Value) (rows : Rows Value) (aliases : Aliases) : Prop :=
  ∀ commitment, aliases[commitment]? = (registry codec rows).entries commitment

theorem mirrors_apply (formed : Formed codec rows) (plain : call.IsPlain)
    (mirrors : Mirrors codec rows aliases) :
    Mirrors codec (apply codec rows call) (memoryApply aliases call) := by
  intro commitment
  rw [(apply_registry formed plain).2]
  cases call with
  | write entry =>
    rw [registryApply, Registry.put_entries, memoryApply, get_insert, mirrors,
      Function.update_apply]
    simp only [eq_comm]
  | delete target =>
    rw [registryApply, memoryApply, get_erase, mirrors]
    cases stored : (registry codec rows).entries target with
    | none =>
      rw [Registry.remove_absent stored]
      split
      · next same => rw [← same, stored]
      · rfl
    | some entry =>
      rw [Registry.remove_entries stored, Function.update_apply]
      simp only [eq_comm]

theorem mirrors_run (calls : List AliasCall) (plain : ∀ call ∈ calls, call.IsPlain) :
    Formed codec (calls.foldl (apply codec) ∅) ∧
      Mirrors codec (calls.foldl (apply codec) ∅) (calls.foldl memoryApply ∅) := by
  have along : ∀ (rows : Rows Value) (aliases : Aliases), Formed codec rows →
      Mirrors codec rows aliases → Formed codec (calls.foldl (apply codec) rows) ∧
        Mirrors codec (calls.foldl (apply codec) rows) (calls.foldl memoryApply aliases) := by
    induction calls with
    | nil =>
      intro rows aliases formed mirrors
      exact ⟨formed, mirrors⟩
    | cons call rest ih =>
      intro rows aliases formed mirrors
      obtain ⟨here, later⟩ := List.forall_mem_cons.mp plain
      exact ih later _ _ (apply_registry formed here).1 (mirrors_apply formed here mirrors)
  apply along ∅ ∅ formed_empty
  intro commitment
  simp [registry, readAlias, Except.toOption]

theorem memory_exact (formed : Formed codec rows) (mirrors : Mirrors codec rows aliases)
    (order : Arrangement AliasEntry) (did : String) :
    (∀ entry, memoryReadAliasByDid order aliases did = .ok entry → Live codec rows did entry) ∧
      ∀ entry, Live codec rows did entry →
        ∃ found, memoryReadAliasByDid order aliases did = .ok found := by
  have listed : ∀ entry, entry ∈ order.arrange (aliases.toList.map Prod.snd) ↔
      ∃ commitment, (registry codec rows).entries commitment = some entry := by
    intro entry
    rw [Arrangement.mem_arrange, List.mem_map]
    constructor
    · rintro ⟨⟨commitment, _⟩, entered, rfl⟩
      rw [Std.ExtTreeMap.mem_toList_iff_getElem?_eq_some, mirrors] at entered
      exact ⟨commitment, entered⟩
    · rintro ⟨commitment, stored⟩
      rw [← mirrors] at stored
      exact ⟨(commitment, entry), Std.ExtTreeMap.mem_toList_iff_getElem?_eq_some.mpr stored, rfl⟩
  unfold memoryReadAliasByDid
  cases searched : (order.arrange (aliases.toList.map Prod.snd)).find?
      fun entry => entry.did = did ∧ entry.status = "active" with
  | none =>
    constructor
    · intro entry read
      cases read
    · intro entry live
      obtain ⟨commitment, stored, owned, active⟩ := (live_iff formed).mp live
      have missed := List.find?_eq_none.mp searched entry
        ((listed entry).mpr ⟨commitment, stored⟩)
      simp [owned, active] at missed
  | some found =>
    refine ⟨?_, fun _ _ => ⟨found, rfl⟩⟩
    intro entry read
    cases read
    obtain ⟨commitment, stored⟩ := (listed found).mp (List.mem_of_find?_eq_some searched)
    have active := List.find?_some searched
    rw [decide_eq_true_eq] at active
    exact (live_iff formed).mpr ⟨commitment, stored, active⟩

end Memory

/-- The reverse lookup of the rows is exact after every call if and only if all
calls meet `Keeps`. That of `MemoryStore` always is, for any order of its aliases. -/
theorem reverse_lookup_iff (codec : Codec Value) (calls : List AliasCall)
    (plain : ∀ call ∈ calls, call.IsPlain) :
    ((∀ count, Exact codec ((calls.take count).foldl (apply codec) ∅)) ↔
      AllMeet (apply codec) (Keeps codec) ∅ calls) ∧
    ∀ order did,
      (∀ entry, memoryReadAliasByDid order (calls.foldl memoryApply ∅) did = .ok entry →
        Live codec (calls.foldl (apply codec) ∅) did entry) ∧
      ∀ entry, Live codec (calls.foldl (apply codec) ∅) did entry →
        ∃ found, memoryReadAliasByDid order (calls.foldl memoryApply ∅) did = .ok found := by
  obtain ⟨formed, mirrors⟩ := @mirrors_run Value codec calls plain
  refine ⟨?_, memory_exact formed mirrors⟩
  apply prefixes_hold_ahead_iff
    (fun rows calls => Formed codec rows ∧ (registry codec rows).Tight AliasEntry.did ∧
      ∀ call ∈ calls, call.IsPlain) (Exact codec)
  · rintro rows call rest ⟨formed, tight, plain⟩ _ after
    obtain ⟨here, later⟩ := List.forall_mem_cons.mp plain
    exact ⟨(apply_registry formed here).1, apply_tight formed here tight after, later⟩
  · rintro rows call rest ⟨formed, tight, plain⟩ exact
    exact apply_exact_iff formed (plain call List.mem_cons_self) tight exact
  · refine ⟨formed_empty, ?_, plain⟩
    intro did commitment pointed
    simp [registry] at pointed
  · intro did
    simp [readAliasByDid, Live, readAlias]

def plainCodec : Codec (String ⊕ AliasEntry) where
  encode := .inr
  decode
    | .inr entry => .ok entry
    | .inl _ => .error "expected an alias"
  text := .inl
  readText
    | .inl commitment => .ok commitment
    | .inr _ => .error "expected a commitment"
  decode_encode _ := rfl
  read_text _ := rfl

def sampleAlias (commitment did status : String) : AliasEntry :=
  ⟨commitment, did, "salt", "blob", 0, status, none⟩

def twoAliases : List AliasCall :=
  [.write (sampleAlias "c1" "d1" "active"), .write (sampleAlias "c2" "d2" "active")]

theorem two_aliases_found : Exact plainCodec (twoAliases.foldl (apply plainCodec) ∅) := by
  have first : readAlias plainCodec ∅ "c1" = .error (.keyNotFound "alias:c1") := by decide +kernel
  have second : readAlias plainCodec (writeAlias plainCodec ∅ (sampleAlias "c1" "d1" "active"))
      "c2" = .error (.keyNotFound "alias:c2") := by decide +kernel
  apply (reverse_lookup_iff plainCodec twoAliases (by decide)).1.mpr _ 2
  refine ⟨⟨rfl, ?_⟩, ⟨rfl, ?_⟩, trivial⟩
  · intro old read
    cases first.symm.trans read
  · intro old read
    cases second.symm.trans read

/-- A revoked alias is found; the alias left to a DID is not, after another one is
deleted; and an alias moved to another DID is found for both. -/
theorem wrong_aliases_found :
    readAliasByDid plainCodec ([AliasCall.write (sampleAlias "c1" "d1" "revoked")].foldl
        (apply plainCodec) ∅) "d1" = .ok (sampleAlias "c1" "d1" "revoked") ∧
    readAliasByDid plainCodec ([AliasCall.write (sampleAlias "c1" "d1" "active"),
        .write (sampleAlias "c2" "d1" "active"), .delete "c2"].foldl (apply plainCodec) ∅) "d1" =
      .error (.keyNotFound "alias for DID:d1") ∧
    readAliasByDid plainCodec ([AliasCall.write (sampleAlias "c1" "d1" "active"),
        .write (sampleAlias "c1" "d2" "active")].foldl (apply plainCodec) ∅) "d1" =
      .ok (sampleAlias "c1" "d2" "active") := by
  decide +kernel

end CeruleanLedger.AliasRegistry
