import CeruleanLedger.BlockStore
import CeruleanLedger.PaddedNumerals
import CeruleanLedger.TextFields
import CeruleanLedger.VersionedState

/-!
World-state snapshots of `storage/snapshot.rs`: a file with one line
`key TAB version TAB base64(data)` for each entry. File operations are taken
to succeed. The base64 engine and the text of its errors are the library's own and are
arguments, as are the digest and the clock.
-/

namespace CeruleanLedger.Snapshot

open ByteCodec BlockStore VersionedState TextFields PaddedNumerals

structure StateSnapshot where
  snapshotId : String
  channelId : String
  blockHeight : UInt64
  createdAt : UInt64
  stateHash : Hash32
  entryCount : UInt64
  deriving DecidableEq

/-- What a snapshot needs of base64: decoding inverts encoding, and a text with
a tab or a line end is refused. -/
structure Base64 extends Codec Bytes String where
  refused : ∀ {text bytes}, decode text = some bytes →
    ∀ char ∈ text.toList, char ∉ ['\t', '\n', '\r']

/-- Hexadecimal text keeps to these laws. -/
instance : Inhabited Base64 := ⟨⟨hexEncode, hexDecode, hex_decode_encode⟩, by
  intro text bytes decoded char member
  have digit := read_nibbles_digits decoded char member
  rintro foreign
  fin_cases foreign <;> cases digit⟩

structure Library where
  base64 : Base64
  sha256 : Bytes → Hash32
  decodeError : String → String
  clock : Clock
  now : UInt64

def entryLine (library : Library) (entry : String × VersionedValue) : String :=
  entry.1 ++ "\t" ++ toString entry.2.version ++ "\t" ++ library.base64.encode entry.2.data ++ "\n"

def rangeEnd : String := "\uffff"

/-- The file content and the metadata; `none` if the range scan panics. -/
def createSnapshot (library : Library) (store : Store) (state : WorldState)
    (channelId : String) : Option (String × StateSnapshot) :=
  let height := store.getLatestHeight
  (state.getRange "" rangeEnd).map fun entries =>
    let lines := entries.map (entryLine library)
    (String.join lines,
      { snapshotId := channelId ++ "-" ++ toString height
        channelId
        blockHeight := height
        createdAt := library.now
        stateHash := library.sha256 (lines.flatMap utf8)
        entryCount := UInt64.ofNat entries.length })

/-- One line: a line that has not three fields is passed over, and the version
field is not read. -/
def restoreLine (library : Library) (state : WorldState) (line : List Char) :
    Except StorageError (WorldState × Nat) :=
  match splitn '\t' 3 line with
  | [key, _, text] =>
    match library.base64.decode (String.ofList text) with
    | none =>
      .error (.other ("base64 decode error: " ++ library.decodeError (String.ofList text)))
    | some data => .ok (state.put library.clock (String.ofList key) data, 1)
  | _ => .ok (state, 0)

def restoreLines (library : Library) (state : WorldState) :
    List (List Char) → Except StorageError (WorldState × Nat)
  | [] => .ok (state, 0)
  | line :: rest =>
    match restoreLine library state line with
    | .error reason => .error reason
    | .ok (state, count) =>
      match restoreLines library state rest with
      | .error reason => .error reason
      | .ok (state, more) => .ok (state, count + more)

/-- `fileStem` and `directory` are the parts of the path, if it has them. -/
def restoreSnapshot (library : Library) (fileStem directory : Option String)
    (content : String) (state : WorldState) :
    Except StorageError (WorldState × StateSnapshot) :=
  let read := lines content.toList
  let stem := fileStem.getD "unknown"
  let channelId := directory.getD "unknown"
  match restoreLines library state read with
  | .error reason => .error reason
  | .ok (state, count) =>
    .ok (state,
      { snapshotId := channelId ++ "-" ++ stem
        channelId
        blockHeight := (parseU64 stem).getD 0
        createdAt := library.now
        stateHash := library.sha256 (read.flatMap fun line => utf8 (String.ofList line ++ "\n"))
        entryCount := UInt64.ofNat count })

/-- Restoring the created file into an empty state gives back every entry with
its version, the entry count and the state hash. -/
def RoundTrips (library : Library) (store : Store) (channelId : String)
    (fileStem directory : Option String) (state : MemoryWorldState) : Prop :=
  ∃ content made restored found,
    createSnapshot library store (.memory state) channelId = some (content, made) ∧
    restoreSnapshot library fileStem directory content WorldState.new = .ok (restored, found) ∧
    (∀ key, restored.get key = state.inner[key]?) ∧
    found.entryCount = made.entryCount ∧ found.stateHash = made.stateHash

end CeruleanLedger.Snapshot
