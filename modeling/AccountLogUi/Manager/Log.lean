import AccountLogUi.Crates
import AccountLogUi.Library.Hex
import Mathlib.Data.List.Sort

/-!
# What the app reads off a log

The names, keys and installations live in a log, its rows for the screen, what each entry costs of
the budget, and the entries a list of staged edits plans.
-/

namespace AccountLogUi

/-- An edit waiting for the next publish. -/
inductive StagedEdit
  | addInstallation (key : Ed25519VerifyingKey)
  | setDisplayName (name : String)
  | revoke (index : ℕ)
deriving DecidableEq

structure Name where
  index : ℕ
  value : String
deriving DecidableEq

structure Installation where
  index : ℕ
  key : String
deriving DecidableEq

/-- One row of the log table.  Also the shape of a pending entry. -/
structure EntryRow where
  index : ℕ
  kind : String
  context : Option String
  value : String
  live : Bool
  target : Option ℕ
  bytes : ℕ
  supersededBy : Option ℕ
deriving DecidableEq

/-- What the next entry of each kind will cost the budget. -/
structure EntryCosts where
  installation : ℕ
  remove : ℕ
  displayName : ℕ
deriving DecidableEq

namespace Manager

/-! ### What an update appends -/

/-- The entry a staged edit is written as. -/
def entryOf : StagedEdit → AccountEntry
  | .addInstallation key => .add signerContext (.ed25519Key key.bytes)
  | .setDisplayName name => .add displayNameContext (.text name)
  | .revoke index => .remove index

/-- The edit is a revocation. -/
def isRevoke : StagedEdit → Bool
  | .revoke _ => true
  | _ => false

/-- What an update made of `staged` would append: revocations first. -/
def plan (staged : List StagedEdit) : List AccountEntry :=
  (staged.filter isRevoke).map entryOf ++ (staged.filter (!isRevoke ·)).map entryOf

/-! ### What is live -/

variable {Addr : Type} (C : Crates Addr)

/-- Every live name, oldest first. -/
def liveDisplayNames (log : AccountLog) : List Name :=
  (C.entriesFor log displayNameContext).filterMap fun entry =>
    match entry.entry with
    | .add _ (.text value) => some ⟨entry.index, value⟩
    | _ => none

/-- The name in force: the highest-indexed live one. -/
def liveDisplayName (log : AccountLog) : Option String :=
  (liveDisplayNames C log).getLast?.map (·.value)

/-- Every key live in the log, under any context. -/
def liveKeys (draft : AccountLogDraft) : List Bytes32 :=
  (C.liveEntries draft).filterMap fun entry =>
    match entry.entry with
    | .add _ (.ed25519Key key) => some key
    | _ => none

def liveInstallations (log : AccountLog) : List Installation :=
  (C.entriesFor log signerContext).reverse.filterMap fun entry =>
    match entry.entry with
    | .add _ (.ed25519Key key) => some ⟨entry.index, String.ofList (Hex.encode key.toList)⟩
    | _ => none

/-! ### What entries cost -/

/-- `DOMAIN_BYTES`, the size of a log that has published nothing. -/
def domainBytes : ℕ := C.domain.length

/-- The payload a log holding exactly `entries` would sign, or the bare domain when this build
cannot author them. -/
def encodedSize (entries : List AccountEntry) : ℕ :=
  match C.pushAll .new entries with
  | .error _ => domainBytes C
  | .ok draft =>
    match C.encode draft.log with
    | .error _ => domainBytes C
    | .ok payload => payload.length

/-- A display name of no bytes. -/
def emptyName : AccountEntry := .add displayNameContext (.text "")

/-- `ENTRY_COSTS.remove`, measured behind an entry worth pointing at, which is then taken off. -/
def removeCost : ℕ := encodedSize C [emptyName, .remove 0] - encodedSize C [emptyName]

/-- What one entry costs the log's lifetime budget. -/
def entrySize : AccountEntry → ℕ
  | .remove _ => removeCost C
  | entry => encodedSize C [entry] - domainBytes C

/-- `ENTRY_COSTS`. -/
def entryCosts : EntryCosts where
  installation := entrySize C (.add signerContext (.ed25519Key C.probeKey.bytes))
  remove := removeCost C
  displayName := entrySize C emptyName

/-! ### Rows -/

/-- The kind a row is labelled with, and the text it shows. -/
def describe : AccountEntry → String × String
  | .unknown opcode _ => ("other", "opcode 0x" ++ String.ofList (Hex.pair opcode))
  | .remove index => ("revocation", "entry " ++ toString index)
  | .add context (.ed25519Key key) =>
    (if context = signerContext then "installation" else "key",
      String.ofList (Hex.encode key.toList))
  | .add context (.text value) =>
    (if context = displayNameContext then "displayName" else "text", value)
  | .add _ (.other _ _) => ("other", "")

def contextOf : AccountEntry → Option Context
  | .add context _ => some context
  | _ => none

def rowFrom (index : ℕ) (entry : AccountEntry) (live : Bool) : EntryRow where
  index := index
  kind := (describe entry).1
  context := contextOf entry
  value := (describe entry).2
  live := live
  target := match entry with
    | .remove index => some index
    | _ => none
  bytes := entrySize C entry
  supersededBy := none

/-- The whole log, in order, with every entry's index and whether it is still live. -/
def rowsFromDraft (draft : AccountLogDraft) : List EntryRow :=
  let live := (C.liveEntries draft).map (·.index)
  (indexed draft.entries).map fun entry =>
    rowFrom C entry.index entry.entry (live.contains entry.index)

/-- What a log with an unreadable entry can still say: the live entries of the two contexts. -/
def rowsByContext (log : AccountLog) : List EntryRow :=
  (([signerContext, displayNameContext].flatMap (C.entriesFor log)).map fun entry =>
    rowFrom C entry.index entry.entry true).insertionSort fun a b => a.index ≤ b.index

/-- What comes before a context's first dot. -/
def namespaceOf (context : Context) : List Char := context.toList.takeWhile (· ≠ '.')

/-- Whether `context` is under a namespace this app writes. -/
def editedHere (context : Context) : Bool :=
  [displayNameContext, signerContext].any fun edited => namespaceOf edited = namespaceOf context

/-- The planned entries as log rows, numbered from `base`. -/
def pendingRows (planned : List AccountEntry) (base : ℕ) : List EntryRow :=
  planned.mapIdx fun offset entry =>
    rowFrom C (base + offset) entry (match entry with
      | .remove _ => false
      | _ => true)

end Manager

end AccountLogUi
