import AccountLogUi.Manager.Basic

/-!
# What the screen draws

`accounts` is the list of accounts, and `state` everything the Manage pane draws for one of them.
Neither reads the store.
-/

namespace AccountLogUi

/-- One account, as the vault and the store together know it. -/
structure AccountSummary where
  address : String
  managed : Bool
  protected_ : Bool
  locked : Bool
  resolved : Bool
  displayName : Option String
  pending : ℕ
  problem : Option ReadProblem
deriving DecidableEq

/-- Everything the Manage pane draws for one account. -/
structure AccountState where
  address : String
  managed : Bool
  protected_ : Bool
  locked : Bool
  resolved : Bool
  readAtMs : Option ℕ
  problem : Option ReadProblem
  published : Bool
  logBytes : ℕ
  maxBytes : ℕ
  displayName : Option String
  displayNameIndex : Option ℕ
  previousNames : List Name
  installations : List Installation
  entries : List EntryRow
  otherEntries : List EntryRow
  unreadable : Option String
  pending : List EntryRow
  costs : EntryCosts
deriving DecidableEq

namespace Manager

variable {Addr : Type} [DecidableEq Addr] (C : Crates Addr)

/-- A moment as the view counts them. -/
def sinceEpochMs (time : ℤ) : ℕ := time.toNat / 10 ^ 6 % 2 ^ 64

/-- The rows of a log, and why it is shown by context only. -/
def logRows : Option AccountLog → List EntryRow × Option String
  | none => ([], none)
  | some log =>
    match C.fromLog log with
    | .ok draft => (rowsFromDraft C draft, none)
    | .error e => (rowsByContext C log, some (C.errorText e))

/-- The rows, those of previous names marked with the name in force. -/
def markSuperseded (name : Option Name) (previous : List Name) (rows : List EntryRow) :
    List EntryRow :=
  match name with
  | none => rows
  | some name => rows.map fun row =>
    if previous.any (·.index = row.index) then { row with supersededBy := some name.index }
    else row

/-- What is drawn of an account the vault holds, or only observed, as `held` says. -/
def stateOf (core : AccountCore Addr) (addr : Addr) (held : Option (StoredAccount Addr)) :
    AccountState :=
  let record := core.record addr
  let log := record.map (·.log)
  let names := log.elim [] (liveDisplayNames C)
  let name := names.getLast?
  let previous := names.dropLast.reverse
  let entries := markSuperseded name previous (logRows C log).1
  let protected_ := held.any (·.protected_)
  { address := String.ofList (C.addrText addr)
    managed := held.isSome
    protected_ := protected_
    locked := protected_ && (core.unlocked addr).isNone
    resolved := core.answered addr
    readAtMs := (core.readAt addr).map sinceEpochMs
    problem := core.problem addr
    published := record.isSome
    logBytes := record.elim (domainBytes C) fun record => record.signedLog.payload.length
    maxBytes := C.maxPayloadBytes
    displayName := name.map (·.value)
    displayNameIndex := name.map (·.index)
    previousNames := previous
    installations := log.elim [] (liveInstallations C)
    entries := entries
    otherEntries := entries.filter fun row => row.live && row.context.any (!editedHere ·)
    unreadable := (logRows C log).2
    pending := pendingRows C (core.plannedEntries addr) entries.length
    costs := entryCosts C }

/-- Everything the Manage pane draws. -/
def state (addr : Addr) : CoreM Addr AccountState := do
  let held := (← vault (Vault.accounts C)).find? (·.addr = addr)
  let known ← (if held.isSome then return true else observes C addr : CoreM Addr Bool)
  .refuse (known = false) .unknown
  let core ← .look World.core
  return stateOf C core addr held

/-- The row of an account whose key is held, or one observed, as `held` says. -/
def summaryOf (core : AccountCore Addr) (addr : Addr) (held : Option (StoredAccount Addr)) :
    AccountSummary where
  address := String.ofList (C.addrText addr)
  managed := held.isSome
  protected_ := held.any (·.protected_)
  locked := held.any (·.protected_) && (core.unlocked addr).isNone
  resolved := core.answered addr
  displayName := core.liveName C addr
  pending := if held.isSome then (core.plannedEntries addr).length else 0
  problem := core.problem addr

/-- Every account this app has, the ones it holds a key for first. -/
def accounts : CoreM Addr (List AccountSummary) := do
  let held ← vault (Vault.accounts C)
  let observed ← observed (Observed.list C)
  let core ← .look World.core
  return held.map (fun held => summaryOf C core held.addr (some held)) ++
    (observed.filter fun addr => !held.any (·.addr = addr)).map fun addr =>
      summaryOf C core addr none

end Manager

end AccountLogUi
