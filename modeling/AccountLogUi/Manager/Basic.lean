import AccountLogUi.Library.Action
import AccountLogUi.Manager.Log
import AccountLogUi.Manager.Text
import AccountLogUi.Store

/-!
# What the app does with an account

`AccountCore` is the app's own state: the resolver's records, the edits staged, the keys unlocked.
A method of it runs in a `World`, with the directory, the store and the clock.  `publish` is made
of what comes before its write and what comes after its read, `planUpdate` and `writeUpdate`, since
others may write to the store in between.
-/

namespace AccountLogUi

/-- Why the last read of the store did not land. -/
inductive ReadProblem
  | unverified
  | forked
  | unanswered
deriving DecidableEq

def ReadProblem.of : AccountError → ReadProblem
  | .log _ => unverified
  | .forked => forked
  | .provider _ => unanswered

/-- What the last read of the store left behind for one account.  A time is in nanoseconds since
the epoch. -/
structure LastRead where
  time : Option ℤ
  problem : Option ReadProblem
deriving DecidableEq

/-- What a publish did. -/
structure Published where
  firstNewIndex : Option ℕ
  dropped : ℕ
deriving DecidableEq

variable {Addr : Type} [DecidableEq Addr]

structure AccountCore (Addr : Type) where
  /-- The records the resolver holds. -/
  resolver : Addr → Option AccountRecord
  /-- A log one publish just wrote, until the read after it collects it. -/
  written : Option (Addr × SignedAccountLog)
  read : Addr → Option LastRead
  staged : Addr → Option (List StagedEdit)
  /-- Staged edits a read dropped that no answer has counted yet. -/
  dropped : Addr → Option ℕ
  /-- The sealed keys opened this session. -/
  unlocked : Addr → Option Ed25519SigningKey

namespace AccountCore

def new : AccountCore Addr where
  resolver _ := none
  written := none
  read _ := none
  staged _ := none
  dropped _ := none
  unlocked _ := none

variable (C : Crates Addr) (core : AccountCore Addr) (addr : Addr)

def readAt : Option ℤ := (core.read addr).bind (·.time)

/-- Whether the store has answered for `addr` with a log this app could use. -/
def answered : Bool := (core.readAt addr).isSome

def problem : Option ReadProblem := (core.read addr).bind (·.problem)

/-- The log the store gave for `addr` this session. -/
def record : Option AccountRecord := (core.resolver addr).filter fun _ => core.answered addr

/-- The published log as an update would extend it. -/
def extendable : Except (CoreError Addr) (Option AccountLogDraft) :=
  match core.record addr with
  | none => .ok none
  | some record =>
    match C.fromLog record.log with
    | .ok draft => .ok (some draft)
    | .error _ => .error .unreadable

/-- Refuse an update of `staged` that would take the log, as last read, past its byte budget. -/
def fits (staged : List StagedEdit) : Except (CoreError Addr) Unit := do
  let draft ← core.extendable C addr
  let draft ← (C.pushAll (draft.getD .new) (Manager.plan staged)).mapError .log
  match C.encode draft.log with
  | .ok _ => .ok ()
  | .error (.tooLarge _) => .error .overBudget
  | .error other => .error (.log other)

def liveName : Option String := (core.record addr).bind fun record =>
  Manager.liveDisplayName C record.log

/-- The entries the next publish will append, in the order they are written. -/
def plannedEntries : List AccountEntry := Manager.plan ((core.staged addr).getD [])

/-- Whether the log, as it stands, leaves something of the edit to do. -/
def needed (log : AccountLog) (draft : AccountLogDraft) : StagedEdit → Bool
  | .revoke index => (C.liveEntries draft).any (·.index = index)
  | .addInstallation key => !(Manager.liveKeys C draft).contains key.bytes
  | .setDisplayName name => Manager.liveDisplayName C log ≠ some name

/-- Drop the staged edits the log already holds. -/
def settle : AccountCore Addr :=
  match core.record addr with
  | none => core
  | some record =>
    match C.fromLog record.log with
    | .error _ => core
    | .ok draft =>
      match core.staged addr with
      | none => core
      | some staged =>
        let kept := staged.filter (needed C record.log draft)
        let dropped := staged.length - kept.length
        { core with
          staged := Function.update core.staged addr (if kept.isEmpty then none else some kept)
          dropped := if dropped > 0
            then Function.update core.dropped addr (some ((core.dropped addr).getD 0 + dropped))
            else core.dropped }

end AccountCore

/-- A request made of the store. -/
inductive Request (Addr : Type)
  | fetched (addr : Addr)
  | published (addr : Addr) (log : SignedAccountLog)
deriving DecidableEq

/-- The app, with all that it reads and writes outside itself, and the requests it made of the
store, newest first. -/
structure World (Addr : Type) where
  core : AccountCore Addr
  disk : Disk
  store : Store Addr
  now : ℤ
  asked : List (Request Addr)

abbrev CoreM (Addr : Type) := Action (World Addr) (CoreError Addr)

namespace World

variable (C : Crates Addr) (w : World Addr) (addr : Addr)

/-- `ReadBack::fetch`. -/
def fetch : Except StoreError (Option SignedAccountLog) × World Addr :=
  let fromStore := ((w.store.fetch addr).1,
    { w with store := (w.store.fetch addr).2, asked := .fetched addr :: w.asked })
  match w.core.written with
  | none => fromStore
  | some (held, log) =>
    if held = addr then (.ok (some log), { w with core := { w.core with written := none } })
    else fromStore

/-- `AccountResolver::resolve`. -/
def resolve : Except AccountError Unit × World Addr :=
  let (fetched, w) := w.fetch addr
  match fetched with
  | .error e => (.error (.provider e), w)
  | .ok fetched =>
    match C.resolve addr (w.core.resolver addr) fetched with
    | .error e => (.error e, w)
    | .ok held =>
      (.ok (), { w with core :=
        { w.core with resolver := Function.update w.core.resolver addr held } })

/-- `read_store`. -/
def readStore : Except AccountError Unit × World Addr :=
  match w.resolve C addr with
  | (.ok (), w) =>
    let read := Function.update w.core.read addr (some ⟨some w.now, none⟩)
    (.ok (), { w with core := AccountCore.settle C { w.core with read := read } addr })
  | (.error e, w) =>
    let last := (w.core.read addr).getD ⟨none, none⟩
    let read := Function.update w.core.read addr (some { last with problem := some (.of e) })
    (.error e, { w with core := { w.core with read := read } })

/-- `Account::update().publish()`, through `Extending`: the log signed is handed to the store. -/
def writeLog (key : Ed25519SigningKey) (base : Option SignedAccountLog)
    (entries : List AccountEntry) : Except AccountError SignedAccountLog × World Addr :=
  match C.update key base entries with
  | .error e => (.error e, w)
  | .ok signed =>
    let (answer, store) := w.store.publish (C.addrOf key) signed
    let w := { w with store := store, asked := .published (C.addrOf key) signed :: w.asked }
    match answer with
    | .error e => (.error (.provider e), w)
    | .ok () => (.ok signed, w)

/-- A program of filesystem calls. -/
def onDisk {ε α : Type} (p : FsM ε α) : Except ε α × World Addr :=
  ((w.disk.run p.run).1, { w with disk := (w.disk.run p.run).2 })

end World

/-- An update planned, and not yet written. -/
structure Update where
  key : Ed25519SigningKey
  firstNew : ℕ
  entries : List AccountEntry
  base : Option SignedAccountLog

namespace Manager

variable (C : Crates Addr)

/-- Change the app's own state. -/
def changeCore (f : AccountCore Addr → AccountCore Addr) : CoreM Addr Unit :=
  .change fun w => { w with core := f w.core }

def vault {α : Type} (p : FsM (VaultError Addr) α) : CoreM Addr α := .calling .vault (·.onDisk p)

def observed {α : Type} (p : FsM ObservedError α) : CoreM Addr α :=
  .calling .observed (·.onDisk p)

/-! ### Who may do what -/

/-- Whether this app holds `addr`'s key. -/
def manages (addr : Addr) : CoreM Addr Bool := do
  let held ← vault (Vault.accounts C)
  return held.any (·.addr = addr)

def observes (addr : Addr) : CoreM Addr Bool := do
  let observed ← observed (Observed.list C)
  return observed.contains addr

/-- Refuse a write to an account whose key is elsewhere. -/
def requireManaged (addr : Addr) : CoreM Addr Unit := do
  let managed ← manages C addr
  if managed then return ()
  else
    let observed ← observes C addr
    .refuse (observed = true) .notManaged
    throw .unknown

/-- Refuse a read of an account this app was never asked to have. -/
def requireKnown (addr : Addr) : CoreM Addr Unit := do
  let managed ← manages C addr
  if managed then return ()
  else
    let observed ← observes C addr
    .refuse (observed = false) .unknown

/-! ### Accounts -/

/-- Start reading the log under `addr`, whose key is somewhere else. -/
def observe (addr : Addr) : CoreM Addr Bool := do
  let managed ← manages C addr
  .refuse (managed = true) .alreadyManaged
  observed (Observed.add C addr)

/-- Stop reading the log under `addr`. -/
def stopObserving (addr : Addr) : CoreM Addr Unit := do
  let removed ← observed (Observed.remove C addr)
  .refuse (removed = false) .unknown
  changeCore fun core => { core with
    read := Function.update core.read addr none
    dropped := Function.update core.dropped addr none }

/-- Take `key` into the vault.  A sealed one is unlocked for the session. -/
def takeIn (key : Ed25519SigningKey) (password : Option String) (seed : ℕ) : CoreM Addr Addr := do
  let addr ← vault (Vault.create C key password seed)
  changeCore fun core => if password.isSome
    then { core with unlocked := Function.update core.unlocked addr (some key) }
    else core
  return addr

/-- Generate an account, whose key is the one generated, and take it into the vault. -/
def createAccount (generated : Ed25519SigningKey) (password : Option String) (seed : ℕ) :
    CoreM Addr Addr :=
  takeIn C generated password seed

/-- Take an account this app did not generate, from the secret its holder exported. -/
def importAccount (secretHex : String) (password : Option String) (seed : ℕ) :
    CoreM Addr Addr := do
  let key ← .orFail (parseAccountKey secretHex)
  let addr ← takeIn C key password seed
  let _ ← observed (Observed.remove C addr)
  return addr

/-- The account's own secret, for its holder to write down. -/
def exportAccount (addr : Addr) (password : Option String) : CoreM Addr String := do
  requireManaged C addr
  let key ← vault (Vault.openKey C addr password)
  return String.ofList (Hex.encode key.bytes.toList)

/-- Open the sealed key of `addr` and hold it. -/
def unlock (addr : Addr) (password : String) : CoreM Addr Unit := do
  requireManaged C addr
  let key ← vault (Vault.openKey C addr (some password))
  changeCore fun core => { core with unlocked := Function.update core.unlocked addr (some key) }

/-- Drop the account from the vault, with everything staged for it. -/
def forgetAccount (addr : Addr) : CoreM Addr Unit := do
  requireManaged C addr
  vault (Vault.forget C addr)
  changeCore fun core => { core with
    unlocked := Function.update core.unlocked addr none
    staged := Function.update core.staged addr none
    read := Function.update core.read addr none
    dropped := Function.update core.dropped addr none }

/-! ### Reading the store -/

def readStore (addr : Addr) : CoreM Addr Unit := .calling .account (·.readStore C addr)

def takeDropped (addr : Addr) : CoreM Addr ℕ := do
  let dropped ← .look fun w => (w.core.dropped addr).getD 0
  changeCore fun core => { core with dropped := Function.update core.dropped addr none }
  return dropped

/-- Read the store for `addr`, and drop the staged edits it already holds. -/
def refresh (addr : Addr) : CoreM Addr ℕ := do
  requireKnown C addr
  readStore C addr
  takeDropped addr

/-! ### Staging -/

/-- Make `staged` all that `addr` has waiting, once the update it plans is one the log takes. -/
def restage (addr : Addr) (staged : List StagedEdit) : CoreM Addr Unit := do
  let core ← .look World.core
  .orFail (core.fits C addr staged)
  changeCore fun core => { core with
    staged := Function.update core.staged addr (if staged.isEmpty then none else some staged) }

/-- Stage an endorsement of an installation's public key. -/
def stageAddInstallation (addr : Addr) (keyHex : String) : CoreM Addr Unit := do
  requireManaged C addr
  let key ← .orFail (parseInstallationKey C keyHex)
  let core ← .look World.core
  let draft ← .orFail (core.extendable C addr)
  .refuse (∃ d, draft = some d ∧ key.bytes ∈ liveKeys C d) .installationLive
  let staged := (core.staged addr).getD []
  .refuse (.addInstallation key ∈ staged) .alreadyStaged
  restage C addr (staged ++ [.addInstallation key])

/-- The edit stages a display name. -/
def isRename : StagedEdit → Bool
  | .setDisplayName _ => true
  | _ => false

/-- Stage the account's display name.  Replaces any name already staged, and the name in force
drops the staged one. -/
def stageSetDisplayName (addr : Addr) (name : String) : CoreM Addr Unit := do
  requireManaged C addr
  let name ← .orFail (displayName name)
  let core ← .look World.core
  let _ ← .orFail (core.extendable C addr)
  let before := (core.staged addr).getD []
  let staged := before.filter (!isRename ·)
  if core.liveName C addr ≠ some name then
    restage C addr (staged ++ [.setDisplayName name])
  else
    .refuse (staged.length = before.length) .nameUnchanged
    restage C addr staged

/-- Stage a revocation of the entry at `index`, which must be live now. -/
def stageRevoke (addr : Addr) (index : ℕ) : CoreM Addr Unit := do
  requireManaged C addr
  let core ← .look World.core
  let draft ← .orFail (core.extendable C addr)
  .refuse (¬∃ d, draft = some d ∧ ∃ entry ∈ C.liveEntries d, entry.index = index)
    (.notRevocable index)
  let staged := (core.staged addr).getD []
  .refuse (.revoke index ∈ staged) .alreadyStaged
  restage C addr (staged ++ [.revoke index])

/-- Throw away everything staged for `addr`. -/
def discardPending (addr : Addr) : CoreM Addr Unit := do
  requireManaged C addr
  changeCore fun core => { core with staged := Function.update core.staged addr none }

/-! ### Publishing -/

/-- A copy of the key unlocked for `addr`, or its unsealed key from the vault. -/
def signingKey (addr : Addr) : CoreM Addr Ed25519SigningKey := do
  match ← .look (·.core.unlocked addr) with
  | some key => return key
  | none =>
    .calling (fun e => if e = .passwordRequired then .locked else .vault e)
      (·.onDisk (Vault.openKey C addr none))

/-- `publish`, up to its write: what to write, or what it did where nothing needs writing. -/
def planUpdate (addr : Addr) : CoreM Addr (Published ⊕ Update) := do
  requireManaged C addr
  let staged ← .look (·.core.staged addr)
  .refuse (staged.getD [] = []) .nothingStaged
  -- Before the store is read, so a locked account costs no request.
  let key ← signingKey C addr
  readStore C addr
  let core ← .look World.core
  match core.staged addr with
  | none => return .inl ⟨none, ← takeDropped addr⟩
  | some staged =>
    -- The store's log may have grown since staging measured against it.
    .orFail (core.fits C addr staged)
    let draft ← .orFail (core.extendable C addr)
    return .inr {
      key := key
      firstNew := draft.elim 0 (·.entries.length)
      entries := core.plannedEntries addr
      base := (core.record addr).map (·.signedLog) }

/-- `publish`, from its write on. -/
def writeUpdate (addr : Addr) (update : Update) : CoreM Addr Published := do
  let written ← .calling .account (·.writeLog C update.key update.base update.entries)
  changeCore fun core => { core with
    staged := Function.update core.staged addr none
    written := some (addr, written) }
  .calling .account (·.resolve C addr)
  return ⟨some update.firstNew, ← takeDropped addr⟩

/-- Sign and publish every staged edit the log does not already hold, as one update. -/
def publish (addr : Addr) : CoreM Addr Published := do
  match ← planUpdate C addr with
  | .inl published => return published
  | .inr update => writeUpdate C addr update

end Manager

end AccountLogUi
