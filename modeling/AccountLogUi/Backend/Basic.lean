import AccountLogUi.Manager.State
import Mathlib

/-!
# The backend of the view

`Backend` is what `AccountLogBackend` holds on the thread that owns the view's properties.  A slot
of it runs to its end there, and so does the handler of a reply.  What either starts goes to the
pool, as a `Task`, with what the call's closures hold.

A property that carries JSON text is modelled by what the text spells.
-/

namespace AccountLogUi

/-- The banner across the foot of the log. -/
structure Notice where
  kind : String
  title : String
  body : String
deriving DecidableEq

/-- A reply of the library, as the handlers read it: a field it does not have reads as it does
here. -/
structure Reply where
  ok : Bool := false
  error : String := ""
  accounts : List AccountSummary := []
  state : Option AccountState := none
  address : String := ""
  alreadyHeld : Bool := false
  alreadyObserved : Bool := false
  key : String := ""
  firstNewIndex : ℤ := -1
  dropped : ℕ := 0
deriving DecidableEq

/-- A library call, with what its closures hold. -/
inductive Task
  | accounts
  | state (address : String)
  | refresh (address : String) (selection : UInt64)
  | createAccount (password : String)
  | importAccount (secretHex password : String)
  | exportAccount (address password : String)
  | unlock (address password : String)
  | forgetAccount (address : String)
  | observeAccount (address : String)
  | stopObserving (address : String)
  | stageAddInstallation (address keyHex : String)
  | stageSetDisplayName (address name : String)
  | stageRevoke (address : String) (index : ℕ)
  | discardPending (address : String)
  | publish (address : String)
deriving DecidableEq

/-- What the call is named to `failed` and `succeeded`. -/
def Task.what : Task → String
  | accounts => "accounts"
  | state _ => "state"
  | refresh .. => "refresh"
  | createAccount _ => "createAccount"
  | importAccount .. => "importAccount"
  | exportAccount .. => "exportAccount"
  | unlock .. => "unlock"
  | forgetAccount _ => "forgetAccount"
  | observeAccount _ => "observeAccount"
  | stopObserving _ => "stopObserving"
  | stageAddInstallation .. => "stageAddInstallation"
  | stageSetDisplayName .. => "stageSetDisplayName"
  | stageRevoke .. => "stageRevoke"
  | discardPending _ => "discardPending"
  | publish _ => "publish"

/-- What is told to the view once, and not kept. -/
inductive Signal
  | accountExported (address key : String)
  | published (address : String) (firstNewIndex : ℤ)
  | failed (what message : String)
  | succeeded (what : String)
deriving DecidableEq

structure Backend where
  statusText : String
  storeProblem : String
  vaultProblem : String
  busy : Bool
  accountsJson : List AccountSummary
  selectedAddress : String
  /-- What is drawn of the selected account, or nothing. -/
  stateJson : Option AccountState
  firstNewIndex : ℤ
  notice : Notice
  /-- The library gave a handle to call it with. -/
  coreOpen : Bool
  inFlight : ℕ
  /-- The host has handed over, before which the store is not read. -/
  contextReady : Bool
  /-- Moves on with every change of selection. -/
  selection : UInt64
  /-- Staged edits a read dropped while their account was off screen. -/
  dropped : String → ℕ
  /-- The calls the pool has not taken up yet, oldest first. -/
  pool : List Task
  /-- What was signalled, newest first. -/
  emitted : List Signal

namespace Backend

/-- What a read says about the edits it dropped. -/
def droppedText (count : ℕ) : String :=
  if count = 1 then
    "An edit waiting here adds nothing the store's log does not already hold, so it was dropped."
  else
    toString count ++ " edits waiting here add nothing the store's log does not already hold, " ++
      "so they were dropped."

def setNotice (kind title body : String) (b : Backend) : Backend :=
  { b with notice := ⟨kind, title, body⟩ }

def dismissNotice (b : Backend) : Backend := b.setNotice "" "" ""

def emit (signal : Signal) (b : Backend) : Backend := { b with emitted := signal :: b.emitted }

/-- The calls made from a button on the log or the account bar have nowhere else to say it. -/
def report (what message : String) (b : Backend) : Backend :=
  let b :=
    if what = "stageRevoke" then b.setNotice "error" "Could not stage the removal" message
    else if what = "discardPending" then
      b.setNotice "error" "Could not discard the pending entries" message
    else if what = "stopObserving" then b.setNotice "error" "Could not stop observing" message
    else b
  b.emit (.failed what message)

/-- One library call, off the view's thread. -/
def call (task : Task) (b : Backend) : Backend :=
  if b.coreOpen = false then b.report task.what "the account core is not open"
  else { b with inFlight := b.inFlight + 1, busy := true, pool := b.pool ++ [task] }

/-! ### Reading again -/

def reloadAccounts (b : Backend) : Backend := b.call .accounts

def reloadState (b : Backend) : Backend :=
  if b.selectedAddress = "" then { b with stateJson := none } else b.call (.state b.selectedAddress)

def refresh (b : Backend) : Backend :=
  if b.selectedAddress = "" then b.reloadAccounts
  else { b with statusText := "Reading the store" }.call (.refresh b.selectedAddress b.selection)

/-- Put an account on screen.  What described the last one goes with it. -/
def setSelection (address : String) (b : Backend) : Backend :=
  let b := { b with
    selection := b.selection + 1
    selectedAddress := address
    firstNewIndex := -1 }.dismissNotice
  let count := b.dropped address
  let b := { b with dropped := Function.update b.dropped address 0 }
  if count > 0 then b.setNotice "info" "Already in the store" (droppedText count) else b

/-- After a staged edit lands. -/
def edited (b : Backend) : Backend := b.dismissNotice.reloadAccounts

/-- Count edits dropped of an account off screen. -/
def keepDropped (address : String) (count : ℕ) (b : Backend) : Backend :=
  if count > 0 then
    { b with dropped := Function.update b.dropped address (b.dropped address + count) }
  else b

/-! ### Replies -/

def accountsLanded (reply : Reply) (b : Backend) : Backend :=
  let b := { b with vaultProblem := "", accountsJson := reply.accounts }
  match reply.accounts with
  | [] => { b.setSelection "" with stateJson := none, statusText := "No accounts yet" }
  | first :: _ =>
    -- Hold the selection across a reload.
    if reply.accounts.any (·.address = b.selectedAddress) then b.reloadState
    else
      let b := (b.setSelection first.address).reloadState
      if b.contextReady then b.refresh else b

def stateLanded (address : String) (reply : Reply) (b : Backend) : Backend :=
  if address = b.selectedAddress then { b with vaultProblem := "", stateJson := reply.state } else b

def refreshLanded (address : String) (selection : UInt64) (reply : Reply) (b : Backend) : Backend :=
  let b :=
    if reply.dropped > 0 ∧ address = b.selectedAddress then
      b.setNotice "info" "Already in the store" (droppedText reply.dropped)
    else b.keepDropped address reply.dropped
  let b :=
    if b.selection = selection then
      { b with statusText := "Ready", storeProblem := "", firstNewIndex := -1 }
    else b
  b.reloadAccounts

/-- An account taken in is put on screen. -/
def showTaken (address : String) (already : Bool) (title body : String) (b : Backend) : Backend :=
  let b := b.setSelection address
  let b := if already then b.setNotice "info" title body else b
  b.reloadAccounts.reloadState.refresh

def createLanded (reply : Reply) (b : Backend) : Backend := b.showTaken reply.address false "" ""

def importLanded (reply : Reply) (b : Backend) : Backend :=
  b.showTaken reply.address reply.alreadyHeld "Already in this vault"
    ("This key is an account the vault already holds, so it is kept as it was, with its own " ++
      "password or none.")

def observeLanded (address : String) (reply : Reply) (b : Backend) : Backend :=
  b.showTaken address reply.alreadyObserved "Already observed"
    "This account is already one this app reads, so it is shown as it was."

/-- An account the app no longer has. -/
def leaveAccount (address : String) (b : Backend) : Backend :=
  let b := { b with dropped := Function.update b.dropped address 0 }
  let b := if address = b.selectedAddress then b.setSelection "" else b
  b.reloadAccounts

def publishLanded (address : String) (reply : Reply) (b : Backend) : Backend :=
  let b := { b with statusText := "Ready", storeProblem := "" }
  let b :=
    -- The person may have moved to another account while the store answered.
    if address ≠ b.selectedAddress then b.keepDropped address reply.dropped
    else if reply.firstNewIndex < 0 then
      b.setNotice "info" "Already in the store" (droppedText reply.dropped)
    else
      let body := "The store holds this log. Anyone reading this address now sees what was just " ++
        "written."
      { b with firstNewIndex := reply.firstNewIndex }.setNotice "success" "Published"
        (if reply.dropped > 0 then body ++ " " ++ droppedText reply.dropped else body)
  let b := if reply.firstNewIndex ≥ 0 then b.emit (.published address reply.firstNewIndex) else b
  b.reloadAccounts

/-- `landed`, what a reply that said ok is handled by. -/
def landed : Task → Reply → Backend → Backend
  | .accounts, reply, b => b.accountsLanded reply
  | .state address, reply, b => b.stateLanded address reply
  | .refresh address selection, reply, b => b.refreshLanded address selection reply
  | .createAccount _, reply, b => b.createLanded reply
  | .importAccount .., reply, b => b.importLanded reply
  | .exportAccount address _, reply, b => b.emit (.accountExported address reply.key)
  | .unlock .., _, b => b.reloadAccounts
  | .forgetAccount address, _, b => b.leaveAccount address
  | .observeAccount address, reply, b => b.observeLanded address reply
  | .stopObserving address, _, b => b.leaveAccount address
  | .stageAddInstallation .., _, b => b.edited
  | .stageSetDisplayName .., _, b => b.edited
  | .stageRevoke .., _, b => b.edited
  | .discardPending _, _, b => b.edited
  | .publish address, reply, b => b.publishLanded address reply

/-- `refused`, what a reply that did not is handled by, at a time of day. -/
def refused : Task → String → String → Backend → Backend
  | .accounts, message, _, b =>
    { b with statusText := "Could not read the vault", vaultProblem := message }
  | .state address, message, _, b =>
    if address = b.selectedAddress then
      { b with statusText := "Could not read the vault", vaultProblem := message }
    else b
  | .refresh _ selection, message, clock, b =>
    let b :=
      if b.selection = selection then
        -- Timed, so a retry that fails the same way still shows it ran.
        { b with statusText := "Could not read the store at " ++ clock, storeProblem := message }
      else b
    b.reloadAccounts
  | .publish address, _, _, b =>
    if address ≠ b.selectedAddress then b.reloadAccounts
    -- The refusal may be the store's, and can follow a read that moved the log on.
    else b.refresh
  | _, _, _, b => b

/-- A call is over. -/
def ended (b : Backend) : Backend :=
  let b := { b with inFlight := b.inFlight - 1 }
  if b.inFlight = 0 then { b with busy := false } else b

/-- What comes back to the view's thread of a call: a reply, or nothing of a call no longer
wanted. -/
def land (task : Task) (reply : Option Reply) (clock : String) (b : Backend) : Backend :=
  match reply with
  | none => b.ended
  | some reply =>
    if reply.ok = false then ((b.report task.what reply.error).refused task reply.error clock).ended
    else ((b.landed task reply).emit (.succeeded task.what)).ended

/-! ### Slots -/

def selectAccount (address : String) (b : Backend) : Backend :=
  if address = b.selectedAddress then b else ((b.setSelection address).reloadState).refresh

def stageRevoke (index : ℤ) (b : Backend) : Backend :=
  if index < 0 then b.report "stageRevoke" "there is no entry before the first"
  else b.call (.stageRevoke b.selectedAddress index.toNat)

def publish (b : Backend) : Backend :=
  { b with statusText := "Publishing" }.call (.publish b.selectedAddress)

end Backend

/-- What the view, or the host, asks of the backend. -/
inductive Slot
  | refresh
  | selectAccount (address : String)
  | createAccount (password : String)
  | importAccount (secretHex password : String)
  | exportAccount (address password : String)
  | unlock (address password : String)
  | forgetAccount (address : String)
  | observeAccount (address : String)
  | stopObserving (address : String)
  | stageAddInstallation (keyHex : String)
  | stageSetDisplayName (name : String)
  | stageRevoke (index : ℤ)
  | discardPending
  | publish
  | dismissNotice
  | contextReady
deriving DecidableEq

namespace Backend

def onContextReady (b : Backend) : Backend :=
  let b := { b with contextReady := true }
  if b.coreOpen = true ∧ b.selectedAddress ≠ "" then b.refresh else b

/-- Run a slot. -/
def slot : Slot → Backend → Backend
  | .refresh, b => b.refresh
  | .selectAccount address, b => b.selectAccount address
  | .createAccount password, b => b.call (.createAccount password)
  | .importAccount secretHex password, b => b.call (.importAccount secretHex password)
  | .exportAccount address password, b => b.call (.exportAccount address password)
  | .unlock address password, b => b.call (.unlock address password)
  | .forgetAccount address, b => b.call (.forgetAccount address)
  -- The core takes an address in one spelling only.
  | .observeAccount address, b => b.call (.observeAccount (Manager.trim address))
  | .stopObserving address, b => b.call (.stopObserving address)
  | .stageAddInstallation keyHex, b =>
    b.call (.stageAddInstallation b.selectedAddress (Manager.trim keyHex))
  | .stageSetDisplayName name, b => b.call (.stageSetDisplayName b.selectedAddress name)
  | .stageRevoke index, b => b.stageRevoke index
  | .discardPending, b => b.call (.discardPending b.selectedAddress)
  | .publish, b => b.publish
  | .dismissNotice, b => b.dismissNotice
  | .contextReady, b => b.onContextReady

/-- The properties before the backend is made. -/
def blank (coreOpen : Bool) : Backend where
  statusText := "Starting"
  storeProblem := ""
  vaultProblem := ""
  busy := false
  accountsJson := []
  selectedAddress := ""
  stateJson := none
  firstNewIndex := -1
  notice := ⟨"", "", ""⟩
  coreOpen := coreOpen
  inFlight := 0
  contextReady := false
  selection := 0
  dropped _ := 0
  pool := []
  emitted := []

/-- The constructor, on a vault directory the library opened or did not. -/
def start (coreOpen : Bool) (vault : String) : Backend :=
  let b := blank coreOpen
  if coreOpen = false then
    { b with
      statusText := "Could not read the vault"
      vaultProblem := "the account core could not start on " ++ vault }
  else { b with statusText := "Ready" }.reloadAccounts

end Backend

end AccountLogUi
