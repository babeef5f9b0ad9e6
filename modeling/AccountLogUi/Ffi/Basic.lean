import AccountLogUi.Backend.Basic
import AccountLogUi.Library.CString

/-!
# The library's C ABI

What stands between the backend and `AccountCore`: every argument is a C string, or null, and every
call is answered by a `Reply`.  A call here is one on the handle's core; what its arguments spell is
looked at before the core is.

`Task.work` is the call each of the backend's tasks makes, with the arguments it hands over.
-/

namespace AccountLogUi

variable {Addr : Type} [DecidableEq Addr]

/-- A C string the caller hands over, or null. -/
abbrev CArg := Option (List UInt8)

namespace Ffi

/-- `str_arg`. -/
def strArg (text : CArg) : Option String := text.bind ofCString

/-- `required_arg`. -/
def requiredArg (text : CArg) : Except (CoreError Addr) String :=
  match strArg text with
  | some text => .ok text
  | none => .error .argument

/-- `optional_arg`.  One that is there and not UTF-8 is refused, not read as absent. -/
def optionalArg (text : CArg) : Except (CoreError Addr) (Option String) :=
  match text with
  | none => .ok none
  | some text => (requiredArg (some text)).map some

variable (C : Crates Addr)

/-- `parse_address(&address?)?`. -/
def addressArg (address : CArg) : Except (CoreError Addr) Addr := do
  Manager.parseAddress C (← requiredArg address)

def accounts : CoreM Addr Reply := do
  return { accounts := ← Manager.accounts C }

def createAccount (generated : Ed25519SigningKey) (seed : ℕ) (password : CArg) :
    CoreM Addr Reply := do
  let password ← .orFail (optionalArg password)
  let address ← Manager.createAccount C generated password seed
  return { address := String.ofList (C.addrText address) }

/-- A key already held is found, not refused. -/
def importAccount (seed : ℕ) (secretHex password : CArg) : CoreM Addr Reply := do
  let secret ← .orFail (requiredArg secretHex)
  let password ← .orFail (optionalArg password)
  let (address, held) ← tryCatch
    (do return (← Manager.importAccount C secret password seed, false)) fun e =>
      match e with
      | .vault (.accountExists address) => return (address, true)
      | e => throw e
  return { address := String.ofList (C.addrText address), alreadyHeld := held }

def exportAccount (address password : CArg) : CoreM Addr Reply := do
  let addr ← .orFail (addressArg C address)
  let password ← .orFail (optionalArg password)
  return { key := ← Manager.exportAccount C addr password }

def unlock (address password : CArg) : CoreM Addr Reply := do
  let addr ← .orFail (addressArg C address)
  let password ← .orFail (requiredArg password)
  Manager.unlock C addr password
  return {}

def forgetAccount (address : CArg) : CoreM Addr Reply := do
  let addr ← .orFail (addressArg C address)
  Manager.forgetAccount C addr
  return {}

def observeAccount (address : CArg) : CoreM Addr Reply := do
  let addr ← .orFail (addressArg C address)
  let added ← Manager.observe C addr
  return { alreadyObserved := !added }

def stopObserving (address : CArg) : CoreM Addr Reply := do
  let addr ← .orFail (addressArg C address)
  Manager.stopObserving C addr
  return {}

def refresh (address : CArg) : CoreM Addr Reply := do
  let addr ← .orFail (addressArg C address)
  return { dropped := ← Manager.refresh C addr }

def state (address : CArg) : CoreM Addr Reply := do
  let addr ← .orFail (addressArg C address)
  return { state := some (← Manager.state C addr) }

def stageAddInstallation (address keyHex : CArg) : CoreM Addr Reply := do
  let addr ← .orFail (addressArg C address)
  let key ← .orFail (requiredArg keyHex)
  Manager.stageAddInstallation C addr key
  return {}

def stageSetDisplayName (address name : CArg) : CoreM Addr Reply := do
  let addr ← .orFail (addressArg C address)
  let name ← .orFail (requiredArg name)
  Manager.stageSetDisplayName C addr name
  return {}

def stageRevoke (address : CArg) (index : ℕ) : CoreM Addr Reply := do
  let addr ← .orFail (addressArg C address)
  Manager.stageRevoke C addr index
  return {}

def discardPending (address : CArg) : CoreM Addr Reply := do
  let addr ← .orFail (addressArg C address)
  Manager.discardPending C addr
  return {}

/-- No index is null, which reads as the one before the first. -/
def publish (address : CArg) : CoreM Addr Reply := do
  let addr ← .orFail (addressArg C address)
  let published ← Manager.publish C addr
  return {
    firstNewIndex := published.firstNewIndex.elim (-1) fun index => index
    dropped := published.dropped }

/-- `reply`: whatever a call on the core says, with errors in the given words. -/
def reply (text : CoreError Addr → String) (call : CoreM Addr Reply) (w : World Addr) :
    Reply × World Addr :=
  match call.on w with
  | (.ok value, w') => ({ value with ok := true }, w')
  | (.error e, w') => ({ error := text e }, w')

end Ffi

/-! ### What the backend hands over -/

/-- `utf8`, as the C string its data is. -/
def Backend.utf8 (text : String) : CArg := some (cString text)

/-- No password is spelled as no argument. -/
def Backend.passwordArg (password : String) : CArg := if password = "" then none else utf8 password

/-- The library call a task makes.  A generated key and a seed are the randomness it draws. -/
def Task.work (C : Crates Addr) (generated : Ed25519SigningKey) (seed : ℕ) :
    Task → CoreM Addr Reply
  | .accounts => Ffi.accounts C
  | .state address => Ffi.state C (Backend.utf8 address)
  | .refresh address _ => Ffi.refresh C (Backend.utf8 address)
  | .createAccount password => Ffi.createAccount C generated seed (Backend.passwordArg password)
  | .importAccount secretHex password =>
    Ffi.importAccount C seed (Backend.utf8 secretHex) (Backend.passwordArg password)
  | .exportAccount address password =>
    Ffi.exportAccount C (Backend.utf8 address) (Backend.passwordArg password)
  | .unlock address password =>
    Ffi.unlock C (Backend.utf8 address) (Backend.utf8 password)
  | .forgetAccount address => Ffi.forgetAccount C (Backend.utf8 address)
  | .observeAccount address => Ffi.observeAccount C (Backend.utf8 address)
  | .stopObserving address => Ffi.stopObserving C (Backend.utf8 address)
  | .stageAddInstallation address keyHex =>
    Ffi.stageAddInstallation C (Backend.utf8 address) (Backend.utf8 keyHex)
  | .stageSetDisplayName address name =>
    Ffi.stageSetDisplayName C (Backend.utf8 address) (Backend.utf8 name)
  | .stageRevoke address index => Ffi.stageRevoke C (Backend.utf8 address) index
  | .discardPending address => Ffi.discardPending C (Backend.utf8 address)
  | .publish address => Ffi.publish C (Backend.utf8 address)

end AccountLogUi
