import AccountLogUi.Manager.State

/-!
# Runs of the app

`CoreOp` is the app's operations as one type, and `Reachable` the worlds a run of them comes to
from a fresh start, where between two operations anything may happen to the directory, the store
and the clock.

`AccountCore.Step` is what an operation can do to the app's own state, one change at a time.
-/

namespace AccountLogUi

variable {Addr : Type} [DecidableEq Addr]

/-! ### Operations -/

/-- The app's operations.  A generated key and a seed are the randomness an operation draws. -/
inductive CoreOp (Addr : Type)
  | createAccount (generated : Ed25519SigningKey) (password : Option String) (seed : ℕ)
  | importAccount (secretHex : String) (password : Option String) (seed : ℕ)
  | exportAccount (addr : Addr) (password : Option String)
  | unlock (addr : Addr) (password : String)
  | forgetAccount (addr : Addr)
  | observe (addr : Addr)
  | stopObserving (addr : Addr)
  | refresh (addr : Addr)
  | stageAddInstallation (addr : Addr) (keyHex : String)
  | stageSetDisplayName (addr : Addr) (name : String)
  | stageRevoke (addr : Addr) (index : ℕ)
  | discardPending (addr : Addr)
  | publish (addr : Addr)
  | accounts
  | state (addr : Addr)
deriving DecidableEq

/-- What the operations answer with. -/
inductive CoreAnswer (Addr : Type)
  | done
  | taken (addr : Addr)
  | secret (hex : String)
  | observed (fresh : Bool)
  | refreshed (dropped : ℕ)
  | published (published : Published)
  | listed (accounts : List AccountSummary)
  | shown (state : AccountState)
deriving DecidableEq

namespace CoreOp

variable (C : Crates Addr)

/-- The operation itself. -/
def body : CoreOp Addr → CoreM Addr (CoreAnswer Addr)
  | createAccount generated password seed => do
    return .taken (← Manager.createAccount C generated password seed)
  | importAccount secretHex password seed => do
    return .taken (← Manager.importAccount C secretHex password seed)
  | exportAccount addr password => do return .secret (← Manager.exportAccount C addr password)
  | unlock addr password => do Manager.unlock C addr password; return .done
  | forgetAccount addr => do Manager.forgetAccount C addr; return .done
  | observe addr => do return .observed (← Manager.observe C addr)
  | stopObserving addr => do Manager.stopObserving C addr; return .done
  | refresh addr => do return .refreshed (← Manager.refresh C addr)
  | stageAddInstallation addr keyHex => do
    Manager.stageAddInstallation C addr keyHex
    return .done
  | stageSetDisplayName addr name => do Manager.stageSetDisplayName C addr name; return .done
  | stageRevoke addr index => do Manager.stageRevoke C addr index; return .done
  | discardPending addr => do Manager.discardPending C addr; return .done
  | publish addr => do return .published (← Manager.publish C addr)
  | accounts => do return .listed (← Manager.accounts C)
  | state addr => do return .shown (← Manager.state C addr)

/-- Run an operation. -/
def run (op : CoreOp Addr) (w : World Addr) :
    Except (CoreError Addr) (CoreAnswer Addr) × World Addr :=
  (op.body C).on w

/-- Run several operations, one after another. -/
def runs (ops : List (CoreOp Addr)) (w : World Addr) : World Addr :=
  ops.foldl (fun w op => (op.run C w).2) w

/-- The operation stages an edit for the account. -/
def Stages (addr : Addr) : CoreOp Addr → Prop
  | stageAddInstallation addr' _ | stageSetDisplayName addr' _ | stageRevoke addr' _ => addr' = addr
  | _ => False

end CoreOp

/-- The app just started, on an empty directory and a store in memory. -/
def World.start (logs : List (Addr × SignedAccountLog)) : World Addr where
  core := .new
  disk := ⟨.empty, []⟩
  store := .memory ⟨logs⟩
  now := 0
  asked := []

/-- The worlds a run of one app can come to. -/
inductive Reachable (C : Crates Addr) : World Addr → Prop
  | fresh {w : World Addr} (h : w.core = .new) : Reachable C w
  | elsewhere {w w' : World Addr} (h : Reachable C w) (hcore : w'.core = w.core) : Reachable C w'
  | op {w : World Addr} (op : CoreOp Addr) (h : Reachable C w) : Reachable C (op.run C w).2

/-! ### Changes to the app's own state -/

namespace AccountCore

variable (C : Crates Addr)

/-- The store answered, and the resolver holds `held` now. -/
def landed (core : AccountCore Addr) (addr : Addr) (held : Option AccountRecord) (now : ℤ) :
    AccountCore Addr :=
  { core with
    resolver := Function.update core.resolver addr held
    read := Function.update core.read addr (some ⟨some now, none⟩) }

/-- A read failed. -/
def failed (core : AccountCore Addr) (addr : Addr) (e : AccountError) : AccountCore Addr :=
  let last := (core.read addr).getD ⟨none, none⟩
  { core with read := Function.update core.read addr (some { last with problem := some (.of e) }) }

/-- The count of dropped edits was answered. -/
def collected (core : AccountCore Addr) (addr : Addr) : AccountCore Addr :=
  { core with dropped := Function.update core.dropped addr none }

/-- What the edits staged for an account can be made into by staging. -/
inductive Restages (core : AccountCore Addr) (addr : Addr) : List StagedEdit → Prop
  | add {key : Ed25519VerifyingKey} {draft : Option AccountLogDraft}
      (hkey : C.fromCanonicalBytes key.bytes = some key)
      (hdraft : core.extendable C addr = .ok draft)
      (hlive : ∀ d, draft = some d → key.bytes ∉ Manager.liveKeys C d)
      (hnew : .addInstallation key ∉ (core.staged addr).getD []) :
      Restages core addr ((core.staged addr).getD [] ++ [.addInstallation key])
  | rename {name : String} {draft : Option AccountLogDraft}
      (hname : name.utf8ByteSize ≤ 64 ∧ name ≠ "")
      (hdraft : core.extendable C addr = .ok draft)
      (hlive : core.liveName C addr ≠ some name) :
      Restages core addr
        (((core.staged addr).getD []).filter (!Manager.isRename ·) ++ [.setDisplayName name])
  | withdraw : Restages core addr (((core.staged addr).getD []).filter (!Manager.isRename ·))
  | revoke {index : ℕ} {draft : AccountLogDraft}
      (hdraft : core.extendable C addr = .ok (some draft))
      (hlive : ∃ entry ∈ C.liveEntries draft, entry.index = index)
      (hnew : .revoke index ∉ (core.staged addr).getD []) :
      Restages core addr ((core.staged addr).getD [] ++ [.revoke index])

/-- One change to the app's own state. -/
inductive Step (core : AccountCore Addr) : AccountCore Addr → Prop
  | landed {addr : Addr} {held : Option AccountRecord} {fetched : Option SignedAccountLog} (now : ℤ)
      (h : C.resolve addr (core.resolver addr) fetched = .ok held) :
      Step core ((core.landed addr held now).settle C addr)
  | failed (addr : Addr) (e : AccountError) : Step core (core.failed addr e)
  | collected (addr : Addr) : Step core (core.collected addr)
  | unlocked (addr : Addr) {key : Ed25519SigningKey} (h : C.addrOf key = addr) :
      Step core { core with unlocked := Function.update core.unlocked addr (some key) }
  | forgot (addr : Addr) : Step core { core with
      unlocked := Function.update core.unlocked addr none
      staged := Function.update core.staged addr none
      read := Function.update core.read addr none
      dropped := Function.update core.dropped addr none }
  | stopped (addr : Addr) : Step core { core with
      read := Function.update core.read addr none
      dropped := Function.update core.dropped addr none }
  | discarded (addr : Addr) :
      Step core { core with staged := Function.update core.staged addr none }
  | restaged (addr : Addr) {staged : List StagedEdit} (hfits : core.fits C addr staged = .ok ())
      (h : core.Restages C addr staged) : Step core { core with
        staged := Function.update core.staged addr (if staged.isEmpty then none else some staged) }
  | published {addr : Addr} {signed : SignedAccountLog} {held : Option AccountRecord}
      (h : C.resolve addr (core.resolver addr) (some signed) = .ok held) : Step core { core with
        staged := Function.update core.staged addr none
        resolver := Function.update core.resolver addr held }

/-- Any number of changes. -/
abbrev Steps : AccountCore Addr → AccountCore Addr → Prop := Relation.ReflTransGen (Step C)

end AccountCore

end AccountLogUi
