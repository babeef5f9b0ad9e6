import AccountLogUi.Vault.Basic

/-!
# Processes on one vault directory

Any number of processes, numbered, each calling the vault's operations one after another on one
directory, their filesystem calls interleaved in any order and each call failing or not.

`Progress` is what is known of a running operation: which one it is and how far it has come.  The
program reads none of it.  `protocol` says what the operations are held to: who may touch which
stage, and that a rename to a real name and a removal of one are made under the lock, the rename
only where the directory was seen to hold no file of the account since the lock was taken.
-/

namespace AccountLogUi.Vault

variable {Addr : Type} [DecidableEq Addr]

/-- The vault's operations.  A seed is the randomness a sealed file is written with. -/
inductive VaultOp (Addr : Type)
  | create (key : Ed25519SigningKey) (password : Option String) (seed : ℕ)
  | openKey (addr : Addr) (password : Option String)
  | forget (addr : Addr)
  | accounts
deriving DecidableEq

/-- What the operations answer with. -/
inductive VaultAnswer (Addr : Type)
  | created (addr : Addr)
  | opened (key : Ed25519SigningKey)
  | forgotten
  | listed (accounts : List (StoredAccount Addr))
deriving DecidableEq

abbrev VaultResult (Addr : Type) := Except (VaultError Addr) (VaultAnswer Addr)

/-- The program of an operation. -/
def VaultOp.body (C : Crates Addr) : VaultOp Addr → Prog fsSig (VaultResult Addr)
  | .create key password seed =>
    (do return .created (← Vault.create C key password seed) : FsM _ _).run
  | .openKey addr password =>
    (do return .opened (← Vault.openKey C addr password) : FsM _ _).run
  | .forget addr => (do let _ ← Vault.forget C addr; return .forgotten : FsM _ _).run
  | .accounts => (do return .listed (← Vault.accounts C) : FsM _ _).run

/-- How far a running operation has come. -/
structure Progress (Addr : Type) where
  op : VaultOp Addr
  /-- It holds the lock. -/
  locked : Bool := false
  /-- Since it took the lock, it saw that there is no file of the account it creates. -/
  absent : Bool := false
  /-- Its own key file is in the stage. -/
  staged : Bool := false
  /-- And was synced there. -/
  synced : Bool := false
  /-- It gave the staged file the account's name. -/
  promoted : Bool := false
  /-- It took the account's file away. -/
  removed : Bool := false

namespace Progress

variable (C : Crates Addr)

/-- The calls an operation makes, and when. -/
def allowed (g : Progress Addr) : FsCall → Prop
  | .removeDirAll name => ∃ key password seed, g.op = .create key password seed ∧
      name = stageName C (C.addrOf key)
  | .createDir name => ∃ key password seed, g.op = .create key password seed ∧
      name = stageName C (C.addrOf key)
  | .write path content => ∃ key password seed, g.op = .create key password seed ∧
      path = .staged (stageName C (C.addrOf key)) ∧ content = keyFile C key password seed
  | .syncAll path => ∃ key password seed, g.op = .create key password seed ∧
      path = .staged (stageName C (C.addrOf key))
  | .rename src dest => ∃ key password seed, g.op = .create key password seed ∧
      src = .staged (stageName C (C.addrOf key)) ∧
      dest = pathOf C (C.addrOf key) password.isSome ∧
      g.locked = true ∧ g.absent = true ∧ g.staged = true ∧ g.synced = true
  | .removeFile name => ∃ addr protected_, g.op = .forget addr ∧ name = pathOf C addr protected_ ∧
      g.locked = true
  | .openLock name => name = lockFile
  | .createDirAll | .setMode _ _ | .readDir | .readToString _ | .tryLock | .unlock
  | .syncDir => True

/-- Whether the entries of the directory show that the account a create is for is absent. -/
def showsAbsent (op : VaultOp Addr) (names : List OsString) : Bool :=
  match op with
  | .create key _ _ => [true, false].all fun protected_ =>
      .utf8 (pathOf C (C.addrOf key) protected_) ∉ names
  | _ => false

/-- How far an operation has come once a call was answered. -/
def next (g : Progress Addr) : (c : FsCall) → Except IoError c.Value → Progress Addr
  | .tryLock, r => { g with locked := g.locked || r.isOk }
  | .unlock, _ => { g with locked := false, absent := false }
  | .readDir, r =>
    match r with
    | .ok names => { g with absent := g.locked && showsAbsent C g.op names }
    | .error .notFound => { g with absent := g.locked && showsAbsent C g.op [] }
    | .error _ => g
  | .removeDirAll _, _ => { g with staged := false, synced := false }
  | .write _ _, r => { g with staged := r.isOk, synced := false }
  | .syncAll _, r => { g with synced := g.synced || r.isOk }
  | .rename _ _, r =>
    if r.isOk then { g with absent := false, staged := false, promoted := true } else g
  | .removeFile _, r => { g with removed := g.removed || r.isOk }
  | .createDirAll, _ | .setMode _ _, _ | .createDir _, _ | .readToString _, _ | .openLock _, _
  | .syncDir, _ => g

end Progress

/-- What the operations are held to. -/
def protocol (C : Crates Addr) : Protocol fsSig (Progress Addr) where
  allowed := Progress.allowed C
  next := Progress.next C

/-- Where an operation leaves off: without the lock, with nothing of its own staged, and answering
`ok` to a create exactly when the file was given the account's name, and to a forget exactly when
the file was taken away. -/
def Finished (C : Crates Addr) (op : VaultOp Addr) (res : VaultResult Addr) (g : Progress Addr) :
    Prop :=
  g.op = op ∧ g.locked = false ∧ g.staged = false ∧
    match op with
    | .create key _ _ =>
      res = .ok (.created (C.addrOf key)) ∧ g.promoted = true ∨
        (∃ e, res = .error e) ∧ g.promoted = false
    | .forget _ => res = .ok .forgotten ∧ g.removed = true ∨
        (∃ e, res = .error e) ∧ g.removed = false
    | _ => True

/-- The processes, each numbered. -/
def processes (C : Crates Addr) :
    Threads fsSig Fs (Progress Addr) (VaultOp Addr) (VaultResult Addr) ℕ where
  exec := Fs.Step
  body := VaultOp.body C
  protocol := protocol C
  enter op := { op }

/-- A state of the processes on one directory. -/
abbrev VaultState (Addr : Type) :=
  Threads.State fsSig Fs (Progress Addr) (VaultOp Addr) (VaultResult Addr) ℕ

/-! ### Leaving each other's stage alone -/

/-- The call takes away, rewrites or moves what is in the stage of that name. -/
def disturbs (stage : List Char) : FsCall → Bool
  | .removeDirAll name => name = stage
  | .write path _ => path = .staged stage
  | .rename src _ => src = .staged stage
  | _ => false

/-- The call a process makes leaves the key file another process has waiting in its stage. -/
def apart (C : Crates Addr) (s : VaultState Addr) (i : ℕ) (c : FsCall) : Prop :=
  ∀ j t key password seed, j ≠ i → s.running j = some t → t.op = .create key password seed →
    t.ghost.staged = true → disturbs (stageName C (C.addrOf key)) c = false

/-- `apart`, where the others that run are among `js`. -/
def apartFrom (C : Crates Addr) (js : List ℕ) (s : VaultState Addr) (i : ℕ) (c : FsCall) : Bool :=
  js.all fun j => j = i || (match s.running j with
    | some ⟨.create key _ _, _, g⟩ => !g.staged || !disturbs (stageName C (C.addrOf key)) c
    | _ => true)

/-! ### What happened -/

/-- An event of the processes on one directory. -/
abbrev VaultEvent (Addr : Type) := Event fsSig (VaultOp Addr) (VaultResult Addr) ℕ

/-- A create of the account returned `Ok`. -/
def createdOk (addr : Addr) : VaultEvent Addr → Bool
  | .returned _ (.create _ _ _) (.ok (.created addr')) => addr' = addr
  | _ => false

/-- A create gave its staged file the account's name. -/
def promotedOk (C : Crates Addr) (addr : Addr) : VaultEvent Addr → Bool
  | .called _ (.create key _ _) (.rename _ _) (.ok _) => C.addrOf key = addr
  | _ => false

/-- A file of the account was taken away. -/
def removedOk (C : Crates Addr) (addr : Addr) : VaultEvent Addr → Bool
  | .called _ _ (.removeFile name) (.ok _) =>
    name = pathOf C addr true || name = pathOf C addr false
  | _ => false

end AccountLogUi.Vault
