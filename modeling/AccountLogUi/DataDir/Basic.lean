import AccountLogUi.Observed.Equiv.Set
import AccountLogUi.Vault.Processes

/-!
# The data directory

The vault and the list of observed accounts share one directory.  One process runs an operation of
either at a time; its calls can fail, and the machine can go down between two of them, or in the
middle of a write.

`Fs.Lost` is what is left then: what was synced, under the names it has, and anything at all of what
was not.  It is a file's content that can be lost.  That the directory's own changes, a rename or a
removal, are there after a crash in the order they were made is assumed of the filesystem, so the
syncing of the directory after a rename, which the source ignores the failure of, adds nothing here.
-/

namespace AccountLogUi

/-- What is left of an entry once the machine went down. -/
inductive Node.Survives : Option Node → Option Node → Prop
  | nothing : Survives none none
  | synced (content : Content) :
      Survives (some (.file ⟨content, true⟩)) (some (.file ⟨content, true⟩))
  | torn (content : Content) (left : File) :
      Survives (some (.file ⟨content, false⟩)) (some (.file left))
  | gone (content : Content) : Survives (some (.file ⟨content, false⟩)) none
  /-- A directory a file is staged in, with anything in it. -/
  | stage (staged staged' : Option File) : Survives (some (.dir staged)) (some (.dir staged'))
  | noStage (staged : Option File) : Survives (some (.dir staged)) none

/-- What is left of a directory, whose own changes are taken to be durable once made.  The lock goes
with the process that held it. -/
structure Fs.Lost (fs fs' : Fs) : Prop where
  free : fs'.lock = none
  survives : ∀ name, Node.Survives (fs.node name) (fs'.node name)

namespace DataDir

open Vault

variable {Addr : Type} [DecidableEq Addr]

/-- An operation of the vault, or on the list of observed accounts. -/
inductive DataOp (Addr : Type)
  | vault (op : VaultOp Addr)
  | observed (op : Observed.Op Addr)

inductive DataAnswer (Addr : Type)
  | vault (answer : VaultResult Addr)
  | observed (answer : Except ObservedError (Observed.Answer Addr))

namespace DataOp

variable (C : Crates Addr)

def body : DataOp Addr → Prog fsSig (DataAnswer Addr)
  | .vault op => (op.body C).bind fun answer => .ret (.vault answer)
  | .observed op => (op.body C).run.bind fun answer => .ret (.observed answer)

/-- What it answers and leaves where no call fails. -/
def alone (op : DataOp Addr) (fs : Fs) : DataAnswer Addr × Fs :=
  (op.body C).run (S := fsSig) (Fs.perform 0) fs

/-- What operations answer one after another. -/
def answers : List (DataOp Addr) → Fs → List (DataAnswer Addr)
  | [], _ => []
  | op :: ops, fs => (op.alone C fs).1 :: answers ops (op.alone C fs).2

/-- The machine goes down after any number of the operation's calls, the last of which may have come
only part of its way. -/
def Crash (op : DataOp Addr) (fs fs' : Fs) : Prop :=
  ∃ fs₁, (op.body C).Partway (S := fsSig) (Fs.Step 0) fs fs₁ ∧ fs₁.Lost fs'

end DataOp

/-- What the directory can come to: from nothing, by operations whose calls may fail, and by going
down in the middle of one. -/
inductive Reachable (C : Crates Addr) : Fs → Prop
  | empty {fs : Fs} (hempty : ∀ name, fs.node name = none) (hfree : fs.lock = none) : Reachable C fs
  | run {disk : Disk} (h : Reachable C disk.fs) (op : DataOp Addr) :
      Reachable C (disk.run (op.body C)).2.fs
  | crash {fs fs' : Fs} (h : Reachable C fs) {op : DataOp Addr} (hcrash : op.Crash C fs fs') :
      Reachable C fs'

/-- The names the app reads. -/
def Real (C : Crates Addr) (name : List Char) : Prop :=
  (∃ addr protected_, name = pathOf C addr protected_) ∨ name = Observed.observedFile

end DataDir

end AccountLogUi
