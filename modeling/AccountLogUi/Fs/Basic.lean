import AccountLogUi.Json
import AccountLogUi.Library.Threads
import Mathlib.Data.List.AList

/-!
# The vault directory

The one directory this app keeps its data in, and the filesystem calls made on it.  The directory
holds files and, while a key file is being staged, directories with one file in them; a file
remembers whether its content was synced.  Beside it is the one advisory lock, on the lock file.

`Fs.exec` is what a call of a process does.  A call may be given a `Fault`: it then fails, and of
what it would have done it leaves only what the fault says.
-/

namespace AccountLogUi

/-- A name in a directory, UTF-8 or not. -/
inductive OsString
  | utf8 (name : List Char)
  | bytes (name : List UInt8)
deriving DecidableEq

/-- `OsStr::to_str`. -/
def OsString.toStr : OsString → Option (List Char)
  | .utf8 name => some name
  | .bytes _ => none

/-- The kinds of I/O failure the app tells apart, and the rest. -/
inductive IoError
  | notFound
  | alreadyExists
  | wouldBlock
  | invalidData
  | other (code : ℕ)
deriving DecidableEq

structure File where
  content : Content
  /-- Whether the content would survive a power cut. -/
  synced : Bool

/-- What a name stands for: a file, or a directory with at most the staged file in it. -/
inductive Node
  | file (file : File)
  | dir (staged : Option File)

/-- The directory, absent until the first write, and the process holding the lock. -/
structure Fs where
  dir : Option (AList fun _ : OsString => Node)
  lock : Option ℕ

/-- What a call names: the directory, an entry of it, or the staged file in an entry of it. -/
inductive Path
  | root
  | top (name : List Char)
  | staged (name : List Char)
deriving DecidableEq

/-- The filesystem calls. -/
inductive FsCall
  | createDirAll
  | setMode (path : Path) (mode : ℕ)
  | removeDirAll (name : List Char)
  | createDir (name : List Char)
  | write (path : Path) (content : Content)
  | readDir
  | readToString (name : List Char)
  | openLock (name : List Char)
  | tryLock
  | unlock
  | syncAll (path : Path)
  | syncDir
  | rename (src : Path) (dest : List Char)
  | removeFile (name : List Char)

/-- What a call answers when it does not fail. -/
abbrev FsCall.Value : FsCall → Type
  | .readDir => List OsString
  | .readToString _ => Text
  | _ => Unit

/-- The signature of filesystem calls. -/
abbrev fsSig : Sig where
  Call := FsCall
  Answer c := Except IoError c.Value

/-- A call that fails: with which code, and the content a write left behind, if it left any. -/
structure Fault where
  code : ℕ
  leaves : Option Content

namespace Fs

/-- Before the first write: no directory, and no one holding the lock. -/
def empty : Fs := ⟨none, none⟩

/-- The directory's entry of that name. -/
def node (fs : Fs) (name : List Char) : Option Node :=
  fs.dir.bind fun dir => dir.lookup (.utf8 name)

/-- The file of that name, in the directory itself. -/
def file (fs : Fs) (name : List Char) : Option File :=
  match fs.node name with
  | some (.file file) => some file
  | _ => none

/-- The file staged in the directory of that name. -/
def staged (fs : Fs) (name : List Char) : Option File :=
  match fs.node name with
  | some (.dir staged) => staged
  | _ => none

/-- Put an entry under a name. -/
def insert (fs : Fs) (name : List Char) (node : Node) : Fs :=
  { fs with dir := fs.dir.map (·.insert (.utf8 name) node) }

/-- Take the entry of that name away. -/
def erase (fs : Fs) (name : List Char) : Fs :=
  { fs with dir := fs.dir.map (·.erase (.utf8 name)) }

/-- The file a path names. -/
def fileAt (fs : Fs) : Path → Option File
  | .root => none
  | .top name => fs.file name
  | .staged name => fs.staged name

/-- Put a file where a path says. -/
def putFile (fs : Fs) (path : Path) (file : File) : Fs :=
  match path with
  | .root => fs
  | .top name => fs.insert name (.file file)
  | .staged name => fs.insert name (.dir (some file))

/-- Write `content` where `path` says, unsynced. -/
def writeFile (fs : Fs) (path : Path) (content : Content) : Except IoError Unit × Fs :=
  match path with
  | .root => (.error (.other 21), fs)
  | .top name =>
    match fs.dir, fs.node name with
    | none, _ => (.error .notFound, fs)
    | some _, some (.dir _) => (.error (.other 21), fs)
    | some _, _ => (.ok (), fs.putFile path ⟨content, false⟩)
  | .staged name =>
    match fs.node name with
    | none => (.error .notFound, fs)
    | some (.file _) => (.error (.other 20), fs)
    | some (.dir _) => (.ok (), fs.putFile path ⟨content, false⟩)

/-- Whether something is there. -/
def has (fs : Fs) : Path → Bool
  | .root => fs.dir.isSome
  | .top name => (fs.node name).isSome
  | .staged name => (fs.staged name).isSome

/-- Take the file at `src` away, so that it can be put elsewhere. -/
def takeFile (fs : Fs) : Path → Fs
  | .root => fs
  | .top name => fs.erase name
  | .staged name => fs.insert name (.dir none)

/-- `rename`, of a file onto a name of the directory itself. -/
def renameFile (fs : Fs) (src : Path) (dest : List Char) : Except IoError Unit × Fs :=
  match fs.fileAt src, fs.node dest with
  | none, _ => (.error .notFound, fs)
  | some _, some (.dir _) => (.error (.other 21), fs)
  | some file, _ => (.ok (), (fs.takeFile src).insert dest (.file file))

/-- What a call of process `pid` answers and leaves when nothing fails it. -/
def perform (pid : ℕ) (fs : Fs) : (c : FsCall) → Except IoError c.Value × Fs
  | .createDirAll => (.ok (), { fs with dir := some (fs.dir.getD ∅) })
  | .setMode path _ => (if fs.has path then .ok () else .error .notFound, fs)
  | .removeDirAll name =>
    match fs.node name with
    | none => (.error .notFound, fs)
    | some (.file _) => (.error (.other 20), fs)
    | some (.dir _) => (.ok (), fs.erase name)
  | .createDir name =>
    match fs.dir, fs.node name with
    | none, _ => (.error .notFound, fs)
    | some _, some _ => (.error .alreadyExists, fs)
    | some _, none => (.ok (), fs.insert name (.dir none))
  | .write path content => fs.writeFile path content
  | .readDir =>
    match fs.dir with
    | none => (.error .notFound, fs)
    | some dir => (.ok dir.keys, fs)
  | .readToString name =>
    match fs.node name with
    | none => (.error .notFound, fs)
    | some (.dir _) => (.error (.other 21), fs)
    | some (.file ⟨.binary, _⟩) => (.error .invalidData, fs)
    | some (.file ⟨.text text, _⟩) => (.ok text, fs)
  | .openLock name =>
    match fs.dir, fs.node name with
    | none, _ => (.error .notFound, fs)
    | some _, some (.dir _) => (.error (.other 21), fs)
    | some _, some (.file _) => (.ok (), fs)
    | some _, none => (.ok (), fs.insert name (.file ⟨.text .other, false⟩))
  | .tryLock =>
    match fs.lock with
    | none => (.ok (), { fs with lock := some pid })
    | some _ => (.error .wouldBlock, fs)
  | .unlock => (.ok (), if fs.lock = some pid then { fs with lock := none } else fs)
  | .syncAll path =>
    match fs.fileAt path with
    | none => (.error .notFound, fs)
    | some file => (.ok (), fs.putFile path { file with synced := true })
  -- The directory's own changes are durable as they are made (`Fs.Lost`).
  | .syncDir => (.ok (), fs)
  | .rename src dest => fs.renameFile src dest
  | .removeFile name =>
    match fs.node name with
    | none => (.error .notFound, fs)
    | some (.dir _) => (.error (.other 21), fs)
    | some (.file _) => (.ok (), fs.erase name)

/-- What a call that fails leaves: part of a write, or a directory whose file is gone already. -/
def spoil (fs : Fs) (fault : Fault) : FsCall → Fs
  | .write path _ =>
    match fault.leaves with
    | none => fs
    | some content => (fs.writeFile path content).2
  | .removeDirAll name =>
    match fault.leaves, fs.node name with
    | some _, some (.dir _) => fs.insert name (.dir none)
    | _, _ => fs
  | _ => fs

/-- What a call of process `pid` answers and leaves, failing when it is given a fault.  Giving up
the lock is closing a file and does not fail. -/
def exec (pid : ℕ) (fs : Fs) (c : FsCall) (fault : Option Fault) : Except IoError c.Value × Fs :=
  match fault, c with
  | none, c => fs.perform pid c
  | some _, .unlock => fs.perform pid .unlock
  | some fault, c => (.error (.other fault.code), fs.spoil fault c)

/-- Some way a call of process `pid` can go. -/
def Step (pid : ℕ) (fs : Fs) (c : FsCall) (r : Except IoError c.Value) (fs' : Fs) : Prop :=
  ∃ fault, fs.exec pid c fault = (r, fs')

end Fs

/-! ### One process, one call after another -/

/-- The directory as one process finds it, and what will go wrong with its next calls. -/
structure Disk where
  fs : Fs
  faults : List (Option Fault)

/-- One call, with the next fault. -/
def Disk.exec (disk : Disk) (c : FsCall) : Except IoError c.Value × Disk :=
  let (r, fs) := disk.fs.exec 0 c disk.faults.head?.join
  (r, ⟨fs, disk.faults.tail⟩)

/-- A whole program, alone. -/
def Disk.run {α : Type} (disk : Disk) (p : Prog fsSig α) : α × Disk :=
  p.run (S := fsSig) Disk.exec disk

end AccountLogUi
