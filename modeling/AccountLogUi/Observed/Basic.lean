import AccountLogUi.Crates
import AccountLogUi.Fs.Programs
import Mathlib.Data.Char
import Mathlib.Data.List.Destutter
import Mathlib.Data.List.Lex
import Mathlib.Data.List.Sort

/-!
# The observed accounts

The addresses this app reads the logs of and holds no key for: one document, in the vault's
directory, written whole beside the list and renamed over it.
-/

namespace AccountLogUi

inductive ObservedError
  | corrupt (why : String)
  | io (error : IoError)
deriving DecidableEq

namespace Observed

/-- `FILE`. -/
def observedFile : List Char := "observed.json".toList

/-- `STAGED_FILE`. -/
def stagedFile : List Char := ".observed.json.new".toList

def version : ℕ := 1

structure Document where
  logosAccountObserved : ℕ
  addresses : List String

/-- `serde_json::from_str` into it. -/
def Document.fromStr (text : Text) : Except String Document := do
  match ← text.fromStr with
  | .obj members =>
    let version ← Json.field members "logos_account_observed"
    let addresses ← Json.field members "addresses"
    let version ← version.elim (pure 0) Json.deserializeU32
    let some addresses := addresses | throw "missing field addresses"
    return ⟨version, ← addresses.deserializeVec Json.deserializeString⟩
  | .arr [version, addresses] =>
    return ⟨← version.deserializeU32, ← addresses.deserializeVec Json.deserializeString⟩
  | .arr _ => throw "invalid length, expected struct Document with 2 elements"
  | _ => throw "invalid type, expected struct Document"

variable {Addr : Type} [DecidableEq Addr] (C : Crates Addr)

/-- The addresses a document lists, in address order, or why it is not one this app wrote. -/
def ofText (text : Text) : Except ObservedError (List Addr) := do
  let document ← (Document.fromStr text).mapError .corrupt
  if document.logosAccountObserved ≠ version then
    throw (.corrupt "not a list this version writes")
  let addresses ← document.addresses.mapM fun address =>
    match C.parseAddr address.toList with
    | some addr => Except.ok addr
    | none => .error (.corrupt (address ++ " is not an address"))
  return (addresses.insertionSort fun a b => C.addrText a ≤ C.addrText b).destutter (· ≠ ·)

/-- Every address observed, in address order.  No file is no accounts. -/
def list : FsM ObservedError (List Addr) :=
  ExceptT.mk (.call (.readToString observedFile) fun
    | .error .notFound => .ret (.ok [])
    | .error e => .ret (.error (.io e))
    | .ok text => .ret (ofText C text))

/-- The document listing `observed`. -/
def documentOf (observed : List Addr) : Json :=
  .obj [("logos_account_observed", .num version),
    ("addresses", .arr (((observed.map C.addrText).insertionSort (· ≤ ·)).map fun address =>
      .str (String.ofList address)))]

def write (observed : List Addr) : FsM ObservedError Unit := do
  let _ ← FsM.io .io .createDirAll
  let _ ← FsM.io .io (.setMode .root 0o700)
  let _ ← FsM.io .io (.write (.top stagedFile) (.text (.json (documentOf C observed))))
  let _ ← FsM.io .io (.setMode (.top stagedFile) 0o600)
  let _ ← FsM.io .io (.syncAll (.top stagedFile))
  let _ ← FsM.io .io (.rename (.top stagedFile) observedFile)
  FsM.quiet .syncDir

/-- Start observing `addr`.  Answers whether it was not already observed. -/
def add (addr : Addr) : FsM ObservedError Bool := do
  let observed ← list C
  if observed.contains addr then return false
  write C (observed ++ [addr])
  return true

/-- Stop observing `addr`.  Answers whether it was observed at all. -/
def remove (addr : Addr) : FsM ObservedError Bool := do
  let observed ← list C
  let kept := observed.filter (· ≠ addr)
  if kept.length = observed.length then return false
  write C kept
  return true

end Observed

end AccountLogUi
