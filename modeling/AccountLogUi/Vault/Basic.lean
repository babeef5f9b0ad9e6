import AccountLogUi.Crates
import AccountLogUi.Fs.Programs
import AccountLogUi.Library.Hex
import Mathlib.Data.Char
import Mathlib.Data.List.Lex
import Mathlib.Data.List.Sort

/-!
# The vault

The account keys this app holds, on disk: one file per account, named after its address, sealed
with a password or in the clear.  Every operation is a program of filesystem calls, as the source
makes them; what a failing call leads to is what its `?` does.
-/

namespace AccountLogUi

inductive VaultError (Addr : Type)
  | noAccount
  | accountExists (addr : Addr)
  | emptyPassword
  | passwordRequired
  | passwordNotRequired
  | wrongPassword
  | corrupt (why : String)
  | io (error : IoError)
deriving DecidableEq

/-- An account the vault holds, and whether opening it takes a password. -/
structure StoredAccount (Addr : Type) where
  addr : Addr
  protected_ : Bool
deriving DecidableEq

namespace Vault

def lockFile : List Char := ".lock".toList

/-- Marks the file of an account that chose no password. -/
def openSuffix : List Char := ".open.json".toList

def sealedSuffix : List Char := ".json".toList

/-! ### File names -/

/-- `str::strip_suffix`. -/
def stripSuffix (name suffix : List Char) : Option (List Char) :=
  if suffix.isSuffixOf name then some (name.take (name.length - suffix.length)) else none

section

variable {Addr : Type} [DecidableEq Addr] (C : Crates Addr)

/-- The directory a key file for `addr` is staged in. -/
def stageName (addr : Addr) : List Char := ".stage-".toList ++ C.addrText addr

/-- The name of the file `addr` is kept in. -/
def pathOf (addr : Addr) (protected_ : Bool) : List Char :=
  C.addrText addr ++ if protected_ then sealedSuffix else openSuffix

/-- The account a directory entry is the file of, if it is one. -/
def accountOf (name : OsString) : Option (StoredAccount Addr) := do
  let name ← name.toStr
  let (stem, protected_) ← ((stripSuffix name openSuffix).map fun stem => (stem, false)).or
    ((stripSuffix name sealedSuffix).map fun stem => (stem, true))
  let addr ← C.parseAddr stem
  return ⟨addr, protected_⟩

/-- What the entries of the directory list, in the order they come, after `held`. -/
def gather (held : List (StoredAccount Addr)) :
    List OsString → Except (VaultError Addr) (List (StoredAccount Addr))
  | [] => .ok held
  | name :: names =>
    match accountOf C name with
    | none => gather held names
    | some account =>
      if held.any (·.addr = account.addr) then
        .error (.corrupt (String.ofList (C.addrText account.addr) ++
          " is held both with and without a password"))
      else gather (held ++ [account]) names

/-- The accounts the directory's entries list, in address order. -/
def listing (names : List OsString) : Except (VaultError Addr) (List (StoredAccount Addr)) :=
  (gather C [] names).map
    (List.insertionSort fun a b => C.addrText a.addr ≤ C.addrText b.addr)

/-! ### What the files hold -/

/-- What an account without a password is stored as. -/
def openWarning : String :=
  "This file holds the account key in the clear. Anything that can read it is this account."

def writeOpenDocument (addr : Addr) (key : Ed25519SigningKey) : Json :=
  .obj [("logos_account_vault", .num 1), ("address", .str (String.ofList (C.addrText addr))),
    ("protection", .str "none"), ("key", .str (String.ofList (Hex.encode key.bytes.toList))),
    ("warning", .str openWarning)]

/-- The file a key is written into, sealed under a password or in the clear. -/
def keyFile (key : Ed25519SigningKey) (password : Option String) (seed : ℕ) : Content :=
  .text (.json (match password with
    | some password => C.encryptKey seed key.bytes.toList password
    | none => writeOpenDocument C (C.addrOf key) key))

/-- What `read_open` takes from the document. -/
structure ReadOpenDocument where
  logosAccountVault : ℕ
  key : Option String

/-- `serde_json::from_str` into it. -/
def ReadOpenDocument.fromStr (text : Text) : Except String ReadOpenDocument := do
  match ← text.fromStr with
  | .obj members =>
    let version ← Json.field members "logos_account_vault"
    let key ← Json.field members "key"
    let version ← version.elim (pure 0) Json.deserializeU32
    let key ← key.elim (pure none) (Json.deserializeOption Json.deserializeString)
    return ⟨version, key⟩
  | .arr [version, key] =>
    return ⟨← version.deserializeU32, ← key.deserializeOption Json.deserializeString⟩
  | .arr _ => throw "invalid length, expected struct ReadOpenDocument with 2 elements"
  | _ => throw "invalid type, expected struct ReadOpenDocument"

/-- A key of the bytes decoded, which are thirty-two. -/
def toKey (bytes : List UInt8) : Option Ed25519SigningKey :=
  if h : bytes.length = 32 then some ⟨⟨bytes, h⟩⟩ else none

/-- `read_open`, from the text of the file. -/
def readOpen (text : Text) : Except (VaultError Addr) Ed25519SigningKey := do
  let document ← (ReadOpenDocument.fromStr text).mapError .corrupt
  if document.logosAccountVault ≠ 1 then
    throw (.corrupt "not a vault document this version writes")
  let some hexKey := document.key | throw (.corrupt "the document carries no key")
  match Hex.decodeToSlice 32 hexKey.toList with
  | .ok bytes =>
    let some key := toKey bytes | throw (.corrupt "the key is not 32 bytes")
    return key
  | .error (.invalidHexCharacter _) => throw (.corrupt "the key is not hex")
  | .error _ => throw (.corrupt ("the key is " ++ toString hexKey.utf8ByteSize ++
      " hex characters, not 64"))

/-! ### The scrypt ceilings -/

def maxScryptN : ℕ := 2 ^ 18
def maxScryptR : ℕ := 16
def maxScryptP : ℕ := 16

/-- n * r * p at geth's standard parameters. -/
def maxScryptWork : ℕ := 2 ^ 18 * 8

/-- Refuses parameters that would make decryption panic or exhaust memory, before any derivation
runs. -/
def checkParams (text : Text) : Except (VaultError Addr) Unit := do
  let vault ← text.fromStr.mapError .corrupt
  let crypto := vault.index "crypto"
  if (crypto.index "kdf").asStr ≠ some "scrypt" then
    throw (.corrupt "the key derivation is not scrypt")
  let scryptOnly := (crypto.index "kdfparams").asObject.any fun params =>
    params.all fun member => ["dklen", "n", "r", "p", "salt"].contains member.1
  if !scryptOnly then
    throw (.corrupt "the key derivation parameters are not scrypt's")
  let param name := ((crypto.index "kdfparams").index name).asU64
  let (some dklen, some n, some r, some p) := (param "dklen", param "n", param "r", param "p")
    | throw (.corrupt "scrypt parameters are missing")
  let ivBytes := ((crypto.index "cipherparams").index "iv").asStr.elim 0 String.utf8ByteSize / 2
  if dklen ≠ 32 ∨ ivBytes ≠ 16 then
    throw (.corrupt "the derived key or IV length is wrong")
  if ¬n.isPowerOfTwo ∨ n > maxScryptN ∨ r > maxScryptR ∨ p > maxScryptP ∨
      n * r * p > maxScryptWork then
    throw (.corrupt "scrypt parameters are out of range")

/-! ### The operations -/

/-- Every account held, in address order, read from the file names alone. -/
def accounts : FsM (VaultError Addr) (List (StoredAccount Addr)) :=
  ExceptT.mk (.call .readDir fun
    | .error .notFound => .ret (.ok [])
    | .error e => .ret (.error (.io e))
    | .ok names => .ret (listing C names))

/-- Held across a create's check and rename.  The wait for another process is the one call. -/
def lock : FsM (VaultError Addr) Unit := do
  let _ ← FsM.io .io (.openLock lockFile)
  FsM.io .io .tryLock

/-- `Stage::promote`. -/
def promote (stage dest : List Char) : FsM (VaultError Addr) Unit := do
  let _ ← FsM.io .io (.setMode (.staged stage) 0o600)
  let _ ← FsM.io .io (.syncAll (.staged stage))
  let _ ← FsM.io .io (.rename (.staged stage) dest)
  FsM.quiet .syncDir

/-- Take `key` into the vault, under `password` when there is one.  Refused when the account is
already held, so a key is never replaced. -/
def create (key : Ed25519SigningKey) (password : Option String) (seed : ℕ) :
    FsM (VaultError Addr) Addr := do
  if password = some "" then throw .emptyPassword
  let addr := C.addrOf key
  let stage := stageName C addr
  let _ ← FsM.io .io .createDirAll
  let _ ← FsM.io .io (.setMode .root 0o700)
  -- `Stage::create`; from here on the stage is removed whatever happens.
  FsM.quiet (.removeDirAll stage)
  let _ ← FsM.io .io (.createDir stage)
  FsM.dropping (.removeDirAll stage) do
    let _ ← FsM.io .io (.setMode (.top stage) 0o700)
    let _ ← FsM.io .io (.write (.staged stage) (keyFile C key password seed))
    lock
    FsM.dropping .unlock do
      let held ← accounts C
      if held.any (·.addr = addr) then throw (.accountExists addr)
      promote stage (pathOf C addr password.isSome)
      return addr

/-- The key in the sealed file at `path`. -/
def openSealed (path : List Char) (password : String) :
    FsM (VaultError Addr) Ed25519SigningKey := do
  let text ← FsM.io .io (.readToString path)
  ExceptT.mk (.ret (checkParams text))
  -- `decrypt_key` reads the file itself.
  let secret ← ExceptT.mk (.call (.readToString path) fun
    | .error _ => .ret (.error (.corrupt "io error"))
    | .ok text => .ret ((C.decryptKey (.text text) password).mapError fun
      | .macMismatch => .wrongPassword
      | .other why => .corrupt why))
  ExceptT.mk (.ret (match toKey secret with
    | some key => .ok key
    | none =>
      .error (.corrupt ("the sealed key is " ++ toString secret.length ++ " bytes, not 32"))))

/-- The key in the file at `path`, which is in the clear. -/
def openClear (path : List Char) : FsM (VaultError Addr) Ed25519SigningKey := do
  let text ← FsM.io .io (.readToString path)
  ExceptT.mk (.ret (readOpen text))

/-- The key of `addr`, for the caller to use and drop.  `password` must match what the account
chose. -/
def openKey (addr : Addr) (password : Option String) :
    FsM (VaultError Addr) Ed25519SigningKey := do
  let held ← accounts C
  let some held := held.find? (·.addr = addr) | throw .noAccount
  let path := pathOf C addr held.protected_
  let key ← (match held.protected_, password with
    | true, some password => openSealed C path password
    | false, none => openClear path
    | true, none => throw .passwordRequired
    | false, some _ => throw .passwordNotRequired : FsM (VaultError Addr) Ed25519SigningKey)
  -- The file name is a claim; the key is the proof.
  if C.addrOf key ≠ addr then
    throw (.corrupt ("the file named for " ++ String.ofList (C.addrText addr) ++
      " holds another account's key"))
  return key

/-- Drop `addr` from the vault. -/
def forget (addr : Addr) : FsM (VaultError Addr) Unit := do
  let held ← accounts C
  let some held := held.find? (·.addr = addr) | throw .noAccount
  lock
  FsM.dropping .unlock do
    FsM.io .io (.removeFile (pathOf C addr held.protected_))

end

end Vault

end AccountLogUi
