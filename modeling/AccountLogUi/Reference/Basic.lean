import AccountLogUi.Crates
import AccountLogUi.Library.Hex

/-!
# Reference crates

Crates small enough to evaluate, which behave as the app relies on them to.  The log format is
framed as the account-log crate frames it: a domain of 17 bytes, then for each entry its opcode,
the length of its body in two bytes, and the body, so a removal is 7 bytes, an endorsed key 48 and
a display name 24 and its own.  In place of cryptography, a key is its own public key and its own
signature, and a sealed file holds the password it asks for.
-/

namespace AccountLogUi

namespace Reference

/-- An address is a public key. -/
abbrev Addr := Ed25519VerifyingKey

/-! ### Entries as bytes -/

/-- Four bytes, high byte first. -/
def be32 (n : ℕ) : List UInt8 :=
  [UInt8.ofNat (n / 2 ^ 24), UInt8.ofNat (n / 2 ^ 16), UInt8.ofNat (n / 2 ^ 8), UInt8.ofNat n]

/-- An entry: its opcode, the length of its body, and the body. -/
def frame (opcode : UInt8) (body : List UInt8) : List UInt8 :=
  opcode :: UInt8.ofNat (body.length / 256) :: UInt8.ofNat body.length :: body

/-- The bytes of a text. -/
def textBytes (text : String) : List UInt8 := text.toByteArray.data.toList

/-- The text some bytes spell. -/
def textOf (bytes : List UInt8) : Option String := String.fromUTF8? ⟨⟨bytes⟩⟩

/-- A type tag, and what it tags. -/
def dataBytes : EntryData → List UInt8
  | .ed25519Key key => 1 :: key.toList
  | .text value => 2 :: textBytes value
  | .other tag body => tag :: body

def addBytes (context : Context) (data : EntryData) : List UInt8 :=
  UInt8.ofNat (textBytes context).length :: textBytes context ++ dataBytes data

def entryBytes : AccountEntry → List UInt8
  | .add context data => frame 1 (addBytes context data)
  | .remove index => frame 2 (be32 index)
  | .unknown opcode body => frame opcode body

def dataOf : List UInt8 → Option EntryData
  | [] => none
  | tag :: body =>
    if tag = 1 then
      if h : body.length = 32 then some (.ed25519Key ⟨body, h⟩) else none
    else if tag = 2 then (textOf body).map .text
    else some (.other tag body)

/-- The entry with this opcode and body. -/
def entryOf (opcode : UInt8) (body : List UInt8) : Option AccountEntry :=
  if opcode = 1 then
    match body with
    | [] => none
    | size :: body => do
      let context ← textOf (body.take size.toNat)
      let data ← dataOf (body.drop size.toNat)
      return .add context data
  else if opcode = 2 then
    match body with
    | [a, b, c, d] =>
      some (.remove (((a.toNat * 256 + b.toNat) * 256 + c.toNat) * 256 + d.toNat))
    | _ => none
  else some (.unknown opcode body)

/-- The entry some bytes start with, and the bytes after it. -/
def decodeEntry : List UInt8 → Option (AccountEntry × List UInt8)
  | opcode :: hi :: lo :: rest =>
    let size := hi.toNat * 256 + lo.toNat
    if size ≤ rest.length then
      match entryOf opcode (rest.take size) with
      | some entry =>
        if entryBytes entry = opcode :: hi :: lo :: rest.take size then
          some (entry, rest.drop size)
        else none
      | none => none
    else none
  | _ => none

/-- The entries some bytes spell, with fuel for each. -/
def decodeEntries : ℕ → List UInt8 → Option (List AccountEntry)
  | _, [] => some []
  | 0, _ :: _ => none
  | fuel + 1, bytes => do
    let (entry, rest) ← decodeEntry bytes
    let entries ← decodeEntries fuel rest
    return entry :: entries

def domain : List UInt8 := utf8 "logos:account-log".toList

def decode (payload : List UInt8) : Except AccountLogError AccountLog :=
  if domain.isPrefixOf payload then
    match decodeEntries payload.length (payload.drop domain.length) with
    | some entries => .ok ⟨entries⟩
    | none => .error (.other "an entry is malformed")
  else .error (.other "not an account log")

/-! ### Drafts -/

/-- The addition fits its frame, and is not spelled as another kind of data. -/
def fitsFrame (context : Context) (data : EntryData) : Bool :=
  (textBytes context).length < 256 && (addBytes context data).length < 65536 &&
    match data with
    | .other tag _ => tag ≠ 1 && tag ≠ 2
    | _ => true

/-- The key is live somewhere in the log. -/
def keyLive (entries : List AccountEntry) (key : Bytes32) : Bool :=
  (indexed entries).any fun e => isLive entries e.index &&
    match e.entry with
    | .add _ (.ed25519Key key') => key' = key
    | _ => false

/-- The addition is of a key live already. -/
def repeatsKey (entries : List AccountEntry) : EntryData → Bool
  | .ed25519Key key => keyLive entries key
  | _ => false

def push (draft : AccountLogDraft) (entry : AccountEntry) :
    Except AccountLogError AccountLogDraft :=
  match entry with
  | .add context data =>
    if !fitsFrame context data then .error (.other "the entry is too long")
    else if repeatsKey draft.entries data then .error (.other "the key is live already")
    else .ok ⟨draft.entries ++ [entry]⟩
  | .remove index =>
    if isLive draft.entries index then .ok ⟨draft.entries ++ [entry]⟩
    else .error (.other "not a live entry")
  | .unknown _ _ => .error (.other "an opcode this build does not know")

def fromLog (log : AccountLog) : Except AccountLogError AccountLogDraft :=
  log.entries.foldlM push .new

/-! ### Keys and files -/

def parseAddr (text : List Char) : Option Addr :=
  match Hex.decode text with
  | .ok bytes =>
    if h : bytes.length = 32 then
      if Hex.encode bytes = text then some ⟨⟨bytes, h⟩⟩ else none
    else none
  | .error _ => none

def verify (addr : Addr) (signed : SignedAccountLog) : Except AccountLogError AccountLog :=
  if signed.signature = addr.bytes.toList then decode signed.payload
  else .error (.other "the signature does not check")

def encode (log : AccountLog) : Except AccountLogError (List UInt8) :=
  let payload := domain ++ log.entries.flatMap entryBytes
  if payload.length ≤ 131072 then .ok payload else .error (.tooLarge payload.length)

def resolve (addr : Addr) (held : Option AccountRecord) (fetched : Option SignedAccountLog) :
    Except AccountError (Option AccountRecord) :=
  match fetched with
  | none => .ok held
  | some signed => do
    let log ← (verify addr signed).mapError .log
    if held.all (·.log.entries.isPrefixOf log.entries) then return some ⟨log, signed⟩
    else throw .forked

def update (key : Ed25519SigningKey) (base : Option SignedAccountLog)
    (entries : List AccountEntry) : Except AccountError SignedAccountLog :=
  Except.mapError AccountError.log do
    let log ← base.elim (.ok ⟨[]⟩) (verify ⟨key.bytes⟩)
    let draft ← fromLog log
    let draft ← entries.foldlM push draft
    let payload ← encode draft.log
    return ⟨payload, key.bytes.toList⟩

def encryptKey (seed : ℕ) (secret : List UInt8) (password : String) : Json :=
  .obj [
    ("crypto", .obj [
      ("cipherparams", .obj [("iv", .str "00000000000000000000000000000000")]),
      ("kdf", .str "scrypt"),
      ("kdfparams", .obj [("dklen", .num 32), ("n", .num 8192), ("p", .num 1), ("r", .num 8),
        ("salt", .str (toString seed))]),
      ("ciphertext", .str (String.ofList (Hex.encode secret))),
      ("mac", .str password)]),
    ("version", .num 3)]

def decryptKey (content : Content) (password : String) : Except KeystoreError (List UInt8) :=
  match content with
  | .text (.json document) =>
    let crypto := document.index "crypto"
    match (crypto.index "ciphertext").asStr, (crypto.index "mac").asStr with
    | some ciphertext, some mac =>
      if password = mac then
        (Hex.decode ciphertext.toList).mapError fun _ => .other "the ciphertext is not hex"
      else .error .macMismatch
    | _, _ => .error (.other "not a keystore")
  | _ => .error (.other "not a keystore")

/-- Some keys. -/
def someKey (n : UInt8) : Ed25519SigningKey := ⟨⟨List.replicate 32 n, List.length_replicate⟩⟩

/-- A key to measure an endorsement with. -/
def probeKey : Ed25519VerifyingKey := ⟨⟨List.replicate 32 7, List.length_replicate⟩⟩

end Reference

/-- The reference crates. -/
def Crates.reference : Crates Reference.Addr where
  domain := Reference.domain
  maxPayloadBytes := 131072
  fromLog := Reference.fromLog
  push := Reference.push
  liveEntries draft := (indexed draft.entries).filter fun e => isLive draft.entries e.index
  entriesFor log context := (indexed log.entries).filter fun e => isLive log.entries e.index &&
    match e.entry with
    | .add context' _ => context' == context
    | _ => false
  encode := Reference.encode
  decode := Reference.decode
  entryBytes := Reference.entryBytes
  errorText
    | .tooLarge size => "the log is too large: " ++ toString size
    | .other message => message
  verifyingKey key := ⟨key.bytes⟩
  fromCanonicalBytes bytes := some ⟨bytes⟩
  probeKey := Reference.probeKey
  addrFrom := id
  addrText addr := Hex.encode addr.bytes.toList
  parseAddr := Reference.parseAddr
  sign key _ := key.bytes.toList
  verify := Reference.verify
  resolve := Reference.resolve
  update := Reference.update
  encryptKey := Reference.encryptKey
  decryptKey := Reference.decryptKey

end AccountLogUi
