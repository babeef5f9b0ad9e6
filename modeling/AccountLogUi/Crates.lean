import AccountLogUi.AccountLog.Basic
import AccountLogUi.Json

/-!
# The crates the app rests on

`Crates Addr` is what the app calls of `account`, `account-log`, the key types and `eth-keystore`,
none of which is part of this repository; `Addr` is `AccountAddr`.  What the app relies on them
for is stated as laws, in three groups: `LogLaws` for the format (what a draft takes, what is
live, what a log encodes to), `AccountLaws` for signing, verifying, resolving and updating, and
`VaultLaws` for addresses as text and for sealed files.
-/

namespace AccountLogUi

/-- Why eth-keystore refused. -/
inductive KeystoreError
  | macMismatch
  | other (message : String)
deriving DecidableEq

/-- What the app calls of the crates it depends on. -/
structure Crates (Addr : Type) where
  /-- `ACCOUNT_LOG_DOMAIN`, the bytes every payload starts with. -/
  domain : List UInt8
  /-- `MAX_PAYLOAD_BYTES`. -/
  maxPayloadBytes : ℕ
  /-- `AccountLogDraft::from_log`. -/
  fromLog : AccountLog → Except AccountLogError AccountLogDraft
  /-- `AccountLogDraft::push`. -/
  push : AccountLogDraft → AccountEntry → Except AccountLogError AccountLogDraft
  /-- `AccountLogDraft::live_entries`. -/
  liveEntries : AccountLogDraft → List IndexedEntry
  /-- `AccountLog::entries_for`. -/
  entriesFor : AccountLog → Context → List IndexedEntry
  /-- `AccountLog::encode`. -/
  encode : AccountLog → Except AccountLogError (List UInt8)
  /-- The log a payload spells. -/
  decode : List UInt8 → Except AccountLogError AccountLog
  /-- The encoding of one entry within a payload. -/
  entryBytes : AccountEntry → List UInt8
  /-- How an `AccountLogError` is worded. -/
  errorText : AccountLogError → String
  /-- `Ed25519SigningKey::verifying_key`. -/
  verifyingKey : Ed25519SigningKey → Ed25519VerifyingKey
  /-- `Ed25519VerifyingKey::from_canonical_bytes`. -/
  fromCanonicalBytes : Bytes32 → Option Ed25519VerifyingKey
  /-- The key `ENTRY_COSTS` made up to measure an endorsement with. -/
  probeKey : Ed25519VerifyingKey
  /-- `AccountAddr::from(&Ed25519VerifyingKey)`. -/
  addrFrom : Ed25519VerifyingKey → Addr
  /-- `AccountAddr`'s `Display`. -/
  addrText : Addr → List Char
  /-- `AccountAddr`'s `FromStr`. -/
  parseAddr : List Char → Option Addr
  /-- `Ed25519SigningKey::sign`. -/
  sign : Ed25519SigningKey → List UInt8 → List UInt8
  /-- A signed log checked against the address it was served under, and decoded. -/
  verify : Addr → SignedAccountLog → Except AccountLogError AccountLog
  /-- `AccountResolver::resolve`, from the record held and what the provider fetched. -/
  resolve : Addr → Option AccountRecord → Option SignedAccountLog →
    Except AccountError (Option AccountRecord)
  /-- The log `Account::update().push(..).publish()` signs, from what the provider fetched and the
  entries pushed, before it is handed to the publisher. -/
  update : Ed25519SigningKey → Option SignedAccountLog → List AccountEntry →
    Except AccountError SignedAccountLog
  /-- `eth_keystore::encrypt_key`: the file written, from the randomness drawn. -/
  encryptKey : ℕ → List UInt8 → String → Json
  /-- `eth_keystore::decrypt_key`, from the file's content. -/
  decryptKey : Content → String → Except KeystoreError (List UInt8)

namespace Crates

variable {Addr : Type} (C : Crates Addr)

/-- The address of a signing key. -/
def addrOf (key : Ed25519SigningKey) : Addr := C.addrFrom (C.verifyingKey key)

/-- Every entry pushed onto a draft, in order. -/
def pushAll (draft : AccountLogDraft) (entries : List AccountEntry) :
    Except AccountLogError AccountLogDraft := entries.foldlM C.push draft

/-- The payload of a log: the domain, then each entry's own encoding. -/
def payloadOf (entries : List AccountEntry) : List UInt8 :=
  C.domain ++ entries.flatMap C.entryBytes

/-- The entries are those of a log this build can read, and so extend. -/
def Readable (entries : List AccountEntry) : Prop := C.fromLog ⟨entries⟩ = .ok ⟨entries⟩

/-- What the app relies on the log format for. -/
structure LogLaws : Prop where
  /-- A draft made from a log holds the log's entries. -/
  fromLog_entries : ∀ {log draft}, C.fromLog log = .ok draft → draft.entries = log.entries
  /-- An empty log can be extended. -/
  fromLog_nil : C.fromLog ⟨[]⟩ = .ok ⟨[]⟩
  /-- An entry this build cannot read keeps it from reading whatever log it is in. -/
  fromLog_of_append : ∀ {entries more draft}, C.fromLog ⟨entries ++ more⟩ = .ok draft →
    ∃ draft', C.fromLog ⟨entries⟩ = .ok draft'
  /-- In a log this build can read, a removal targets an entry before it. -/
  remove_target : ∀ {log : AccountLog} {draft i j}, C.fromLog log = .ok draft →
    log.entries[i]? = some (AccountEntry.remove j) → j < i
  /-- A pushed entry goes to the end. -/
  push_entries : ∀ {draft entry draft'}, C.push draft entry = .ok draft' →
    draft'.entries = draft.entries ++ [entry]
  /-- What a draft took, this build can read. -/
  push_readable : ∀ {draft entry draft'}, C.Readable draft.entries →
    C.push draft entry = .ok draft' → C.Readable draft'.entries
  /-- A removal is refused exactly when its target is not a live entry. -/
  push_remove : ∀ {draft : AccountLogDraft} {index}, C.Readable draft.entries →
    ((∃ draft', C.push draft (.remove index) = .ok draft') ↔ isLive draft.entries index = true)
  /-- A key is refused where it is live already. -/
  push_key_live : ∀ {draft : AccountLogDraft} {context key draft'}, C.Readable draft.entries →
    C.push draft (.add context (.ed25519Key key)) = .ok draft' →
    ∀ index context', draft.entries[index]? = some (.add context' (.ed25519Key key)) →
      isLive draft.entries index = false
  /-- A well-formed key that is not live is taken. -/
  push_key : ∀ {draft : AccountLogDraft} {key}, C.Readable draft.entries →
    (C.fromCanonicalBytes key).isSome →
    (∀ index context, draft.entries[index]? = some (.add context (.ed25519Key key)) →
      isLive draft.entries index = false) →
    ∃ draft', C.push draft (.add signerContext (.ed25519Key key)) = .ok draft'
  /-- A display name this app accepts is taken. -/
  push_name : ∀ {draft : AccountLogDraft} {name : String}, C.Readable draft.entries →
    name.utf8ByteSize ≤ 64 →
    ∃ draft', C.push draft (.add displayNameContext (.text name)) = .ok draft'
  /-- An addition of a log this build can read, an empty draft takes. -/
  add_new : ∀ {entries context data}, C.Readable entries →
    AccountEntry.add context data ∈ entries → ∃ draft, C.push .new (.add context data) = .ok draft
  /-- A log this build can read has no entry of a kind it does not know. -/
  no_unknown : ∀ {entries opcode body}, C.Readable entries →
    AccountEntry.unknown opcode body ∉ entries
  /-- The live entries, in index order. -/
  liveEntries_eq : ∀ draft, C.liveEntries draft =
    (indexed draft.entries).filter fun e => isLive draft.entries e.index
  /-- The live entries of one context, in index order. -/
  entriesFor_eq : ∀ log context, C.entriesFor log context =
    (indexed log.entries).filter fun e => isLive log.entries e.index &&
      match e.entry with
      | .add context' _ => context' == context
      | _ => false
  /-- A draft's log encodes to its payload, refused only when that is past the cap. -/
  encode_eq : ∀ {entries}, C.Readable entries → C.encode ⟨entries⟩ =
    if (C.payloadOf entries).length ≤ C.maxPayloadBytes then .ok (C.payloadOf entries)
    else .error (.tooLarge (C.payloadOf entries).length)
  /-- What a draft encoded to decodes to it. -/
  decode_encode : ∀ {entries payload}, C.Readable entries → C.encode ⟨entries⟩ = .ok payload →
    C.decode payload = .ok ⟨entries⟩
  /-- A payload is the domain and the encodings of the entries it spells. -/
  decode_payload : ∀ {payload log}, C.decode payload = .ok log →
    payload = C.payloadOf log.entries
  /-- An entry's encoding says where it ends, so a payload that starts another spells a log that
  starts the other's. -/
  decode_prefix : ∀ {payload payload' log log'}, C.decode payload = .ok log →
    C.decode payload' = .ok log' → payload <+: payload' → log.entries <+: log'.entries
  /-- Every removal encodes to the same number of bytes. -/
  remove_bytes : ∀ i j,
    (C.entryBytes (AccountEntry.remove i)).length = (C.entryBytes (AccountEntry.remove j)).length
  /-- Any key measures the same. -/
  key_bytes : ∀ context key key', (C.entryBytes (.add context (.ed25519Key key))).length =
    (C.entryBytes (.add context (.ed25519Key key'))).length
  /-- A text takes its own bytes. -/
  text_bytes : ∀ context text, (C.entryBytes (.add context (.text text))).length =
    (C.entryBytes (.add context (.text ""))).length + text.utf8ByteSize
  /-- The key made up to measure with is a point on the curve. -/
  probe_canonical : (C.fromCanonicalBytes C.probeKey.bytes).isSome
  /-- The cap leaves room for a name of no bytes, and a removal of it. -/
  room : (C.payloadOf [.add displayNameContext (.text ""), .remove 0]).length ≤ C.maxPayloadBytes

/-- What the app relies on `account` for. -/
structure AccountLaws : Prop where
  /-- The bytes a verifying key is made from are its own. -/
  fromCanonicalBytes_bytes : ∀ {bytes key}, C.fromCanonicalBytes bytes = some key →
    key.bytes = bytes
  /-- A log that checks against its address is the one its payload spells. -/
  verify_decode : ∀ {addr signed log}, C.verify addr signed = .ok log →
    C.decode signed.payload = .ok log
  /-- What a key signed checks against the key's address. -/
  verify_sign : ∀ {key payload log}, C.decode payload = .ok log →
    C.verify (C.addrOf key) ⟨payload, C.sign key payload⟩ = .ok log
  /-- A resolver adopts a fetched, verified log only where it extends the held one. -/
  resolve_adopts : ∀ {addr held fetched held'}, C.resolve addr held fetched = .ok held' →
    held' = held ∨ ∃ signed log, fetched = some signed ∧ C.verify addr signed = .ok log ∧
      held' = some ⟨log, signed⟩ ∧ ∀ record, held = some record → record.log.entries <+: log.entries
  /-- A fetched, verified log that extends the held one is adopted. -/
  resolve_extends : ∀ {addr held signed log}, C.verify addr signed = .ok log →
    (∀ record, held = some record → record.log.entries <+: log.entries) →
    C.resolve addr held (some signed) = .ok (some ⟨log, signed⟩)
  /-- An account with nothing held and nothing fetched has nothing. -/
  resolve_none : ∀ {addr}, C.resolve addr none none = .ok none
  /-- An update signs the log its provider fetched, or an empty one, with the pushed entries
  appended. -/
  update_ok : ∀ {key base entries signed}, C.update key base entries = .ok signed →
    ∃ held draft, (base = none ∧ held = [] ∨
        ∃ b, base = some b ∧ C.verify (C.addrOf key) b = .ok ⟨held⟩) ∧
      C.Readable held ∧ C.pushAll ⟨held⟩ entries = .ok draft ∧
      C.encode draft.log = .ok signed.payload ∧ signed.signature = C.sign key signed.payload
  /-- An update whose entries the log takes, and which is within the cap, is signed. -/
  update_of_pushAll : ∀ {key base held entries draft payload},
    (base = none ∧ held = [] ∨ ∃ b, base = some b ∧ C.verify (C.addrOf key) b = .ok ⟨held⟩) →
    C.Readable held → C.pushAll ⟨held⟩ entries = .ok draft → C.encode draft.log = .ok payload →
    ∃ signed, C.update key base entries = .ok signed

/-- What was fetched is checked against the address before it is compared with what is held. -/
def ChecksFirst : Prop := ∀ {addr held signed e}, C.verify addr signed = .error e →
  C.resolve addr held (some signed) = .error (.log e)

/-- What the app relies on `AccountAddr` and eth-keystore for in the vault's files. -/
structure VaultLaws : Prop where
  /-- An address parses only from its own spelling. -/
  parseAddr_eq : ∀ {text addr}, C.parseAddr text = some addr ↔ text = C.addrText addr
  /-- An address is 64 lowercase hex characters. -/
  addrText_length : ∀ addr, (C.addrText addr).length = 64
  addrText_hex : ∀ addr, ∀ c ∈ C.addrText addr, c ∈ "0123456789abcdef".toList
  /-- A sealed file opens to what it seals under its password. -/
  decrypt_encrypt : ∀ seed secret password,
    C.decryptKey (.text (.json (C.encryptKey seed secret password))) password = .ok secret
  /-- Any other password is told apart by the MAC. -/
  decrypt_wrong : ∀ seed secret {password password'}, password' ≠ password →
    C.decryptKey (.text (.json (C.encryptKey seed secret password))) password' =
      .error .macMismatch
  /-- A sealed file asks for scrypt with n = 8192, r = 8, p = 1 and a 32-byte key, and carries a
  16-byte IV. -/
  encrypt_params : ∀ seed secret password, ∃ salt iv,
    let crypto := (C.encryptKey seed secret password).index "crypto"
    crypto.index "kdf" = .str "scrypt" ∧
      crypto.index "kdfparams" = .obj [("dklen", .num 32), ("n", .num 8192), ("p", .num 1),
        ("r", .num 8), ("salt", .str salt)] ∧
      (crypto.index "cipherparams").index "iv" = .str iv ∧ iv.utf8ByteSize = 32

variable {C}

/-! ### Pushing several entries -/

theorem pushAll_cons (draft : AccountLogDraft) (entry : AccountEntry)
    (entries : List AccountEntry) :
    C.pushAll draft (entry :: entries) = (C.push draft entry).bind fun d => C.pushAll d entries :=
  rfl

/-- Entries pushed one by one go to the end, in order. -/
theorem pushAll_entries (hL : C.LogLaws) {entries : List AccountEntry}
    {draft draft' : AccountLogDraft} (h : C.pushAll draft entries = .ok draft') :
    draft'.entries = draft.entries ++ entries := by
  induction entries generalizing draft with
  | nil => cases h; simp
  | cons entry entries ih =>
    rw [pushAll_cons] at h
    cases hp : C.push draft entry with
    | error e => simp [hp, Except.bind] at h
    | ok d =>
      rw [hp] at h
      rw [ih h, hL.push_entries hp, List.append_assoc, List.singleton_append]

/-- What a draft took, entry by entry, this build can read. -/
theorem pushAll_readable (hL : C.LogLaws) {entries : List AccountEntry}
    {draft draft' : AccountLogDraft} (hd : C.Readable draft.entries)
    (h : C.pushAll draft entries = .ok draft') : C.Readable draft'.entries := by
  induction entries generalizing draft with
  | nil => cases h; exact hd
  | cons entry entries ih =>
    rw [pushAll_cons] at h
    cases hp : C.push draft entry with
    | error e => simp [hp, Except.bind] at h
    | ok d =>
      rw [hp] at h
      exact ih (hL.push_readable hd hp) h

theorem pushAll_append (draft : AccountLogDraft) (xs ys : List AccountEntry) :
    C.pushAll draft (xs ++ ys) = (C.pushAll draft xs).bind fun d => C.pushAll d ys := by
  unfold pushAll
  rw [List.foldlM_append]
  rfl

/-! ### Readable logs -/

/-- A draft that came from a log is the log's entries. -/
theorem readable_of_fromLog (hL : C.LogLaws) {log : AccountLog} {draft : AccountLogDraft}
    (h : C.fromLog log = .ok draft) : C.Readable log.entries ∧ draft = ⟨log.entries⟩ := by
  obtain ⟨entries⟩ := draft
  obtain rfl : entries = log.entries := hL.fromLog_entries h
  exact ⟨h, rfl⟩

theorem readable_nil (hL : C.LogLaws) : C.Readable [] := hL.fromLog_nil

/-- What a readable log starts with is readable. -/
theorem Readable.of_prefix (hL : C.LogLaws) {entries entries' : List AccountEntry}
    (h : C.Readable entries') (hp : entries <+: entries') : C.Readable entries := by
  obtain ⟨more, rfl⟩ := hp
  obtain ⟨draft, hd⟩ := hL.fromLog_of_append h
  exact (readable_of_fromLog hL hd).1

/-- The payload of a longer log starts with the shorter one's. -/
theorem payloadOf_prefix {entries entries' : List AccountEntry} (h : entries <+: entries') :
    C.payloadOf entries <+: C.payloadOf entries' := by
  obtain ⟨more, rfl⟩ := h
  exact ⟨more.flatMap C.entryBytes, by simp [payloadOf]⟩

end Crates

end AccountLogUi
