import AccountLogUi.Fs.Equiv.Calls
import AccountLogUi.Vault.Equiv.Names

/-!
# Reading back what was written

`readOpen_writeOpenDocument` and `checkParams_encryptKey` say that each of the vault's two readers
takes what its writer writes.  `accounts_alone` is what listing answers of a directory in which no
account has both spellings, and `openKey_alone` what opening does with a file a create wrote:
exactly the choice of password it was written with opens it.
-/

namespace AccountLogUi.Vault

variable {Addr : Type} {C : Crates Addr}

/-! ### The two documents -/

theorem toKey_bytes (key : Ed25519SigningKey) : toKey key.bytes.toList = some key := by
  rw [toKey, dif_pos key.bytes.length_eq]

/-- A clear file reads back as its key. -/
theorem readOpen_writeOpenDocument (addr : Addr) (key : Ed25519SigningKey) :
    readOpen (.json (writeOpenDocument C addr key)) = (.ok key : Except (VaultError Addr) _) := by
  have hdoc : ReadOpenDocument.fromStr (.json (writeOpenDocument C addr key)) =
      .ok ⟨1, some (String.ofList (Hex.encode key.bytes.toList))⟩ := by
    rfl
  have hhex : Hex.decodeToSlice 32 (Hex.encode key.bytes.toList) = .ok key.bytes.toList := by
    have h := Hex.decodeToSlice_encode key.bytes.toList
    rwa [key.bytes.length_eq] at h
  unfold readOpen
  rw [hdoc]
  simp only [Except.mapError, bind, Except.bind, String.toList_ofList, hhex, toKey_bytes]
  rfl

/-- A sealed file's parameters are accepted. -/
theorem checkParams_encryptKey (hV : C.VaultLaws) (seed : ℕ) (secret : List UInt8)
    (password : String) :
    checkParams (.json (C.encryptKey seed secret password)) =
      (.ok () : Except (VaultError Addr) _) := by
  obtain ⟨salt, iv, hkdf, hparams, hiv, hlen⟩ := hV.encrypt_params seed secret password
  have hkdf' : (((C.encryptKey seed secret password).index "crypto").index "kdf").asStr =
      some "scrypt" := by rw [hkdf]; rfl
  have hiv' : ((((C.encryptKey seed secret password).index "crypto").index "cipherparams").index
      "iv").asStr.elim 0 String.utf8ByteSize / 2 = 16 := by
    rw [hiv]
    simp [Json.asStr, hlen]
  unfold checkParams
  simp only [Text.fromStr, Except.mapError, bind, Except.bind, hkdf', hparams, hiv', ne_eq,
    not_true_eq_false, if_false]
  rfl

/-! ### Opening a file -/

theorem openClear_alone {fs : Fs} {path : List Char} {text : Text} {synced : Bool} (pid : ℕ)
    (h : fs.node path = some (.file ⟨.text text, synced⟩)) :
    (openClear path).alone pid fs = ((readOpen text : Except (VaultError Addr) _), fs) := by
  have hread : fs.perform pid (.readToString path) = (.ok text, fs) := by simp [Fs.perform, h]
  unfold openClear
  rw [FsM.alone_bind, FsM.alone_io, hread]
  rfl

theorem openSealed_alone {fs : Fs} {path : List Char} {text : Text} {synced : Bool} (pid : ℕ)
    (h : fs.node path = some (.file ⟨.text text, synced⟩))
    (hparams : checkParams text = (.ok () : Except (VaultError Addr) _)) (password : String) :
    (openSealed C path password).alone pid fs =
      (match C.decryptKey (.text text) password with
        | .ok secret => match toKey secret with
          | some key => .ok key
          | none => .error (.corrupt ("the sealed key is " ++ toString secret.length ++
              " bytes, not 32"))
        | .error .macMismatch => .error .wrongPassword
        | .error (.other why) => .error (.corrupt why), fs) := by
  have hread : fs.perform pid (.readToString path) = (.ok text, fs) := by simp [Fs.perform, h]
  unfold openSealed
  rw [FsM.alone_bind, FsM.alone_io, hread]
  simp only [Except.mapError]
  rw [FsM.alone_bind, FsM.alone_mk_ret, hparams]
  simp only
  rw [FsM.alone_bind]
  unfold FsM.alone
  rw [ExceptT.run_mk, Prog.run_call, hread]
  simp only [Prog.run_ret]
  cases C.decryptKey (.text text) password with
  | error e => cases e <;> rfl
  | ok secret => cases toKey secret <;> rfl

/-! ### Listing and opening -/

variable [DecidableEq Addr]

/-- What listing answers where no account has both spellings: every account with a file, once, in
address order. -/
theorem accounts_alone (hV : C.VaultLaws) {fs : Fs} (hfs : ∀ addr, ¬Doubled C fs addr) (pid : ℕ) :
    ∃ l, (accounts C).alone pid fs = (.ok l, fs) ∧ (l.map (·.addr)).Nodup ∧
      (l.Pairwise fun a b => C.addrText a.addr ≤ C.addrText b.addr) ∧
      ∀ account : StoredAccount Addr,
        account ∈ l ↔ (fs.node (pathOf C account.addr account.protected_)).isSome := by
  cases hdir : fs.dir with
  | none =>
    refine ⟨[], ?_, List.nodup_nil, List.Pairwise.nil, fun account => ?_⟩
    · have hread : fs.perform pid .readDir = (.error .notFound, fs) := by
        simp [Fs.perform, hdir]
      unfold accounts FsM.alone
      rw [ExceptT.run_mk, Prog.run_call, hread]
      rfl
    · simp [Fs.node, hdir]
  | some dir =>
    have hread : fs.perform pid .readDir = (.ok dir.keys, fs) := by
      simp [Fs.perform, hdir]
    have hstep : fs.Step pid .readDir (.ok dir.keys) fs := ⟨none, hread⟩
    obtain ⟨-, hnd, hnames⟩ := hstep.readDir_ok
    obtain ⟨l, hl⟩ := (listing_isOk hV hnd).mpr fun addr h =>
      hfs addr ⟨(hnames _).mp h.1, (hnames _).mp h.2⟩
    refine ⟨l, ?_, listing_nodup hl, listing_sorted hl, fun account => ?_⟩
    · unfold accounts FsM.alone
      rw [ExceptT.run_mk, Prog.run_call, hread]
      show (listing C dir.keys, fs) = _
      rw [hl]
    · rw [mem_listing hV hl, hnames]

/-- What opening a file finds, from the choice it was written with and the one supplied. -/
def openAnswer (key : Ed25519SigningKey) :
    Option String → Option String → Except (VaultError Addr) Ed25519SigningKey
  | some chosen, some password => if password = chosen then .ok key else .error .wrongPassword
  | none, none => .ok key
  | some _, none => .error .passwordRequired
  | none, some _ => .error .passwordNotRequired

/-- A find by address in a list of distinct ones. -/
theorem find?_addr {l : List (StoredAccount Addr)} (hnd : (l.map (·.addr)).Nodup)
    {account : StoredAccount Addr} (hmem : account ∈ l) :
    l.find? (·.addr = account.addr) = some account := by
  rw [List.find?_eq_some_iff_append]
  obtain ⟨before, after, rfl⟩ := List.append_of_mem hmem
  refine ⟨by simp, before, after, rfl, fun other hother => ?_⟩
  rw [List.map_append, List.map_cons, List.nodup_append] at hnd
  have hne := hnd.2.2 _ (List.mem_map_of_mem hother) _ List.mem_cons_self
  simpa using hne

theorem openKey_alone_absent (hV : C.VaultLaws) {fs : Fs} (hfs : ∀ addr, ¬Doubled C fs addr)
    {addr : Addr} (h : ¬Present C fs addr) (password : Option String) (pid : ℕ) :
    (openKey C addr password).alone pid fs = (.error .noAccount, fs) := by
  obtain ⟨l, hl, -, -, hmem⟩ := accounts_alone hV hfs pid
  have hfind : l.find? (·.addr = addr) = none := by
    rw [List.find?_eq_none]
    intro account haccount haddr
    obtain rfl : account.addr = addr := by simpa using haddr
    exact h ⟨account.protected_, (hmem account).mp haccount⟩
  unfold openKey
  rw [FsM.alone_bind, hl]
  simp only [hfind]
  rfl

/-- A file a create wrote opens to its key with exactly the choice of password it was written
with. -/
theorem openKey_alone (hV : C.VaultLaws) {fs : Fs} (hfs : ∀ addr, ¬Doubled C fs addr)
    {key : Ed25519SigningKey} {chosen : Option String} {seed : ℕ} {synced : Bool}
    (hnode : fs.node (pathOf C (C.addrOf key) chosen.isSome) =
      some (.file ⟨keyFile C key chosen seed, synced⟩)) (password : Option String) (pid : ℕ) :
    (openKey C (C.addrOf key) password).alone pid fs = (openAnswer key chosen password, fs) := by
  obtain ⟨l, hl, hnd, -, hmem⟩ := accounts_alone hV hfs pid
  have hheld : (⟨C.addrOf key, chosen.isSome⟩ : StoredAccount Addr) ∈ l :=
    (hmem _).mpr (by rw [hnode]; rfl)
  have hfind := find?_addr hnd hheld
  unfold openKey
  rw [FsM.alone_bind, hl]
  simp only [hfind]
  rw [FsM.alone_bind]
  rcases chosen with _ | chosen <;> rcases password with _ | password
  · simp only [Option.isSome_none] at hnode ⊢
    rw [openClear_alone pid hnode, readOpen_writeOpenDocument]
    simp [openAnswer]
  · rfl
  · rfl
  · simp only [Option.isSome_some] at hnode ⊢
    rw [openSealed_alone pid hnode (checkParams_encryptKey hV seed key.bytes.toList chosen)]
    by_cases hp : password = chosen
    · subst hp
      rw [hV.decrypt_encrypt]
      simp [openAnswer, toKey_bytes]
    · rw [hV.decrypt_wrong seed key.bytes.toList hp]
      simp [openAnswer, hp]

end AccountLogUi.Vault
