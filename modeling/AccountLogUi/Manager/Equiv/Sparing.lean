import AccountLogUi.Manager.Equiv.Frame
import AccountLogUi.Manager.Equiv.Lockstep
import AccountLogUi.Vault.Equiv.Sparing

/-!
# Operations on other accounts

Whatever it answers, an operation leaves the world alike to what it was for every account it does
not name (`CoreOp.spares`), although the directory, the list of observed accounts and the store are
every account's.
-/

namespace AccountLogUi

open Manager Vault Observed AccountLogUi.Action

variable {Addr : Type} [DecidableEq Addr] {C : Crates Addr} {addr other : Addr} {w v : World Addr}

/-- What is outside the app is alike to what it was in `w` for the account, and the keys unlocked
are the accounts' own. -/
structure Spared (C : Crates Addr) (addr : Addr) (w v : World Addr) : Prop where
  fs : DiskAlike C addr .strict w.disk.fs v.disk.fs
  kind : v.store.turns.isSome = w.store.turns.isSome
  held : v.store.held addr = w.store.held addr
  own : ∀ other key, v.core.unlocked other = some key → C.addrOf key = other

namespace Manager

/-- An action that keeps all of that. -/
abbrev Spares {α : Type} (C : Crates Addr) (addr : Addr) (w : World Addr) (x : CoreM Addr α) :
    Prop := Keeps (Spared C addr w) (fun _ => True) x

/-! ### The directory -/

theorem spares_onDisk {ε α : Type} {p : FsM ε α} {Q : α → Prop}
    (hfs : ∀ disk : Disk, DiskAlike C addr .strict disk.fs (disk.run p.run).2.fs)
    (hQ : ∀ (disk : Disk) a, (disk.run p.run).1 = .ok a → Q a)
    (wrap : ε → CoreError Addr) :
    Keeps (Spared C addr w) Q (.calling wrap (·.onDisk p) : CoreM Addr α) := by
  refine keeps_calling fun v hv => ⟨⟨?_, hv.kind, hv.held, hv.own⟩, hQ v.disk⟩
  have hnext := hfs v.disk
  exact ⟨hv.fs.files.trans hnext.files, fun hk => (hv.fs.lists hk).trans (hnext.lists hk)⟩

theorem diskAlike_of_readOnly {ε α : Type} {p : FsM ε α} (hp : p.ReadOnly) (disk : Disk) :
    DiskAlike C addr .strict disk.fs (disk.run p.run).2.fs := by
  rw [hp.run_fs disk]
  exact ⟨.refl _, fun _ => .refl _⟩

theorem spares_look {ε α : Type} {p : FsM ε α} (hp : p.ReadOnly) (wrap : ε → CoreError Addr) :
    Spares C addr w (.calling wrap (·.onDisk p) : CoreM Addr α) :=
  spares_onDisk (diskAlike_of_readOnly hp) (fun _ _ _ => trivial) wrap

/-- A program of the vault's on another account's files. -/
theorem spares_vault {α : Type} {p : FsM (VaultError Addr) α} {Q : α → Prop}
    (hfiles : ∀ disk : Disk, AlikeFor C addr disk.fs (disk.run p.run).2.fs)
    (hlists : ∀ disk : Disk, (disk.run p.run).2.fs.node observedFile = disk.fs.node observedFile)
    (hQ : ∀ (disk : Disk) a, (disk.run p.run).1 = .ok a → Q a) :
    Keeps (Spared C addr w) Q (vault p) :=
  spares_onDisk (fun disk => ⟨hfiles disk, fun _ => .inl (hlists disk)⟩) hQ _

theorem spares_change (hV : C.VaultLaws) (change : Change Addr) (hne : addr ≠ change.addr) :
    Spares C addr w (observed (change.body C)) := by
  refine spares_onDisk (fun disk => ?_) (fun _ _ _ => trivial) _
  obtain ⟨hfiles, hlists⟩ := change_spares hV change hne disk
  exact ⟨hfiles, fun _ => hlists⟩

/-! ### The app's own state -/

/-- A change that unlocks nothing. -/
theorem spares_core {f : AccountCore Addr → AccountCore Addr}
    (h : ∀ core, (f core).unlocked = core.unlocked) : Spares C addr w (changeCore f) := by
  refine keeps_change fun v hv => ⟨hv.fs, hv.kind, hv.held, ?_⟩
  rw [h]
  exact hv.own

theorem own_update {unlocked : Addr → Option Ed25519SigningKey}
    (h : ∀ other key, unlocked other = some key → C.addrOf key = other)
    {found : Option Ed25519SigningKey} (hfound : ∀ key, found = some key → C.addrOf key = addr)
    {a : Addr} {key : Ed25519SigningKey} (hkey : Function.update unlocked addr found a = some key) :
    C.addrOf key = a := by
  by_cases ha : a = addr
  · subst ha
    rw [Function.update_self] at hkey
    exact hfound key hkey
  · rw [Function.update_of_ne ha] at hkey
    exact h a key hkey

/-! ### Who may do what -/

theorem spares_manages : Spares C addr w (manages C other) :=
  (spares_look accounts_readOnly .vault).map _

theorem spares_observes : Spares C addr w (observes C other) :=
  (spares_look list_readOnly .observed).map _

theorem spares_requireManaged : Spares C addr w (requireManaged C other) := by
  refine spares_manages.bind fun managed _ => ?_
  split
  · exact keeps_pure trivial
  · exact spares_observes.bind fun observed _ => keeps_refuse.bind fun _ _ => keeps_throw

theorem spares_requireKnown : Spares C addr w (requireKnown C other) := by
  refine spares_manages.bind fun managed _ => ?_
  split
  · exact keeps_pure trivial
  · exact spares_observes.bind fun observed _ => keeps_refuse.mono fun _ _ => trivial

/-! ### Operations on the other account -/

/-- The key found is the other account's own. -/
theorem spares_signingKey (hV : C.VaultLaws) :
    Keeps (Spared C addr w) (fun key => C.addrOf key = other) (signingKey C other) := by
  unfold signingKey
  refine (keeps_look (Q := fun found => ∀ key, found = some key → C.addrOf key = other)
    fun v hv key hkey => hv.own other key hkey).bind fun found hfound => ?_
  rcases found with - | key
  · refine spares_onDisk (diskAlike_of_readOnly (openKey_readOnly other none))
      (fun disk key hkey => ?_) _
    have hrun : disk.run (openKey C other none).run =
        (.ok key, (disk.run (openKey C other none).run).2) := Prod.ext hkey rfl
    exact (openKey_run hV hrun).1
  · exact keeps_pure (hfound key rfl)

theorem spares_openKey (hV : C.VaultLaws) (password : Option String) :
    Keeps (Spared C addr w) (fun key => C.addrOf key = other)
      (vault (openKey C other password)) := by
  refine spares_onDisk (diskAlike_of_readOnly (openKey_readOnly other password))
    (fun disk key hkey => ?_) _
  have hrun : disk.run (openKey C other password).run =
      (.ok key, (disk.run (openKey C other password).run).2) := Prod.ext hkey rfl
  exact (openKey_run hV hrun).1

/-- A request of the store's, about the other account. -/
theorem spares_resolve : Spares C addr w
    (.calling .account (·.resolve C other) : CoreM Addr Unit) := by
  refine keeps_calling fun v hv => ⟨?_, fun _ _ => trivial⟩
  have hfetched : Spared C addr w (v.fetch other).2 := by
    have hkind : (v.store.fetch other).2.turns.isSome = v.store.turns.isSome := by
      rcases v.store with store | store <;> rfl
    have hstore : Spared C addr w { v with
        store := (v.store.fetch other).2, asked := .fetched other :: v.asked } :=
      ⟨hv.fs, hkind.trans hv.kind, (v.store.held_fetch other addr).trans hv.held, hv.own⟩
    unfold World.fetch
    split
    · exact hstore
    · split
      · exact ⟨hv.fs, hv.kind, hv.held, hv.own⟩
      · exact hstore
  unfold World.resolve
  generalize v.fetch other = x at hfetched ⊢
  obtain ⟨e | fetched, v'⟩ := x
  · exact hfetched
  · dsimp only
    rcases C.resolve other (v'.core.resolver other) fetched with e | held
    · exact hfetched
    · exact ⟨hfetched.fs, hfetched.kind, hfetched.held, hfetched.own⟩

theorem spares_readStore : Spares C addr w (readStore C other) := by
  refine keeps_calling fun v hv => ⟨?_, fun _ _ => trivial⟩
  have hresolve : Spares C addr w (.calling .account (·.resolve C other) : CoreM Addr Unit) :=
    spares_resolve
  have hresolved : Spared C addr w (v.resolve C other).2 := (hresolve v hv).1
  unfold World.readStore
  generalize v.resolve C other = x at hresolved ⊢
  obtain ⟨e | u, v'⟩ := x
  · exact ⟨hresolved.fs, hresolved.kind, hresolved.held, hresolved.own⟩
  · refine ⟨hresolved.fs, hresolved.kind, hresolved.held, ?_⟩
    dsimp only
    rw [(settle_fields _ other).2.2.1]
    exact hresolved.own

theorem spares_takeDropped : Spares C addr w (takeDropped other : CoreM Addr ℕ) := by
  refine (keeps_look (Q := fun _ => True) fun _ _ => trivial).bind fun n _ => ?_
  exact (spares_core fun _ => by rfl).bind fun _ _ => keeps_pure (Q := fun _ => True) trivial

theorem spares_restage (staged : List StagedEdit) : Spares C addr w (restage C other staged) := by
  refine (keeps_look (Q := fun _ => True) fun _ _ => trivial).bind fun core _ => ?_
  refine (keeps_orFail (Q := fun _ => True) fun _ _ => trivial).bind fun _ _ => ?_
  exact spares_core fun _ => rfl

theorem spares_stageAddInstallation (keyHex : String) :
    Spares C addr w (stageAddInstallation C other keyHex) := by
  refine spares_requireManaged.bind fun _ _ => ?_
  refine (keeps_orFail (Q := fun _ => True) fun _ _ => trivial).bind fun key _ => ?_
  refine (keeps_look (Q := fun _ => True) fun _ _ => trivial).bind fun core _ => ?_
  refine (keeps_orFail (Q := fun _ => True) fun _ _ => trivial).bind fun draft _ => ?_
  refine keeps_refuse.bind fun _ _ => keeps_refuse.bind fun _ _ => ?_
  exact spares_restage _

theorem spares_stageSetDisplayName (name : String) :
    Spares C addr w (stageSetDisplayName C other name) := by
  refine spares_requireManaged.bind fun _ _ => ?_
  refine (keeps_orFail (Q := fun _ => True) fun _ _ => trivial).bind fun name _ => ?_
  refine (keeps_look (Q := fun _ => True) fun _ _ => trivial).bind fun core _ => ?_
  refine (keeps_orFail (Q := fun _ => True) fun _ _ => trivial).bind fun _ _ => ?_
  dsimp only
  split
  · exact spares_restage _
  · exact keeps_refuse.bind fun _ _ => spares_restage _

theorem spares_stageRevoke (index : ℕ) : Spares C addr w (stageRevoke C other index) := by
  refine spares_requireManaged.bind fun _ _ => ?_
  refine (keeps_look (Q := fun _ => True) fun _ _ => trivial).bind fun core _ => ?_
  refine (keeps_orFail (Q := fun _ => True) fun _ _ => trivial).bind fun draft _ => ?_
  refine keeps_refuse.bind fun _ _ => keeps_refuse.bind fun _ _ => ?_
  exact spares_restage _

theorem spares_takeIn (hV : C.VaultLaws) {key : Ed25519SigningKey} (hne : addr ≠ C.addrOf key)
    (password : Option String) (seed : ℕ) :
    Keeps (Spared C addr w) (fun taken => taken = C.addrOf key) (takeIn C key password seed) := by
  have hcreate : Keeps (Spared C addr w) (fun taken => taken = C.addrOf key)
      (vault (create C key password seed)) := by
    refine spares_vault (create_spares hV hne password seed)
      (fun disk => (create_run hV key password seed disk).1) fun disk taken htaken => ?_
    have hres := (create_run hV key password seed disk).2
    rw [htaken] at hres
    exact hres.1
  refine hcreate.bind fun taken htaken => ?_
  subst htaken
  refine Keeps.bind (Q := fun _ => True) (keeps_change fun v hv => ?_) fun _ _ => keeps_pure rfl
  refine ⟨hv.fs, hv.kind, hv.held, fun a key' hkey' => ?_⟩
  dsimp only at hkey'
  split at hkey'
  · refine own_update hv.own (fun key'' hkey'' => ?_) hkey'
    rw [← Option.some.inj hkey'']
  · exact hv.own a key' hkey'

theorem spares_unlock (hV : C.VaultLaws) (password : String) :
    Spares C addr w (unlock C other password) := by
  refine spares_requireManaged.bind fun _ _ => ?_
  refine (spares_openKey hV (some password)).bind fun key haddr => keeps_change fun v hv => ?_
  refine ⟨hv.fs, hv.kind, hv.held, fun a key' hkey' => ?_⟩
  refine own_update hv.own (fun key'' hkey'' => ?_) hkey'
  rw [← Option.some.inj hkey'']
  exact haddr

theorem spares_forgetAccount (hV : C.VaultLaws) (hne : addr ≠ other) :
    Spares C addr w (forgetAccount C other) := by
  refine spares_requireManaged.bind fun _ _ => ?_
  refine Keeps.bind (Q := fun _ => True) (spares_vault (forget_spares hV hne)
    (fun disk => (forget_run hV other disk).1) fun _ _ _ => trivial) fun _ _ => ?_
  refine keeps_change fun v hv => ⟨hv.fs, hv.kind, hv.held, fun a key hkey => ?_⟩
  exact own_update hv.own (by simp) hkey

theorem spares_importAccount (hV : C.VaultLaws) {secretHex : String}
    (hne : ∀ key, parseAccountKey secretHex = (.ok key : Except (CoreError Addr) _) →
      addr ≠ C.addrOf key) (password : Option String) (seed : ℕ) :
    Spares C addr w (importAccount C secretHex password seed) := by
  refine (keeps_orFail (Q := fun key => addr ≠ C.addrOf key) hne).bind fun key hkey => ?_
  refine (spares_takeIn hV hkey password seed).bind fun taken htaken => ?_
  refine (spares_change hV (.remove taken) fun heq => hkey (heq.trans htaken)).bind fun _ _ => ?_
  exact keeps_pure (Q := fun _ => True) trivial

/-! ### Publishing -/

theorem spares_planUpdate (hV : C.VaultLaws) :
    Keeps (Spared C addr w) (fun planned => ∀ update, planned = .inr update →
      C.addrOf update.key = other) (planUpdate C other) := by
  refine spares_requireManaged.bind fun _ _ => ?_
  refine (keeps_look (Q := fun _ => True) fun _ _ => trivial).bind fun staged _ => ?_
  refine keeps_refuse.bind fun _ _ => ?_
  refine (spares_signingKey hV).bind fun key haddr => ?_
  refine spares_readStore.bind fun _ _ => ?_
  refine (keeps_look (Q := fun _ => True) fun _ _ => trivial).bind fun core _ => ?_
  rcases core.staged other with - | staged
  · exact spares_takeDropped.bind fun n _ => keeps_pure (by simp)
  · refine (keeps_orFail (Q := fun _ => True) fun _ _ => trivial).bind fun _ _ => ?_
    refine (keeps_orFail (Q := fun _ => True) fun _ _ => trivial).bind fun draft _ => ?_
    refine keeps_pure fun update hupdate => ?_
    rw [← Sum.inr.inj hupdate]
    exact haddr

theorem spares_writeUpdate {update : Update} (haddr : C.addrOf update.key = other)
    (hne : addr ≠ other) : Spares C addr w (writeUpdate C other update) := by
  have hwrite : Spares C addr w (.calling .account
      (·.writeLog C update.key update.base update.entries) : CoreM Addr SignedAccountLog) := by
    refine keeps_calling fun v hv => ⟨?_, fun _ _ => trivial⟩
    unfold World.writeLog
    rcases C.update update.key update.base update.entries with e | signed
    · exact hv
    dsimp only
    rw [haddr]
    have hkind : (v.store.publish other signed).2.turns.isSome = v.store.turns.isSome := by
      rcases v.store with store | store <;> rfl
    have hwritten : Spared C addr w { v with
        store := (v.store.publish other signed).2, asked := .published other signed :: v.asked } :=
      ⟨hv.fs, hkind.trans hv.kind, (v.store.held_publish_ne hne signed).trans hv.held, hv.own⟩
    rcases (v.store.publish other signed).1 with e | u
    · exact hwritten
    · exact hwritten
  refine hwrite.bind fun written _ => ?_
  refine (spares_core fun _ => by rfl).bind fun _ _ => ?_
  refine spares_resolve.bind fun _ _ => ?_
  exact spares_takeDropped.bind fun _ _ => keeps_pure (Q := fun _ => True) trivial

theorem spares_publish (hV : C.VaultLaws) (hne : addr ≠ other) :
    Spares C addr w (publish C other) := by
  refine (spares_planUpdate hV).bind fun planned haddr => ?_
  rcases planned with published | update
  · exact keeps_pure trivial
  · exact spares_writeUpdate (haddr update rfl) hne

theorem spares_exportAccount (hV : C.VaultLaws) (password : Option String) :
    Spares C addr w (exportAccount C other password) :=
  spares_requireManaged.bind fun _ _ => (spares_openKey hV password).map _

theorem spares_observe (hV : C.VaultLaws) (hne : addr ≠ other) :
    Spares C addr w (observe C other) :=
  spares_manages.bind fun _ _ => keeps_refuse.bind fun _ _ => spares_change hV (.add other) hne

theorem spares_stopObserving (hV : C.VaultLaws) (hne : addr ≠ other) :
    Spares C addr w (stopObserving C other) :=
  (spares_change hV (.remove other) hne).bind fun _ _ =>
    keeps_refuse.bind fun _ _ => spares_core fun _ => rfl

theorem spares_refresh : Spares C addr w (refresh C other) :=
  spares_requireKnown.bind fun _ _ => spares_readStore.bind fun _ _ => spares_takeDropped

theorem spares_discardPending : Spares C addr w (discardPending C other) :=
  spares_requireManaged.bind fun _ _ => spares_core fun _ => rfl

theorem spares_accounts : Spares C addr w (accounts C) :=
  (spares_look accounts_readOnly .vault).bind fun _ _ =>
    (spares_look list_readOnly .observed).bind fun _ _ =>
      (keeps_look (Q := fun _ => True) fun _ _ => trivial).bind fun _ _ => keeps_pure trivial

theorem spares_state : Spares C addr w (state C other) := by
  refine (spares_look accounts_readOnly .vault).bind fun held _ => ?_
  have hknown : Spares C addr w (if (held.find? (·.addr = other)).isSome then return true
      else observes C other : CoreM Addr Bool) := by
    split
    · exact keeps_pure trivial
    · exact spares_observes
  refine hknown.bind fun known _ => keeps_refuse.bind fun _ _ => ?_
  exact (keeps_look (Q := fun _ => True) fun _ _ => trivial).bind fun _ _ => keeps_pure trivial

end Manager

/-! ### Every operation -/

/-- An operation leaves what is outside the app alike for an account it does not name. -/
theorem CoreOp.spared (hV : C.VaultLaws) (op : CoreOp Addr) (hop : ¬op.Concerns C addr) :
    Spares C addr w (op.body C) := by
  cases op with
  | createAccount generated password seed =>
    exact ((spares_takeIn hV (Ne.symm hop) password seed).mono fun _ _ => trivial).map _
  | importAccount secretHex password seed =>
    refine (spares_importAccount hV (fun key hkey haddr => ?_) password seed).map _
    exact hop ⟨key, hkey, haddr.symm⟩
  | exportAccount addr' password => exact (spares_exportAccount hV password).map _
  | unlock addr' password => exact (spares_unlock hV password).map _
  | forgetAccount addr' => exact (spares_forgetAccount hV (Ne.symm hop)).map _
  | observe addr' => exact (spares_observe hV (Ne.symm hop)).map _
  | stopObserving addr' => exact (spares_stopObserving hV (Ne.symm hop)).map _
  | refresh addr' => exact spares_refresh.map _
  | stageAddInstallation addr' keyHex => exact (spares_stageAddInstallation keyHex).map _
  | stageSetDisplayName addr' name => exact (spares_stageSetDisplayName name).map _
  | stageRevoke addr' index => exact (spares_stageRevoke index).map _
  | discardPending addr' => exact spares_discardPending.map _
  | publish addr' => exact (spares_publish hV (Ne.symm hop)).map _
  | accounts => exact spares_accounts.map _
  | state addr' => exact spares_state.map _

/-- An operation leaves the world alike for an account it does not name. -/
theorem CoreOp.spares (hV : C.VaultLaws) (hL : C.LogLaws) (hA : C.AccountLaws)
    (h : Reachable C w) (op : CoreOp Addr) (hop : ¬op.Concerns C addr) :
    Alike C addr .strict w (op.run C w).2 := by
  have hsound := h.sound hV hL hA
  have hwritten := h.written_eq hV hA
  have hstart : Spared C addr w w :=
    ⟨⟨.refl _, fun _ => .refl _⟩, rfl, rfl, fun other key hkey => hsound.unlocked other key hkey⟩
  have hspared := (op.spared (w := w) hV hop w hstart).1
  have hsame := CoreOp.frame hV hA hwritten hop (rfl : op.run C w = op.run C w)
  have hwritten' := (Reachable.op op h).written_eq hV hA
  exact {
    fs := hspared.fs
    core := {
      read := hsame.read
      staged := hsame.staged
      dropped := hsame.dropped
      unlocked := hsame.unlocked
      written := hwritten'.trans hwritten.symm
      resolver := .inl hsame.resolver
      own := hsound.unlocked addr }
    kind := hspared.kind
    held := hspared.held
    appended := by simp [Leeway.strict] }

end AccountLogUi
