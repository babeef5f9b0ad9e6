import AccountLogUi.Manager.Equiv.Looking
import AccountLogUi.Observed.Equiv.List

/-!
# What taking in, opening and forgetting accounts did

For every operation that does not ask the store, but to stage an edit, what it did where it answers
and where it fails: one lemma each, from which everything about runs is derived without looking into
the operation again.  `Refused` says that a failed operation left all there is.
-/

namespace AccountLogUi.Manager

variable {Addr : Type} {w w' : World Addr} {addr : Addr}

/-! ### Leaving things as they were -/

/-- The store was not asked. -/
structure Offline (w w' : World Addr) : Prop where
  store : w'.store = w.store
  now : w'.now = w.now
  asked : w'.asked = w.asked

theorem Offline.trans {w₁ w₂ w₃ : World Addr} (h : Offline w₁ w₂) (h' : Offline w₂ w₃) :
    Offline w₁ w₃ :=
  ⟨h'.store.trans h.store, h'.now.trans h.now, h'.asked.trans h.asked⟩

/-- The vault's files and the observed list are what they were. -/
structure SameData (C : Crates Addr) (fs fs' : Fs) : Prop where
  files : Vault.SameFiles C fs fs'
  observed : fs'.node Observed.observedFile = fs.node Observed.observedFile

theorem SameData.of_eq {C : Crates Addr} {fs fs' : Fs} (h : fs' = fs) : SameData C fs fs' := by
  subst h
  exact ⟨fun _ _ => rfl, rfl⟩

theorem SameData.trans {C : Crates Addr} {fs fs' fs'' : Fs} (h : SameData C fs fs')
    (h' : SameData C fs' fs'') : SameData C fs fs'' :=
  ⟨h.files.trans h'.files, h'.observed.trans h.observed⟩

/-- All there is was left as it was. -/
structure Refused (C : Crates Addr) (w w' : World Addr) : Prop where
  core : w'.core = w.core
  data : SameData C w.disk.fs w'.disk.fs
  offline : Offline w w'

theorem Looked.refused {C : Crates Addr} (h : Looked w w') : Refused C w w' :=
  ⟨h.core, .of_eq h.fs, h.store, h.now, h.asked⟩

theorem Refused.trans {C : Crates Addr} {w₁ w₂ w₃ : World Addr} (h : Refused C w₁ w₂)
    (h' : Refused C w₂ w₃) : Refused C w₁ w₃ :=
  ⟨h'.core.trans h.core, h.data.trans h'.data, h.offline.trans h'.offline⟩

variable [DecidableEq Addr] {C : Crates Addr}

/-! ### Accounts -/

theorem takeIn_ok (hV : C.VaultLaws) {key : Ed25519SigningKey} {password : Option String}
    {seed : ℕ} {taken : Addr} (h : (takeIn C key password seed).on w = (.ok taken, w')) :
    taken = C.addrOf key ∧ Vault.Stored C key password seed w.disk.fs w'.disk.fs ∧
      w'.disk.fs.node Observed.observedFile = w.disk.fs.node Observed.observedFile ∧
      Offline w w' ∧ w'.core = if password.isSome
        then { w.core with unlocked := Function.update w.core.unlocked (C.addrOf key) (some key) }
        else w.core := by
  unfold takeIn at h
  obtain ⟨addr, w₁, hcreate, h⟩ := Action.on_bind_ok.mp h
  obtain ⟨u, w₂, hchange, h⟩ := Action.on_bind_ok.mp h
  obtain ⟨rfl, rfl⟩ : addr = taken ∧ w₂ = w' := by simpa using h
  obtain ⟨hrun, hw₁⟩ := vault_ok hcreate
  obtain ⟨hobserved, hstored⟩ := Vault.create_run hV key password seed w.disk
  rw [hrun] at hobserved hstored
  obtain ⟨rfl, hstored⟩ := hstored
  obtain ⟨-, rfl⟩ := Prod.mk.inj hchange
  rw [hw₁]
  exact ⟨rfl, hstored, hobserved, ⟨rfl, rfl, rfl⟩, rfl⟩

theorem takeIn_error (hV : C.VaultLaws) {key : Ed25519SigningKey} {password : Option String}
    {seed : ℕ} {e : CoreError Addr} (h : (takeIn C key password seed).on w = (.error e, w')) :
    Refused C w w' := by
  unfold takeIn at h
  rcases Action.on_bind_error.mp h with hcreate | ⟨addr, w₁, -, h⟩
  · obtain ⟨hrun, hw'⟩ := Prod.mk.inj hcreate
    obtain ⟨e', hrun, -⟩ := mapError_eq_error.mp hrun
    obtain ⟨hobserved, hsame⟩ := Vault.create_run hV key password seed w.disk
    have hrun' : (w.disk.run (Vault.create C key password seed).run).1 = .error e' := hrun
    rw [hrun'] at hsame
    subst hw'
    exact ⟨rfl, ⟨hsame, hobserved⟩, rfl, rfl, rfl⟩
  · rcases Action.on_bind_error.mp h with h | ⟨u, w₂, -, h⟩
    · cases (Prod.mk.inj h).1
    · simp at h

/-- What a change to the list of observed accounts did, whether it went through or not. -/
structure Listed (C : Crates Addr) (change : Observed.Change Addr) (w w' : World Addr) : Prop where
  core : w'.core = w.core
  files : Vault.SameFiles C w.disk.fs w'.disk.fs
  list : w'.disk.fs.node Observed.observedFile = w.disk.fs.node Observed.observedFile ∨
    ∃ before after, Observed.Lists C w.disk.fs before ∧ Observed.Lists C w'.disk.fs after ∧
      ∀ addr, addr ∈ after ↔ addr ∈ change.apply before
  offline : Offline w w'

theorem Listed.looked {change : Observed.Change Addr} {w₁ : World Addr} (h : Looked w w₁)
    (h' : Listed C change w₁ w') : Listed C change w w' where
  core := h'.core.trans h.core
  files := by
    rw [← h.fs]
    exact h'.files
  list := by
    rw [← h.fs]
    exact h'.list
  offline := (h.refused (C := C)).offline.trans h'.offline

/-- A change to the observed list, made by the app. -/
theorem change_on (hV : C.VaultLaws) (change : Observed.Change Addr)
    {r : Except (CoreError Addr) Bool} (h : (observed (change.body C)).on w = (r, w')) :
    Listed C change w w' ∧ (r ≠ .ok true → Refused C w w') := by
  obtain ⟨hr, rfl⟩ := Prod.mk.inj ((observed_on _ w).symm.trans h)
  obtain ⟨hother, hres⟩ := Observed.change_run (C := C) change w.disk
  have hfiles : Vault.SameFiles C w.disk.fs (w.disk.run (change.body C).run).2.fs := fun addr p =>
    hother _ (Vault.pathOf_ne_observedFile hV addr p) (Vault.pathOf_ne_stagedFile hV addr p)
  have hoffline : Offline w { w with disk := (w.disk.run (change.body C).run).2 } :=
    ⟨rfl, rfl, rfl⟩
  subst hr
  rcases hb : (w.disk.run (change.body C).run).1 with e | b
  · rw [hb] at hres
    exact ⟨⟨rfl, hfiles, .inl hres, hoffline⟩, fun _ => ⟨rfl, ⟨hfiles, hres⟩, hoffline⟩⟩
  · obtain ⟨before, after, hbefore, hafter, -, hmem⟩ := Observed.lists_changed hV hb
    refine ⟨⟨rfl, hfiles, .inr ⟨before, after, hbefore, hafter, hmem⟩, hoffline⟩, fun hne => ?_⟩
    rw [hb] at hres
    rcases b with - | -
    · exact ⟨rfl, ⟨hfiles, hres.2⟩, hoffline⟩
    · exact absurd rfl hne

/-- An import is what the vault makes of the key, and then what the observed list makes of the
account.  One that fails left things as they were, or else the account was taken in before the
observed list could not be changed. -/
theorem importAccount_cases (hV : C.VaultLaws) {secretHex : String} {password : Option String}
    {seed : ℕ} {r : Except (CoreError Addr) Addr}
    (h : (importAccount C secretHex password seed).on w = (r, w')) :
    (∃ e, r = .error e ∧ Refused C w w' ∧
        ∀ key, parseAccountKey secretHex = (.ok key : Except (CoreError Addr) _) →
          (takeIn C key password seed).on w = (.error e, w')) ∨
      ∃ key taken w₁, parseAccountKey secretHex = (.ok key : Except (CoreError Addr) _) ∧
        (takeIn C key password seed).on w = (.ok taken, w₁) ∧
        w' = { w₁ with disk := (w₁.disk.run (Observed.remove C taken).run).2 } ∧
        Listed C (.remove taken) w₁ w' ∧
        ((∃ e, (w₁.disk.run (Observed.remove C taken).run).1 = .error e ∧
            r = .error (.observed e)) ∨
          ∃ b, (w₁.disk.run (Observed.remove C taken).run).1 = .ok b ∧ r = .ok taken) := by
  unfold importAccount at h
  rcases Action.on_orFail_bind_cases h with ⟨e, hkey, rfl, rfl⟩ | ⟨key, hkey, h⟩
  · refine .inl ⟨e, rfl, (Looked.refl _).refused, fun key hkey' => ?_⟩
    rw [hkey] at hkey'
    cases hkey'
  rcases Action.on_bind_cases h with ⟨e, htake, rfl⟩ | ⟨taken, w₁, htake, h⟩
  · refine .inl ⟨e, rfl, takeIn_error hV htake, fun key' hkey' => ?_⟩
    rw [hkey] at hkey'
    exact Except.ok.inj hkey' ▸ htake
  refine .inr ⟨key, taken, w₁, hkey, htake, ?_⟩
  rcases Action.on_bind_cases h with ⟨e, hremove, rfl⟩ | ⟨b, w₂, hremove, h⟩
  · have hlisted := (change_on (C := C) hV (.remove taken) hremove).1
    obtain ⟨hr, rfl⟩ := Prod.mk.inj ((observed_on _ _).symm.trans hremove)
    obtain ⟨e', he, rfl⟩ := mapError_eq_error.mp hr
    exact ⟨rfl, hlisted, .inl ⟨e', he, rfl⟩⟩
  · have hlisted := (change_on (C := C) hV (.remove taken) hremove).1
    obtain ⟨hr, rfl⟩ := Prod.mk.inj ((observed_on _ _).symm.trans hremove)
    obtain ⟨rfl, rfl⟩ := Prod.mk.inj h
    exact ⟨rfl, hlisted, .inr ⟨b, mapError_eq_ok.mp hr, rfl⟩⟩

theorem exportAccount_ok (hV : C.VaultLaws) {password : Option String} {secret : String}
    (h : (exportAccount C addr password).on w = (.ok secret, w')) :
    Looked w w' ∧ ∃ key, secret = String.ofList (Hex.encode key.bytes.toList) ∧
      C.addrOf key = addr ∧ (w.disk.fs.node (Vault.pathOf C addr password.isSome)).isSome ∧
      ¬Vault.Doubled C w.disk.fs addr ∧
      ∀ chosen, password = some chosen → ∃ text synced,
        w.disk.fs.node (Vault.pathOf C addr true) = some (.file ⟨.text text, synced⟩) ∧
          C.decryptKey (.text text) chosen = .ok key.bytes.toList := by
  unfold exportAccount at h
  obtain ⟨u, w₁, hmanaged, h⟩ := Action.on_bind_ok.mp h
  obtain ⟨key, w₂, hopen, h⟩ := Action.on_bind_ok.mp h
  obtain ⟨rfl, rfl⟩ : String.ofList (Hex.encode key.bytes.toList) = secret ∧ w₂ = w' := by
    simpa using h
  have hlooked := (requireManaged_ok hV hmanaged).1
  have hfacts := Vault.openKey_run hV (vault_ok hopen).1
  rw [hlooked.fs] at hfacts
  exact ⟨hlooked.trans (vault_looked (Vault.openKey_readOnly addr password) hopen), key, rfl,
    hfacts⟩

theorem exportAccount_error (hV : C.VaultLaws) {password : Option String} {e : CoreError Addr}
    (h : (exportAccount C addr password).on w = (.error e, w')) : Looked w w' := by
  unfold exportAccount at h
  rcases Action.on_bind_error.mp h with h | ⟨u, w₁, hmanaged, h⟩
  · exact requireManaged_error hV h
  rcases Action.on_bind_error.mp h with hopen | ⟨key, w₂, -, h⟩
  · exact (requireManaged_ok hV hmanaged).1.trans
      (vault_looked (Vault.openKey_readOnly addr password) hopen)
  · simp at h

theorem unlock_ok (hV : C.VaultLaws) {password : String} {u : Unit}
    (h : (unlock C addr password).on w = (.ok u, w')) :
    ∃ key, C.addrOf key = addr ∧ (∃ text synced,
        w.disk.fs.node (Vault.pathOf C addr true) = some (.file ⟨.text text, synced⟩) ∧
          C.decryptKey (.text text) password = .ok key.bytes.toList) ∧
      w'.core = { w.core with unlocked := Function.update w.core.unlocked addr (some key) } ∧
      w'.disk.fs = w.disk.fs ∧ Offline w w' := by
  unfold unlock at h
  obtain ⟨u, w₁, hmanaged, h⟩ := Action.on_bind_ok.mp h
  obtain ⟨key, w₂, hopen, h⟩ := Action.on_bind_ok.mp h
  have hlooked := (requireManaged_ok hV hmanaged).1
  have hlooked' := hlooked.trans
    (vault_looked (Vault.openKey_readOnly addr (some password)) hopen)
  obtain ⟨haddr, -, -, hdecrypt⟩ := Vault.openKey_run hV (vault_ok hopen).1
  rw [hlooked.fs] at hdecrypt
  obtain ⟨-, rfl⟩ := Prod.mk.inj h
  refine ⟨key, haddr, hdecrypt password rfl, ?_, hlooked'.fs, hlooked'.store, hlooked'.now,
    hlooked'.asked⟩
  dsimp only
  rw [hlooked'.core]

theorem unlock_error (hV : C.VaultLaws) {password : String} {e : CoreError Addr}
    (h : (unlock C addr password).on w = (.error e, w')) : Looked w w' := by
  unfold unlock at h
  rcases Action.on_bind_error.mp h with h | ⟨u, w₁, hmanaged, h⟩
  · exact requireManaged_error hV h
  rcases Action.on_bind_error.mp h with hopen | ⟨key, w₂, -, h⟩
  · exact (requireManaged_ok hV hmanaged).1.trans
      (vault_looked (Vault.openKey_readOnly addr (some password)) hopen)
  · cases (Prod.mk.inj h).1

theorem forgetAccount_ok (hV : C.VaultLaws) {u : Unit}
    (h : (forgetAccount C addr).on w = (.ok u, w')) :
    Vault.Dropped C addr w.disk.fs w'.disk.fs ∧ ¬Vault.Present C w'.disk.fs addr ∧
      w'.disk.fs.node Observed.observedFile = w.disk.fs.node Observed.observedFile ∧
      w'.core = { w.core with
        unlocked := Function.update w.core.unlocked addr none
        staged := Function.update w.core.staged addr none
        read := Function.update w.core.read addr none
        dropped := Function.update w.core.dropped addr none } ∧ Offline w w' := by
  unfold forgetAccount at h
  obtain ⟨u, w₁, hmanaged, h⟩ := Action.on_bind_ok.mp h
  obtain ⟨u', w₂, hforget, h⟩ := Action.on_bind_ok.mp h
  have hlooked := (requireManaged_ok hV hmanaged).1
  obtain ⟨hrun, hw₂⟩ := vault_ok hforget
  obtain ⟨hobserved, hdropped⟩ := Vault.forget_run hV addr w₁.disk
  rw [hrun] at hobserved hdropped
  rw [hlooked.fs] at hobserved hdropped
  obtain ⟨-, rfl⟩ := Prod.mk.inj h
  rw [hw₂]
  refine ⟨hdropped.1, hdropped.2, hobserved, ?_, hlooked.store, hlooked.now, hlooked.asked⟩
  dsimp only
  rw [hlooked.core]

theorem forgetAccount_error (hV : C.VaultLaws) {e : CoreError Addr}
    (h : (forgetAccount C addr).on w = (.error e, w')) : Refused C w w' := by
  unfold forgetAccount at h
  rcases Action.on_bind_error.mp h with h | ⟨u, w₁, hmanaged, h⟩
  · exact (requireManaged_error hV h).refused
  rcases Action.on_bind_error.mp h with hforget | ⟨u', w₂, -, h⟩
  · refine (requireManaged_ok hV hmanaged).1.refused.trans ?_
    obtain ⟨hrun, hw'⟩ := Prod.mk.inj hforget
    obtain ⟨e', hrun, -⟩ := mapError_eq_error.mp hrun
    obtain ⟨hobserved, hsame⟩ := Vault.forget_run hV addr w₁.disk
    have hrun' : (w₁.disk.run (Vault.forget C addr).run).1 = .error e' := hrun
    rw [hrun'] at hsame
    subst hw'
    exact ⟨rfl, ⟨hsame, hobserved⟩, rfl, rfl, rfl⟩
  · cases (Prod.mk.inj h).1

theorem observe_ok (hV : C.VaultLaws) {b : Bool} (h : (observe C addr).on w = (.ok b, w')) :
    Listed C (.add addr) w w' := by
  unfold observe at h
  obtain ⟨managed, w₁, hmanages, h⟩ := Action.on_bind_ok.mp h
  obtain ⟨u, w₂, hrefuse, h⟩ := Action.on_bind_ok.mp h
  rw [(Action.on_refuse_ok.mp hrefuse).2] at h
  exact (change_on (C := C) hV (.add addr) h).1.looked (manages_ok hV hmanages).1

theorem observe_error (hV : C.VaultLaws) {e : CoreError Addr}
    (h : (observe C addr).on w = (.error e, w')) : Refused C w w' := by
  unfold observe at h
  rcases Action.on_bind_error.mp h with h | ⟨managed, w₁, hmanages, h⟩
  · exact (manages_error h).refused
  have hlooked := (manages_ok hV hmanages).1
  rcases Action.on_bind_error.mp h with hrefuse | ⟨u, w₂, hrefuse, h⟩
  · rw [(Action.on_refuse_error.mp hrefuse).2.2]
    exact hlooked.refused
  · rw [(Action.on_refuse_ok.mp hrefuse).2] at h
    exact hlooked.refused.trans ((change_on (C := C) hV (.add addr) h).2 (by simp))

theorem stopObserving_ok (hV : C.VaultLaws) {u : Unit}
    (h : (stopObserving C addr).on w = (.ok u, w')) :
    ∃ w₁, Listed C (.remove addr) w w₁ ∧ w' = { w₁ with core := { w₁.core with
      read := Function.update w₁.core.read addr none
      dropped := Function.update w₁.core.dropped addr none } } := by
  unfold stopObserving at h
  obtain ⟨removed, w₁, hremove, h⟩ := Action.on_bind_ok.mp h
  obtain ⟨u', w₂, hrefuse, h⟩ := Action.on_bind_ok.mp h
  rw [(Action.on_refuse_ok.mp hrefuse).2] at h
  exact ⟨w₁, (change_on (C := C) hV (.remove addr) hremove).1, (Prod.mk.inj h).2.symm⟩

theorem stopObserving_error (hV : C.VaultLaws) {e : CoreError Addr}
    (h : (stopObserving C addr).on w = (.error e, w')) : Refused C w w' := by
  unfold stopObserving at h
  rcases Action.on_bind_error.mp h with hremove | ⟨removed, w₁, hremove, h⟩
  · exact (change_on (C := C) hV (.remove addr) hremove).2 (by simp)
  rcases Action.on_bind_error.mp h with hrefuse | ⟨u, w₂, -, h⟩
  · obtain ⟨hremoved, -, rfl⟩ := Action.on_refuse_error.mp hrefuse
    exact (change_on (C := C) hV (.remove addr) hremove).2 (by simp [hremoved])
  · cases (Prod.mk.inj h).1

end AccountLogUi.Manager
