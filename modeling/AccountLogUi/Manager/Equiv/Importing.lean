import AccountLogUi.Manager.Equiv.Showing
import AccountLogUi.Observed.Equiv.Removing
import AccountLogUi.Reference.Equiv.Laws
import AccountLogUi.Vault.Equiv.Taking

/-!
# When an import is all or nothing

`AllOrNothing` is what an import is to have done, whatever it answers.  It has two files to change,
and keeps the first change where the second fails: `import_all_or_nothing_iff` says that this is the
only way it goes wrong, but for a key left unlocked from before.  What it takes for the second is
said of the directory before the import (`Finishes`).
-/

namespace AccountLogUi.Manager

variable {Addr : Type} [DecidableEq Addr] {C : Crates Addr} {w w' : World Addr} {addr : Addr}

/-- The account is in the vault under one spelling, with a key of its own in the file. -/
structure Kept (C : Crates Addr) (fs : Fs) (addr : Addr) (password : Option String) (seed : ℕ) :
    Prop where
  file : ∃ key synced, C.addrOf key = addr ∧
    fs.node (Vault.pathOf C addr password.isSome) =
      some (.file ⟨Vault.keyFile C key password seed, synced⟩)
  single : fs.node (Vault.pathOf C addr (!password.isSome)) = none

/-- What an import is to have done: nothing where it fails, and all there is to do where it
answers, so that forgetting the account does not bring it back as an observed one. -/
structure AllOrNothing (C : Crates Addr) (secretHex : String) (password : Option String) (seed : ℕ)
    (w : World Addr) : Prop where
  error : ∀ e w', (importAccount C secretHex password seed).on w = (.error e, w') →
    SameData C w.disk.fs w'.disk.fs ∧ w'.core.unlocked = w.core.unlocked
  kept : ∀ addr w', (importAccount C secretHex password seed).on w = (.ok addr, w') →
    Kept C w'.disk.fs addr password seed
  unlocked : ∀ addr w', (importAccount C secretHex password seed).on w = (.ok addr, w') →
    ((w'.core.unlocked addr).isSome ↔ password.isSome)
  unobserved : ∀ addr w', (importAccount C secretHex password seed).on w = (.ok addr, w') →
    ∃ observed, Observed.Lists C w'.disk.fs observed ∧ addr ∉ observed
  forgotten : ∀ addr w' w₁ w₂ w₃ w₄ rows,
    (importAccount C secretHex password seed).on w = (.ok addr, w') →
    w₁.disk.fs = w'.disk.fs → (forgetAccount C addr).on w₁ = (.ok (), w₂) →
    w₃.disk.fs = w₂.disk.fs → (accounts C).on w₃ = (.ok rows, w₄) →
    ∀ row ∈ rows, row.address ≠ shownAs C addr

/-! ### An import, step by step -/

theorem takeIn_created {key : Ed25519SigningKey} {password : Option String} {seed : ℕ}
    {taken : Addr}
    (h : (takeIn C key password seed).on w = (.ok taken, w')) :
    w.disk.run (Vault.create C key password seed).run = (.ok taken, w'.disk) := by
  unfold takeIn at h
  obtain ⟨addr, w₁, hcreate, h⟩ := Action.on_bind_ok.mp h
  obtain ⟨u, w₂, hchange, h⟩ := Action.on_bind_ok.mp h
  obtain ⟨rfl, rfl⟩ : addr = taken ∧ w₂ = w' := by simpa using h
  obtain ⟨-, rfl⟩ := Prod.mk.inj hchange
  exact (vault_ok hcreate).1

theorem takeIn_of_created {key : Ed25519SigningKey} {password : Option String} {seed : ℕ}
    {taken : Addr} {disk : Disk}
    (h : w.disk.run (Vault.create C key password seed).run = (.ok taken, disk)) :
    ∃ w₁, (takeIn C key password seed).on w = (.ok taken, w₁) ∧ w₁.disk = disk := by
  have hcreate : (vault (Vault.create C key password seed)).on w =
      (.ok taken, { w with disk := disk }) := by
    rw [vault_on, h]
    rfl
  refine ⟨{ w with
    disk := disk
    core := if password.isSome
      then { w.core with unlocked := Function.update w.core.unlocked taken (some key) }
      else w.core }, ?_, rfl⟩
  unfold takeIn
  rw [Action.on_bind, hcreate]
  rfl

/-- What the removal from the observed list leaves of the vault and of the rest. -/
theorem removed_files (hV : C.VaultLaws) (disk : Disk) (taken : Addr) :
    Vault.SameFiles C disk.fs (disk.run (Observed.remove C taken).run).2.fs := by
  intro addr p
  exact (Observed.change_run (C := C) (.remove taken) disk).1 _
    (Vault.pathOf_ne_observedFile hV addr p) (Vault.pathOf_ne_stagedFile hV addr p)

/-! ### What it takes -/

/-- Nothing keeps an import from being finished once the vault took the key, by its first fifteen
calls: the account can be taken off the observed list, and no key of its is left unlocked that has
no password now. -/
structure Finishes (C : Crates Addr) (password : Option String) (w : World Addr) (addr : Addr) :
    Prop where
  removable : Observed.Removable C w.disk 15 w.disk.fs addr
  unlocked : password.isSome ∨ w.core.unlocked addr = none

section

variable {key : Ed25519SigningKey} {password : Option String} {seed : ℕ}

theorem create_of_takes (hV : C.VaultLaws) (hpassword : password ≠ some "")
    (htakes : Vault.Takes C w.disk (C.addrOf key)) (seed : ℕ) : ∃ disk,
      w.disk.run (Vault.create C key password seed).run = (.ok (C.addrOf key), disk) := by
  obtain ⟨taken, disk, hrun, -⟩ :=
    (Vault.create_answers_iff w.disk hV key password seed fun _ => True).mpr
      ⟨hpassword, htakes, trivial⟩
  obtain ⟨-, hstored⟩ := Vault.create_run hV key password seed w.disk
  rw [hrun] at hstored
  rw [hstored.1] at hrun
  exact ⟨disk, hrun⟩

theorem takes_of_create (hV : C.VaultLaws) {taken : Addr} {disk : Disk}
    (h : w.disk.run (Vault.create C key password seed).run = (.ok taken, disk)) :
    password ≠ some "" ∧ Vault.Takes C w.disk (C.addrOf key) ∧
      disk.faults = w.disk.faults.drop 15 := by
  obtain ⟨hpassword, htakes, hfaults⟩ :=
    (Vault.create_answers_iff w.disk hV key password seed (disk.faults = ·)).mp
      ⟨taken, disk, h, rfl⟩
  exact ⟨hpassword, htakes, hfaults⟩

/-- The account can be taken off the list once the vault took its key, where it could be before. -/
theorem remove_of_created (hV : C.VaultLaws) {taken : Addr} {disk : Disk}
    (h : w.disk.run (Vault.create C key password seed).run = (.ok taken, disk)) (addr : Addr) :
    (∃ b, (disk.run (Observed.remove C addr).run).1 = .ok b) ↔
      Observed.Removable C w.disk 15 w.disk.fs addr := by
  obtain ⟨-, -, hfaults⟩ := takes_of_create hV h
  have hdisk : disk = w.disk.after 15 disk.fs := by
    unfold Disk.after
    rw [← hfaults]
  have hobserved := (Vault.create_run hV key password seed w.disk).1
  have hstaged := Vault.create_elsewhere w.disk hV key password seed
    Vault.lockFile_ne_stagedFile.symm (fun addr => (Vault.stageName_ne_stagedFile C addr).symm)
    fun addr protected_ => (Vault.pathOf_ne_stagedFile hV addr protected_).symm
  rw [h] at hobserved hstaged
  have hremoved :
      Disk.Answers (fun _ _ => True) (Observed.remove C addr) (w.disk.after 15 disk.fs) ↔
      Observed.Removable C w.disk 15 disk.fs addr := Observed.remove_answers_iff w.disk 15 addr
  rw [← hdisk] at hremoved
  constructor
  · rintro ⟨b, hok⟩
    exact (hremoved.mp ⟨b, _, Prod.ext hok rfl, trivial⟩).congr hobserved hstaged
  · intro hremovable
    obtain ⟨b, disk', hrun, -⟩ := hremoved.mpr (hremovable.congr hobserved.symm hstaged.symm)
    exact ⟨b, by rw [hrun]⟩

end

/-! ### All or nothing -/

section

variable {secretHex : String} {password : Option String} {seed : ℕ}

/-- An import of a key the vault takes is finished, where it is all or nothing. -/
theorem AllOrNothing.finishes (hV : C.VaultLaws) (h : AllOrNothing C secretHex password seed w)
    {key : Ed25519SigningKey}
    (hkey : parseAccountKey secretHex = (.ok key : Except (CoreError Addr) _))
    (hpassword : password ≠ some "") (htakes : Vault.Takes C w.disk (C.addrOf key)) :
    Finishes C password w (C.addrOf key) := by
  obtain ⟨disk, hcreate⟩ := create_of_takes hV hpassword htakes seed
  have hremoved := remove_of_created hV hcreate (C.addrOf key)
  obtain ⟨w₁, htake, rfl⟩ := takeIn_of_created hcreate
  obtain ⟨-, hstored, -, -, hcore⟩ := takeIn_ok hV htake
  generalize himport : (importAccount C secretHex password seed).on w = imported
  obtain ⟨r, w'⟩ := imported
  rcases importAccount_cases hV himport with
    ⟨e, -, -, hrefused⟩ | ⟨key', taken, w₂, hkey', htake', rfl, -, hremove⟩
  · have htake' := hrefused key hkey
    rw [htake] at htake'
    cases (Prod.mk.inj htake').1
  rw [hkey] at hkey'
  obtain rfl := Except.ok.inj hkey'
  rw [htake] at htake'
  obtain ⟨htaken, rfl⟩ := Prod.mk.inj htake'
  obtain rfl := Except.ok.inj htaken
  rcases hremove with ⟨e, -, rfl⟩ | ⟨b, hremove, rfl⟩
  · -- The key stays in the vault, although the import failed.
    have hsame := (h.error _ _ himport).1.files (C.addrOf key) password.isSome
    have hkept := removed_files hV w₁.disk (C.addrOf key) (C.addrOf key) password.isSome
    rw [hkept, hstored.file] at hsame
    exact absurd ⟨_, by rw [← hsame]; rfl⟩ hstored.absent
  · refine ⟨hremoved.mp ⟨b, hremove⟩, ?_⟩
    by_cases hprotected : password.isSome
    · exact .inl hprotected
    · -- Without a password an import neither opens nor closes the account.
      have hunlocked := h.unlocked _ _ himport
      rw [hcore, if_neg hprotected] at hunlocked
      exact .inr (by simpa [hprotected] using hunlocked)

/-- What an import that fails leaves, where one that the vault takes the key of is finished. -/
theorem import_left (hV : C.VaultLaws)
    (h : ∀ key, parseAccountKey secretHex = (.ok key : Except (CoreError Addr) _) →
      password ≠ some "" → Vault.Takes C w.disk (C.addrOf key) →
        Finishes C password w (C.addrOf key))
    {e : CoreError Addr}
    (himport : (importAccount C secretHex password seed).on w = (.error e, w')) :
    SameData C w.disk.fs w'.disk.fs ∧ w'.core.unlocked = w.core.unlocked := by
  rcases importAccount_cases hV himport with
    ⟨e, -, hrefused, -⟩ | ⟨key, taken, w₁, hkey, htake, -, -, hremove⟩
  · exact ⟨hrefused.data, by rw [hrefused.core]⟩
  · have hcreate := takeIn_created htake
    obtain ⟨hpassword, htakes, -⟩ := takes_of_create hV hcreate
    obtain ⟨rfl, -⟩ := takeIn_ok hV htake
    obtain ⟨b, hok⟩ := (remove_of_created hV hcreate _).mpr (h key hkey hpassword htakes).removable
    rcases hremove with ⟨e, hremove, -⟩ | ⟨b', -, hr⟩
    · rw [hok] at hremove
      cases hremove
    · cases hr

/-- What an import that answers leaves there. -/
theorem import_taken (hV : C.VaultLaws)
    (h : ∀ key, parseAccountKey secretHex = (.ok key : Except (CoreError Addr) _) →
      password ≠ some "" → Vault.Takes C w.disk (C.addrOf key) →
        Finishes C password w (C.addrOf key))
    (himport : (importAccount C secretHex password seed).on w = (.ok addr, w')) :
    Kept C w'.disk.fs addr password seed ∧ ((w'.core.unlocked addr).isSome ↔ password.isSome) ∧
      ∃ observed, Observed.Lists C w'.disk.fs observed ∧ addr ∉ observed := by
  rcases importAccount_cases hV himport with ⟨e, hr, -⟩ |
    ⟨key, taken, w₁, hkey, htake, rfl, -, ⟨e, -, hr⟩ | ⟨b, hremove, hr⟩⟩
  · cases hr
  · cases hr
  obtain rfl := Except.ok.inj hr
  obtain ⟨hpassword, htakes, -⟩ := takes_of_create hV (takeIn_created htake)
  obtain ⟨rfl, hstored, -, -, hcore⟩ := takeIn_ok hV htake
  have hunlocked := (h key hkey hpassword htakes).unlocked
  have hfiles := removed_files hV w₁.disk (C.addrOf key)
  refine ⟨⟨⟨key, true, rfl, (hfiles _ _).trans hstored.file⟩, ?_⟩, ?_, ?_⟩
  · have hother : w₁.disk.fs.node (Vault.pathOf C (C.addrOf key) (!password.isSome)) =
        w.disk.fs.node (Vault.pathOf C (C.addrOf key) (!password.isSome)) :=
      hstored.other _ _ fun hsame => (Bool.not_ne_self password.isSome) hsame.2
    rw [hfiles, hother]
    by_contra hne
    exact hstored.absent ⟨_, Option.isSome_iff_ne_none.mpr hne⟩
  · show (w₁.core.unlocked (C.addrOf key)).isSome ↔ _
    rw [hcore]
    by_cases hprotected : password.isSome
    · simp [hprotected]
    · simp [hprotected, hunlocked.resolve_left hprotected]
  · have hchange : (w₁.disk.run ((Observed.Change.remove (C.addrOf key)).body C).run).1 =
        .ok b := hremove
    obtain ⟨before, after, -, hafter, -, hmem⟩ := Observed.lists_changed hV hchange
    refine ⟨after, hafter, fun hlisted => ?_⟩
    have hleft := (hmem _).mp hlisted
    simp [Observed.Change.apply] at hleft

end

/-- An account that the observed list does not name is gone once it is forgotten. -/
theorem forgotten_of_unlisted (hV : C.VaultLaws) {observed : List Addr} {w₁ w₂ w₃ w₄ : World Addr}
    {rows : List AccountSummary} (hlists : Observed.Lists C w.disk.fs observed)
    (hnot : addr ∉ observed)
    (hfs : w₁.disk.fs = w.disk.fs) (hforget : (forgetAccount C addr).on w₁ = (.ok (), w₂))
    (hfs' : w₃.disk.fs = w₂.disk.fs) (hrows : (accounts C).on w₃ = (.ok rows, w₄)) :
    ∀ row ∈ rows, row.address ≠ shownAs C addr := by
  intro row hrow haddress
  obtain ⟨-, habsent, hobserved, -, -⟩ := forgetAccount_ok hV hforget
  obtain ⟨held, listed, hlisting, rfl⟩ := accounts_ok hV hrows
  have hlisted : listed = observed := by
    have hlists' : Observed.Lists C w₃.disk.fs observed := by
      refine hlists.congr ?_
      rw [hfs', hobserved, hfs]
    exact hlists'.unique hlisting.observed
  rcases List.mem_append.mp hrow with hrow | hrow
  · obtain ⟨account, haccount, rfl⟩ := List.mem_map.mp hrow
    obtain rfl := (shownAs_inj hV).mp haddress
    have hsome := (hlisting.files account).mp haccount
    rw [hfs'] at hsome
    exact habsent ⟨_, hsome⟩
  · obtain ⟨other, hother, -, rfl⟩ := (mem_observedRows hlisting).mp hrow
    obtain rfl := (shownAs_inj hV).mp haddress
    exact hnot (hlisted ▸ hother)

/-- An import is all or nothing exactly where nothing keeps it from being finished, or the vault
from taking the key. -/
theorem import_all_or_nothing_iff (hV : C.VaultLaws) (secretHex : String)
    (password : Option String) (seed : ℕ) (w : World Addr) :
    AllOrNothing C secretHex password seed w ↔
      ∀ key, parseAccountKey secretHex = (.ok key : Except (CoreError Addr) _) →
        password ≠ some "" → Vault.Takes C w.disk (C.addrOf key) →
          Finishes C password w (C.addrOf key) := by
  constructor
  · intro h key hkey hpassword htakes
    exact h.finishes hV hkey hpassword htakes
  · intro h
    refine ⟨fun e w' himport => import_left hV h himport,
      fun addr w' himport => (import_taken hV h himport).1,
      fun addr w' himport => (import_taken hV h himport).2.1,
      fun addr w' himport => (import_taken hV h himport).2.2, ?_⟩
    intro addr w' w₁ w₂ w₃ w₄ rows himport hfs hforget hfs' hrows
    obtain ⟨-, -, observed, hlists, hnot⟩ := import_taken hV h himport
    exact forgotten_of_unlisted hV hlists hnot hfs hforget hfs' hrows

/-- A directory whose observed list is no list. -/
def garbled : World Reference.Addr :=
  { World.start [] with
    disk := ⟨⟨some ⟨[⟨.utf8 Observed.observedFile, .file ⟨.text .other, true⟩⟩], by simp⟩,
      none⟩, []⟩ }

/-- An import there fails, and the key is in the vault all the same. -/
theorem import_not_all_or_nothing :
    ¬AllOrNothing Crates.reference
      (String.ofList (Hex.encode (Reference.someKey 1).bytes.toList)) none 0 garbled := by
  intro h
  generalize hrun : (importAccount Crates.reference
    (String.ofList (Hex.encode (Reference.someKey 1).bytes.toList)) none 0).on garbled = ran
  have hfailed : ran.1 = .error (.observed (.corrupt "expected value")) := by
    rw [← hrun]
    decide +kernel
  have hkept : (ran.2.disk.fs.node (Vault.pathOf Crates.reference
      ⟨(Reference.someKey 1).bytes⟩ false)).isSome = true := by
    rw [← hrun]
    decide +kernel
  obtain ⟨r, w'⟩ := ran
  obtain rfl : r = _ := hfailed
  have hsame := (h.error _ _ hrun).1.files ⟨(Reference.someKey 1).bytes⟩ false
  rw [hsame] at hkept
  have hbefore : (garbled.disk.fs.node (Vault.pathOf Crates.reference
      ⟨(Reference.someKey 1).bytes⟩ false)).isSome = false := by decide +kernel
  rw [hbefore] at hkept
  cases hkept

/-- An app that observes an account. -/
def onlooker : World Reference.Addr :=
  CoreOp.runs Crates.reference [.observe ⟨(Reference.someKey 1).bytes⟩] (.start [])

/-- The import of an account observed is all or nothing where its list can be written over. -/
theorem import_all_or_nothing_iff_observed :
    Observed.Lists Crates.reference onlooker.disk.fs [⟨(Reference.someKey 1).bytes⟩] ∧
      ((importAccount Crates.reference
        (String.ofList (Hex.encode (Reference.someKey 1).bytes.toList)) (some "pw") 0).on
          onlooker).1 = .ok ⟨(Reference.someKey 1).bytes⟩ ∧
      AllOrNothing Crates.reference
        (String.ofList (Hex.encode (Reference.someKey 1).bytes.toList)) (some "pw") 0 onlooker := by
  have hfacts : (onlooker.disk.run (Observed.list Crates.reference).run).1 =
        .ok [⟨(Reference.someKey 1).bytes⟩] ∧
      ((importAccount Crates.reference
        (String.ofList (Hex.encode (Reference.someKey 1).bytes.toList)) (some "pw") 0).on
          onlooker).1 = .ok ⟨(Reference.someKey 1).bytes⟩ ∧
      onlooker.disk.faults = [] ∧ onlooker.disk.fs.isDir Observed.stagedFile = false := by
    decide +kernel
  have hkey : parseAccountKey (String.ofList (Hex.encode (Reference.someKey 1).bytes.toList)) =
      (.ok (Reference.someKey 1) : Except (CoreError Reference.Addr) _) := by decide +kernel
  generalize onlooker = w at *
  obtain ⟨hlist, himport, hfaults, hstaged⟩ := hfacts
  have hfault : ∀ n, w.disk.fault n = none := by
    intro n
    unfold Disk.fault
    rw [hfaults]
    rfl
  refine ⟨Observed.list_run hlist, himport,
    (import_all_or_nothing_iff Reference.vaultLaws _ _ _ _).mpr ?_⟩
  intro key hkey' hpassword htakes
  rw [hkey] at hkey'
  obtain rfl := Except.ok.inj hkey'
  exact ⟨⟨hfault 15, _, Observed.list_run hlist, fun _ => ⟨hstaged, fun m _ => hfault _⟩⟩, .inl rfl⟩

end AccountLogUi.Manager
