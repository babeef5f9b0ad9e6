import AccountLogUi.Vault.Equiv.Alike

/-!
# What the vault leaves of the other accounts

Taking in a key, and dropping an account, leave a directory alike to what it was for every other
account (`create_spares`, `forget_spares`): the lock is given up again, and an account's file comes
or goes only where the accounts could be listed without complaint.
-/

namespace AccountLogUi.Vault

variable {Addr : Type} {C : Crates Addr} {fs₀ fs fs' : Fs} {addr other : Addr}

theorem AlikeFor.withLock (h : AlikeFor C addr fs fs') (lock : Option ℕ) :
    AlikeFor C addr { fs with lock := lock } { fs' with lock := lock } :=
  ⟨⟨h.lockFile, h.newList, h.listed⟩, rfl, h.own, h.stage⟩

/-- Alike to what the directory was, but that the lock has been taken. -/
structure Locked (C : Crates Addr) (addr : Addr) (fs₀ fs : Fs) : Prop where
  free : fs₀.lock = none
  alike : AlikeFor C addr { fs₀ with lock := some 0 } fs

theorem Locked.of_tryLock {v : Unit} (h : AlikeFor C addr fs₀ fs)
    (hstep : fs.Step 0 .tryLock (.ok v) fs') : Locked C addr fs₀ fs' := by
  obtain ⟨hfree, rfl⟩ := hstep.tryLock_ok
  exact ⟨h.lock.symm.trans hfree, h.withLock (some 0)⟩

theorem Locked.unlock (h : Locked C addr fs₀ fs) {r : Except IoError Unit}
    (hstep : fs.Step 0 .unlock r fs') : AlikeFor C addr fs₀ fs' := by
  have hheld : fs.lock = some 0 := h.alike.lock
  have hleft := hstep.unlock_eq
  rw [if_pos hheld] at hleft
  rw [hleft]
  have hback := h.alike.withLock none
  have hfree : ({ fs₀ with lock := none } : Fs) = fs₀ := by
    rw [← h.free]
  rwa [hfree] at hback

/-- A call that names only another account's stage. -/
theorem AlikeFor.of_stage (hV : C.VaultLaws) (hne : addr ≠ other) {c : FsCall}
    (hsees : ∀ name ∈ c.sees, name = stageName C other) (hlock : c ≠ .tryLock ∧ c ≠ .unlock)
    {r : Except IoError c.Value} (h : fs.Step 0 c r fs') : AlikeFor C addr fs fs' := by
  refine .of_step_aside hV h (fun name hname => ⟨other, hsees name ?_⟩)
    (h.lock_eq hlock.1 hlock.2) fun name hname => ?_
  · rcases hname with rfl | rfl
    · exact List.mem_cons_self
    · exact List.mem_cons_self
  · rw [hsees name (FsCall.changes_subset_sees hname)]
    exact ⟨accountOf_stageName hV other, fun heq => hne (stageName_injective hV heq.symm)⟩

/-! ### Programs -/

section

variable {I : Fs → Prop} {ε : Type}

/-- A call that names only another account's stage keeps what a directory alike keeps. -/
theorem ends_stage (hV : C.VaultLaws) (hne : addr ≠ other)
    (hI : ∀ fs fs', I fs → AlikeFor C addr fs fs' → I fs') (hfs : I fs) {wrap : IoError → ε}
    (c : FsCall) (hsees : ∀ name ∈ c.sees, name = stageName C other)
    (hlock : c ≠ .tryLock ∧ c ≠ .unlock) :
    Disk.Ends I (fun _ => I) (FsM.io wrap c) fs :=
  Disk.ends_io (fun _ _ h => hI _ _ hfs (.of_stage hV hne hsees hlock h))
    fun _ _ h => hI _ _ hfs (.of_stage hV hne hsees hlock h)

end

theorem ends_lock (hV : C.VaultLaws) (h : AlikeFor C addr fs₀ fs) :
    Disk.Ends (AlikeFor C addr fs₀) (fun _ => Locked C addr fs₀)
      (lock : FsM (VaultError Addr) Unit) fs := by
  unfold lock
  refine Disk.Ends.bind (Q := fun _ => AlikeFor C addr fs₀) ?_ ?_
  · exact Disk.ends_io (fun _ _ hstep => h.trans (openLock_aside hV hstep))
      fun _ _ hstep => h.trans (openLock_aside hV hstep)
  · intro u fs' h'
    refine Disk.ends_io (c := .tryLock) (fun _ _ hstep => .of_tryLock h' hstep) fun _ _ hstep => ?_
    rw [hstep.error_eq (by simp) (by simp)]
    exact h'

variable [DecidableEq Addr]

/-- Listing the accounts answers only where none has two files. -/
theorem ends_accounts {I : Fs → Prop} (hfs : I fs) :
    Disk.Ends I (fun l fs' => I fs' ∧ listing C (names fs') = .ok l) (accounts C) fs := by
  intro faults
  rw [accounts_eq]
  dsimp only
  rcases faults.head?.join with - | fault
  · dsimp only
    rcases hl : listing C (names fs) with e | l
    · exact hfs
    · exact ⟨hfs, hl⟩
  · exact hfs

/-- Promoting another account's key, where the listing showed no file of it. -/
theorem ends_promote (hV : C.VaultLaws) (hne : addr ≠ other) (h : Locked C addr fs₀ fs)
    (habsent : ¬Present C fs other) (hs : Single C fs) (p : Bool) :
    Disk.Ends (Locked C addr fs₀) (fun _ => Locked C addr fs₀)
      (promote (stageName C other) (pathOf C other p) : FsM (VaultError Addr) Unit) fs := by
  -- Up to the rename, the stage alone is touched.
  have hstage : ∀ (c : FsCall) (fs : Fs), (∀ name ∈ c.sees, name = stageName C other) →
      c ≠ .tryLock ∧ c ≠ .unlock → Locked C addr fs₀ fs ∧ ¬Present C fs other ∧ Single C fs →
      Disk.Ends (Locked C addr fs₀) (fun _ fs' => Locked C addr fs₀ fs' ∧ ¬Present C fs' other ∧
        Single C fs') (FsM.io .io c : FsM (VaultError Addr) c.Value) fs := by
    rintro c fs hsees hlock ⟨h, habsent, hs⟩
    have hlocked : ∀ {r : Except IoError c.Value} {fs' : Fs}, fs.Step 0 c r fs' →
        Locked C addr fs₀ fs' :=
      fun hstep => ⟨h.free, h.alike.trans (.of_stage hV hne hsees hlock hstep)⟩
    refine Disk.ends_io (fun _ _ hstep => ⟨hlocked hstep, ?_, ?_⟩) fun _ _ hstep => hlocked hstep
    · exact mt (stage_present hV hsees hstep).mp habsent
    · unfold Single
      rw [stage_entries hV hsees hstep]
      exact hs
  unfold promote
  refine (hstage (.setMode (.staged (stageName C other)) 0o600) fs
    (by simp [FsCall.sees, Path.name]) (by simp) ⟨h, habsent, hs⟩).bind fun u fs₁ h₁ => ?_
  refine (hstage (.syncAll (.staged (stageName C other))) fs₁
    (by simp [FsCall.sees, FsCall.changes, Path.name]) (by simp) h₁).bind ?_
  rintro u fs₂ ⟨h₂, habsent₂, hs₂⟩
  refine Disk.Ends.bind (Q := fun _ => Locked C addr fs₀) ?_ ?_
  · refine Disk.ends_io (c := .rename (.staged (stageName C other)) (pathOf C other p))
      (fun _ fs₃ hstep => ⟨h₂.free, h₂.alike.trans ?_⟩) fun _ fs₃ hstep => ?_
    · refine .of_step hstep (by simp [OnlyStages]) (hstep.lock_eq (by simp) (by simp))
        (fun q => FsCall.not_mem_changes_rename ?_ ?_) (FsCall.not_mem_changes_rename ?_ ?_)
        (.inr ⟨hs₂, hs₂.rename hV habsent₂ hstep⟩)
      · exact fun heq => hne ((pathOf_inj hV).mp heq).1
      · exact pathOf_ne_stageName hV addr other q
      · exact (pathOf_ne_stageName hV other addr p).symm
      · exact fun heq => hne (stageName_injective hV heq)
    · rw [hstep.error_eq (by simp) (by simp)]
      exact h₂
  · intro u fs₃ h₃
    refine Disk.ends_quiet fun r fs₄ hstep => ⟨h₃.free, h₃.alike.trans ?_⟩
    exact .of_step_aside hV hstep (by simp [OnlyStages]) (hstep.lock_eq (by simp) (by simp))
      (by simp [FsCall.changes])

/-- Taking in another account's key. -/
theorem create_spares (hV : C.VaultLaws) {key : Ed25519SigningKey} (hne : addr ≠ C.addrOf key)
    (password : Option String) (seed : ℕ) (disk : Disk) :
    AlikeFor C addr disk.fs (disk.run (create C key password seed).run).2.fs := by
  suffices h : Disk.Ends (AlikeFor C addr disk.fs) (fun _ => AlikeFor C addr disk.fs)
      (create C key password seed) disk.fs from h.left
  have hI : ∀ fs fs', AlikeFor C addr disk.fs fs → AlikeFor C addr fs fs' →
      AlikeFor C addr disk.fs fs' := fun _ _ h h' => h.trans h'
  have hdrop : ∀ {fs fs' : Fs} {r : Except IoError Unit}, AlikeFor C addr disk.fs fs →
      fs.Step 0 (.removeDirAll (stageName C (C.addrOf key))) r fs' →
      AlikeFor C addr disk.fs fs' := fun h hstep =>
    h.trans (.of_stage hV hne (by simp [FsCall.sees, FsCall.changes]) (by simp) hstep)
  unfold create
  split
  · exact Disk.ends_throw (.refl disk.fs)
  dsimp only
  -- Up to the lock, only the stage of the other key is touched.
  refine (ends_stage hV hne hI (.refl disk.fs) .createDirAll (by simp [FsCall.sees, FsCall.changes])
    (by simp)).bind fun u fs₁ h₁ => ?_
  refine (ends_stage hV hne hI h₁ (.setMode .root 0o700) (by simp [FsCall.sees, Path.name])
    (by simp)).bind fun u fs₂ h₂ => ?_
  refine Disk.Ends.bind (Q := fun _ => AlikeFor C addr disk.fs)
    (Disk.ends_quiet fun r fs₃ hstep => hdrop h₂ hstep) fun u fs₃ h₃ => ?_
  refine (ends_stage hV hne hI h₃ (.createDir (stageName C (C.addrOf key)))
    (by simp [FsCall.sees, FsCall.changes]) (by simp)).bind fun u fs₄ h₄ => ?_
  refine Disk.Ends.dropping (E := AlikeFor C addr disk.fs) (Q := fun _ => AlikeFor C addr disk.fs)
    ?_ (fun _ _ _ _ h hstep => hdrop h hstep) fun _ _ _ h hstep => hdrop h hstep
  refine (ends_stage hV hne hI h₄ (.setMode (.top (stageName C (C.addrOf key))) 0o700)
    (by simp [FsCall.sees, Path.name]) (by simp)).bind fun u fs₅ h₅ => ?_
  refine (ends_stage hV hne hI h₅ (.write (.staged (stageName C (C.addrOf key)))
    (keyFile C key password seed)) (by simp [FsCall.sees, FsCall.changes, Path.name])
    (by simp)).bind fun u fs₆ h₆ => ?_
  -- Under it the key gets a file, if its account has none.
  refine (ends_lock hV h₆).bind fun u fs₇ h₇ => ?_
  refine Disk.Ends.dropping (E := Locked C addr disk.fs) (Q := fun _ => Locked C addr disk.fs)
    ?_ (fun _ _ _ _ h hstep => h.unlock hstep) fun _ _ _ h hstep => h.unlock hstep
  refine (ends_accounts h₇).bind fun l fs₈ h₈ => ?_
  obtain ⟨h₈, hl⟩ := h₈
  split
  · exact Disk.ends_throw h₈
  · next hany =>
    have habsent : ¬Present C fs₈ (C.addrOf key) := by
      rintro ⟨p, hp⟩
      refine hany (List.any_eq_true.mpr ⟨⟨C.addrOf key, p⟩, ?_, by simp⟩)
      exact (mem_listing hV hl).mpr (mem_names.mpr hp)
    refine (ends_promote hV hne h₈ habsent (single_iff.mpr ⟨l, hl⟩) _).bind fun u fs₉ h₉ => ?_
    exact Disk.ends_pure h₉

/-- Dropping another account from the vault. -/
theorem forget_spares (hV : C.VaultLaws) (hne : addr ≠ other) (disk : Disk) :
    AlikeFor C addr disk.fs (disk.run (forget C other).run).2.fs := by
  suffices h : Disk.Ends (AlikeFor C addr disk.fs) (fun _ => AlikeFor C addr disk.fs)
      (forget C other) disk.fs from h.left
  unfold forget
  refine (ends_accounts (AlikeFor.refl disk.fs)).bind fun l fs₁ h₁ => ?_
  obtain ⟨h₁, hl⟩ := h₁
  have hs : Single C disk.fs := h₁.listed.single.mp (single_iff.mpr ⟨l, hl⟩)
  split
  · next held hfind =>
    refine (ends_lock hV h₁).bind fun u fs₂ h₂ => ?_
    refine Disk.Ends.dropping (E := Locked C addr disk.fs) (Q := fun _ => Locked C addr disk.fs)
      ?_ (fun _ _ _ _ h hstep => h.unlock hstep) fun _ _ _ h hstep => h.unlock hstep
    have hs₂ : Single C fs₂ := h₂.alike.listed.single.mpr hs
    refine Disk.ends_io (c := .removeFile (pathOf C other held.protected_))
      (fun _ fs₃ hstep => ⟨h₂.free, h₂.alike.trans ?_⟩) fun _ fs₃ hstep => ?_
    · refine .of_step hstep (by simp [OnlyStages]) (hstep.lock_eq (by simp) (by simp))
        (fun q hname => ?_) (fun hname => ?_) (.inr ⟨hs₂, hs₂.removeFile hV hstep⟩)
      · have heq : pathOf C addr q = pathOf C other held.protected_ := by
          simpa [FsCall.changes] using hname
        exact hne ((pathOf_inj hV).mp heq).1
      · have heq : stageName C addr = pathOf C other held.protected_ := by
          simpa [FsCall.changes] using hname
        exact pathOf_ne_stageName hV other addr held.protected_ heq.symm
    · rw [hstep.error_eq (by simp) (by simp)]
      exact h₂
  · exact Disk.ends_throw h₁

end AccountLogUi.Vault
