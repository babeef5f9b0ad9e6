import AccountLogUi.Observed.Equiv.List
import AccountLogUi.Vault.Equiv.Alike

/-!
# Lists of observed accounts that agree on one

`ObservedAlike C addr` relates two directories whose lists of observed accounts agree on `addr`,
whatever else they list; where one cannot be read they are the same.  A change to the list that is
about `addr` answers the same in both and leaves them agreeing (`change_alike`), though it writes
two different documents; a change about another account leaves the list agreeing with what it was
(`change_spares`).
-/

namespace AccountLogUi.Observed

open Vault (AlikeFor OnlyStages accountOf)

variable {Addr : Type} {C : Crates Addr} {fs fs' fs'' : Fs} {addr : Addr}

/-! ### The calls that rewrite the list -/

/-- The calls that rewrite the list. -/
def Rewrites : FsCall → Prop
  | .write path _ | .syncAll path => path = .top stagedFile
  | .rename src dest => src = .top stagedFile ∧ dest = observedFile
  | .createDirAll | .setMode _ _ | .syncDir | .readToString _ => True
  | _ => False

theorem accountOf_observedFile (hV : C.VaultLaws) : accountOf C (.utf8 observedFile) = none := by
  rw [Option.eq_none_iff_forall_ne_some]
  intro account haccount
  have hname := (Vault.accountOf_eq_some hV).mp haccount
  exact Vault.pathOf_ne_observedFile hV account.addr account.protected_
    (OsString.utf8.inj hname).symm

theorem accountOf_stagedFile (hV : C.VaultLaws) : accountOf C (.utf8 stagedFile) = none := by
  rw [Option.eq_none_iff_forall_ne_some]
  intro account haccount
  have hname := (Vault.accountOf_eq_some hV).mp haccount
  exact Vault.pathOf_ne_stagedFile hV account.addr account.protected_
    (OsString.utf8.inj hname).symm

theorem Rewrites.changes {c : FsCall} (hc : Rewrites c) {name : List Char} (h : name ∈ c.changes) :
    name = observedFile ∨ name = stagedFile := by
  cases c with
  | write path content | syncAll path =>
    obtain rfl : path = .top stagedFile := hc
    exact .inr (by simpa [FsCall.changes, Path.name] using h)
  | rename src dest =>
    obtain ⟨rfl, rfl⟩ : src = .top stagedFile ∧ dest = observedFile := hc
    simpa [FsCall.changes, Path.name] using h
  | createDirAll | setMode path mode | syncDir | readToString name => cases h
  | _ => exact hc.elim

/-- Rewriting the list is nothing to the accounts. -/
theorem Rewrites.aside (hV : C.VaultLaws) {c : FsCall} (hc : Rewrites c)
    {r : Except IoError c.Value} (h : fs.Step 0 c r fs') : AlikeFor C addr fs fs' := by
  have hflat : ∀ name, c ≠ .createDir name ∧ c ≠ .removeDirAll name := by
    intro name
    constructor
    · rintro rfl
      exact hc
    · rintro rfl
      exact hc
  have hlock : fs'.lock = fs.lock := by
    refine h.lock_eq ?_ ?_
    · rintro rfl
      exact hc
    · rintro rfl
      exact hc
  refine .of_step_aside hV h (fun name hname => ?_) hlock fun name hname => ?_
  · exact absurd hname (not_or.mpr (hflat name))
  · rcases hc.changes hname with rfl | rfl
    · exact ⟨accountOf_observedFile hV, (Vault.stageName_ne_observedFile C addr).symm⟩
    · exact ⟨accountOf_stagedFile hV, (Vault.stageName_ne_stagedFile C addr).symm⟩

/-! ### Two lists rewritten -/

/-- Alike for the account, with both directories there and the same in the list's way. -/
structure Ready (C : Crates Addr) (addr : Addr) (fs fs' : Fs) : Prop extends
    AlikeFor C addr fs fs' where
  dir : fs.dir.isSome
  dir' : fs'.dir.isSome
  list : fs'.isDir observedFile = fs.isDir observedFile

/-- Ready, with a new list beside the old one in both. -/
structure Waiting (C : Crates Addr) (addr : Addr) (fs fs' : Fs) : Prop extends
    Ready C addr fs fs' where
  file : ∃ file, fs.node stagedFile = some (.file file)
  file' : ∃ file, fs'.node stagedFile = some (.file file)

/-- Whatever rewriting calls are made, one in each. -/
theorem Ready.step (hV : C.VaultLaws) (h : Ready C addr fs fs') (c c' : FsCall) (hc : Rewrites c)
    (hc' : Rewrites c') (fault : Option Fault) :
    Ready C addr (fs.exec 0 c fault).2 (fs'.exec 0 c' fault).2 := by
  have hstep := fs.exec_step 0 c fault
  have hstep' := fs'.exec_step 0 c' fault
  have hflat : ∀ {c : FsCall} {r : Except IoError c.Value} {fs fs' : Fs}, Rewrites c →
      fs.Step 0 c r fs' → fs'.isDir observedFile = fs.isDir observedFile := by
    intro c r fs fs' hc hstep
    refine hstep.isDir_eq ?_ ?_
    · rintro rfl
      exact hc
    · rintro rfl
      exact hc
  refine ⟨((hc.aside hV hstep).symm.trans h.toAlikeFor).trans (hc'.aside hV hstep'),
    hstep.edits.dir_isSome h.dir, hstep'.edits.dir_isSome h.dir', ?_⟩
  rw [hflat hc hstep, hflat hc' hstep', h.list]

theorem Ready.toAlike {ε : Type} {R : Fs → Fs → Prop} {p q : FsM ε Unit} {d d' : Disk}
    (h : Disk.Matches (Ready C addr) (Same R) p q d d') :
    Disk.Matches (AlikeFor C addr) (Same R) p q d d' :=
  h.weaken (fun _ _ h => h.toAlikeFor) fun _ _ h => h

/-- Making the directory. -/
theorem ready_createDirAll (hV : C.VaultLaws) (h : AlikeFor C addr fs fs')
    (hlist : fs'.isDir observedFile = fs.isDir observedFile) (fault : Option Fault) :
    Matched (AlikeFor C addr) (Same (Ready C addr)) (fs.exec 0 .createDirAll fault)
      (fs'.exec 0 .createDirAll fault) := by
  rcases fault with - | fault
  · have hstep := fs.exec_step 0 .createDirAll none
    have hstep' := fs'.exec_step 0 .createDirAll none
    have haside : AlikeFor C addr fs (fs.exec 0 .createDirAll none).2 :=
      Rewrites.aside hV (c := .createDirAll) trivial hstep
    have haside' : AlikeFor C addr fs' (fs'.exec 0 .createDirAll none).2 :=
      Rewrites.aside hV (c := .createDirAll) trivial hstep'
    have hway : (fs'.exec 0 .createDirAll none).2.isDir observedFile =
        (fs.exec 0 .createDirAll none).2.isDir observedFile := by
      rw [hstep.isDir_eq (by simp) (by simp), hstep'.isDir_eq (by simp) (by simp), hlist]
    exact .ok ⟨rfl, (haside.symm.trans h).trans haside', rfl, rfl, hway⟩
  · exact .error h

theorem ready_setMode (hV : C.VaultLaws) (h : Ready C addr fs fs') (mode : ℕ)
    (fault : Option Fault) :
    Matched (Ready C addr) (Same (Ready C addr)) (fs.exec 0 (.setMode .root mode) fault)
      (fs'.exec 0 (.setMode .root mode) fault) := by
  have hready := h.step hV (.setMode .root mode) (.setMode .root mode) trivial trivial fault
  refine .same ?_ (fun _ _ => hready) fun _ _ => hready
  rcases fault with - | fault
  · simp [Fs.exec, Fs.perform, Fs.has, h.dir, h.dir']
  · rfl

/-- Writing a list beside the old one, whichever list it is. -/
theorem ready_write (hV : C.VaultLaws) (h : Ready C addr fs fs') (content content' : Content)
    (fault : Option Fault) :
    Matched (Ready C addr) (Same (Waiting C addr))
      (fs.exec 0 (.write (.top stagedFile) content) fault)
      (fs'.exec 0 (.write (.top stagedFile) content') fault) := by
  have hready := h.step hV (.write (.top stagedFile) content) (.write (.top stagedFile) content')
    rfl rfl fault
  have hanswer : (fs'.exec 0 (.write (.top stagedFile) content') fault).1 =
      (fs.exec 0 (.write (.top stagedFile) content) fault).1 := by
    rcases fault with - | fault
    · have hwritten : ∀ (fs : Fs) (content : Content), fs.dir.isSome →
          (fs.exec 0 (.write (.top stagedFile) content) none).1 =
            if fs.isDir stagedFile then .error (.other 21) else .ok () := by
        intro fs content hdir
        obtain ⟨dir, hfs⟩ := Option.isSome_iff_exists.mp hdir
        dsimp only [Fs.exec, Fs.perform, Fs.writeFile]
        rcases hnode : fs.node stagedFile with - | file | staged <;> simp [Fs.isDir, hnode, hfs]
      rw [hwritten fs' content' h.dir', hwritten fs content h.dir, h.newList]
    · rfl
  have hstep := fs.exec_step 0 (.write (.top stagedFile) content) fault
  have hstep' := fs'.exec_step 0 (.write (.top stagedFile) content') fault
  rw [hanswer] at hstep'
  refine .same hanswer (fun _ _ => hready) fun v hok => ⟨hready, ?_, ?_⟩
  · rw [hok] at hstep
    exact ⟨_, hstep.write_top_ok⟩
  · rw [hok] at hstep'
    exact ⟨_, hstep'.write_top_ok⟩

theorem waiting_setMode (h : Waiting C addr fs fs') (mode : ℕ)
    (fault : Option Fault) :
    Matched (Ready C addr) (Same (Waiting C addr))
      (fs.exec 0 (.setMode (.top stagedFile) mode) fault)
      (fs'.exec 0 (.setMode (.top stagedFile) mode) fault) := by
  obtain ⟨file, hnode⟩ := h.file
  obtain ⟨file', hnode'⟩ := h.file'
  have hexec : ∀ {fs : Fs} {file : File}, fs.node stagedFile = some (.file file) →
      fs.exec 0 (.setMode (.top stagedFile) mode) none = (.ok (), fs) := by
    intro fs file hnode
    simp [Fs.exec, Fs.perform, Fs.has, hnode]
  rcases fault with - | fault
  · rw [hexec hnode, hexec hnode']
    exact .ok ⟨rfl, h⟩
  · exact .error h.toReady

theorem waiting_syncAll (hV : C.VaultLaws) (h : Waiting C addr fs fs') (fault : Option Fault) :
    Matched (Ready C addr) (Same (Waiting C addr)) (fs.exec 0 (.syncAll (.top stagedFile)) fault)
      (fs'.exec 0 (.syncAll (.top stagedFile)) fault) := by
  obtain ⟨file, hnode⟩ := h.file
  obtain ⟨file', hnode'⟩ := h.file'
  have hready := h.toReady.step hV (.syncAll (.top stagedFile)) (.syncAll (.top stagedFile))
    rfl rfl fault
  have hexec : ∀ {fs : Fs} {file : File}, fs.node stagedFile = some (.file file) →
      fs.exec 0 (.syncAll (.top stagedFile)) none =
        (.ok (), fs.insert stagedFile (.file { file with synced := true })) := by
    intro fs file hnode
    simp [Fs.exec, Fs.perform, Fs.fileAt, Fs.putFile, Fs.file_eq hnode]
  rcases fault with - | fault
  · rw [hexec hnode, hexec hnode'] at hready ⊢
    exact .ok ⟨rfl, hready, ⟨_, Fs.node_insert_self h.dir _ _⟩, ⟨_, Fs.node_insert_self h.dir' _ _⟩⟩
  · exact .error h.toReady

theorem waiting_rename (hV : C.VaultLaws) (h : Waiting C addr fs fs') (fault : Option Fault) :
    Matched (Ready C addr) (Same (Ready C addr))
      (fs.exec 0 (.rename (.top stagedFile) observedFile) fault)
      (fs'.exec 0 (.rename (.top stagedFile) observedFile) fault) := by
  obtain ⟨file, hnode⟩ := h.file
  obtain ⟨file', hnode'⟩ := h.file'
  have hready := h.toReady.step hV (.rename (.top stagedFile) observedFile)
    (.rename (.top stagedFile) observedFile) ⟨rfl, rfl⟩ ⟨rfl, rfl⟩ fault
  refine .same ?_ (fun _ _ => hready) fun _ _ => hready
  rcases fault with - | fault
  · have hrenamed : ∀ {fs : Fs} {file : File}, fs.node stagedFile = some (.file file) →
        (fs.exec 0 (.rename (.top stagedFile) observedFile) none).1 =
          if fs.isDir observedFile then .error (.other 21) else .ok () := by
      intro fs file hnode
      dsimp only [Fs.exec, Fs.perform, Fs.renameFile, Fs.fileAt]
      rw [Fs.file_eq hnode]
      rcases hdest : fs.node observedFile with - | old | staged <;> simp [Fs.isDir, hdest]
    rw [hrenamed hnode, hrenamed hnode', h.list]
  · rfl

/-- Two different lists are written to the same effect on the account. -/
theorem write_alike (hV : C.VaultLaws) {d d' : Disk} (h : d.Related (AlikeFor C addr) d')
    (hlist : d'.fs.isDir observedFile = d.fs.isDir observedFile) (observed observed' : List Addr) :
    Disk.Matches (AlikeFor C addr) (Same (AlikeFor C addr)) (write C observed)
      (write C observed') d d' := by
  unfold write
  refine Disk.Matches.bind (Disk.matches_io h.faults fun fault =>
    ready_createDirAll hV h.fs hlist fault) ?_
  rintro u - e e' ⟨⟨rfl, hR⟩, hfaults⟩
  refine Ready.toAlike ?_
  refine Disk.Matches.bind (Disk.matches_io hfaults fun fault => ready_setMode hV hR _ fault) ?_
  rintro u - e e' ⟨⟨rfl, hR⟩, hfaults⟩
  refine Disk.Matches.bind (Disk.matches_io hfaults fun fault => ready_write hV hR _ _ fault) ?_
  rintro u - e e' ⟨⟨rfl, hR⟩, hfaults⟩
  refine Disk.Matches.bind (Disk.matches_io hfaults fun fault => waiting_setMode hR _ fault) ?_
  rintro u - e e' ⟨⟨rfl, hR⟩, hfaults⟩
  refine Disk.Matches.bind (Disk.matches_io hfaults fun fault => waiting_syncAll hV hR fault) ?_
  rintro u - e e' ⟨⟨rfl, hR⟩, hfaults⟩
  refine Disk.Matches.bind (Disk.matches_io hfaults fun fault => waiting_rename hV hR fault) ?_
  rintro u - e e' ⟨⟨rfl, hR⟩, hfaults⟩
  refine Disk.matches_quiet hfaults fun fault => ?_
  have hready := hR.step hV .syncDir .syncDir trivial trivial fault
  have hanswer : (e'.fs.exec 0 .syncDir fault).1 = (e.fs.exec 0 .syncDir fault).1 := by
    rcases fault with - | fault <;> rfl
  exact (Matched.same (E := Ready C addr) (R := Ready C addr) hanswer (fun _ _ => hready)
    fun _ _ => hready).mono (fun _ _ h => ⟨rfl, h.toAlikeFor⟩) fun _ _ _ _ h =>
      ⟨rfl, h.2.toAlikeFor⟩

/-! ### The relation -/

variable [DecidableEq Addr]

/-- The lists agree on one account. -/
def ObservedAlike (C : Crates Addr) (addr : Addr) (fs fs' : Fs) : Prop :=
  fs'.node observedFile = fs.node observedFile ∨ ∃ observed observed',
    Lists C fs observed ∧ Lists C fs' observed' ∧ (addr ∈ observed' ↔ addr ∈ observed)

/-- What can be read is no directory. -/
theorem Lists.isDir {observed : List Addr} (h : Lists C fs observed) :
    fs.isDir observedFile = false := by
  unfold Fs.isDir
  rcases h with ⟨hnode, -⟩ | ⟨text, synced, hnode, -⟩ <;> rw [hnode]

namespace ObservedAlike

theorem refl (fs : Fs) : ObservedAlike C addr fs fs := .inl rfl

theorem symm (h : ObservedAlike C addr fs fs') : ObservedAlike C addr fs' fs := by
  rcases h with heq | ⟨observed, observed', hlists, hlists', hmem⟩
  · exact .inl heq.symm
  · exact .inr ⟨observed', observed, hlists', hlists, hmem.symm⟩

theorem trans (h : ObservedAlike C addr fs fs') (h' : ObservedAlike C addr fs' fs'') :
    ObservedAlike C addr fs fs'' := by
  rcases h with heq | ⟨observed, observed', hlists, hlists', hmem⟩
  · rcases h' with heq' | ⟨observed', observed'', hlists', hlists'', hmem'⟩
    · exact .inl (heq'.trans heq)
    · exact .inr ⟨observed', observed'', hlists'.congr heq.symm, hlists'', hmem'⟩
  · rcases h' with heq' | ⟨before, observed'', hbefore, hlists'', hmem'⟩
    · exact .inr ⟨observed, observed', hlists, hlists'.congr heq', hmem⟩
    · obtain rfl := hlists'.unique hbefore
      exact .inr ⟨observed, observed'', hlists, hlists'', hmem'.trans hmem⟩

theorem isDir (h : ObservedAlike C addr fs fs') :
    fs'.isDir observedFile = fs.isDir observedFile := by
  rcases h with heq | ⟨observed, observed', hlists, hlists', -⟩
  · exact Fs.isDir_congr heq
  · rw [hlists.isDir, hlists'.isDir]

end ObservedAlike

/-! ### Reading the list -/

/-- The list is read in one call. -/
theorem run_list (disk : Disk) : disk.run (list C).run =
    Disk.run ⟨(disk.fs.exec 0 (.readToString observedFile) disk.faults.head?.join).2,
      disk.faults.tail⟩ (match (disk.fs.exec 0 (.readToString observedFile)
        disk.faults.head?.join).1 with
      | .error .notFound => .ret (.ok [])
      | .error e => .ret (.error (.io e))
      | .ok text => .ret (ofText C text)) := rfl

/-- What reading answers, unless it is failed, where the list can be read. -/
theorem Lists.run {disk : Disk} {observed : List Addr} (h : Lists C disk.fs observed) :
    disk.run (list C).run = (match disk.faults.head?.join with
      | some fault => .error (.io (.other fault.code))
      | none => .ok observed, ⟨disk.fs, disk.faults.tail⟩) := by
  rw [run_list]
  rcases disk.faults.head?.join with - | fault
  · rcases h with ⟨hnone, rfl⟩ | ⟨text, synced, hnode, htext⟩
    · have hread : disk.fs.exec 0 (.readToString observedFile) none =
          (.error .notFound, disk.fs) := by
        simp [Fs.exec, Fs.perform, hnone]
      rw [hread]
      rfl
    · have hread : disk.fs.exec 0 (.readToString observedFile) none = (.ok text, disk.fs) := by
        simp [Fs.exec, Fs.perform, hnode]
      rw [hread, ← htext]
      rfl
  · rfl

/-- Lists that agree on an account are both read, with or without it, or neither is. -/
theorem list_alike {R : Fs → Fs → Prop} {d d' : Disk} (h : d.Related R d')
    (hobserved : ObservedAlike C addr d.fs d'.fs) :
    Disk.Matches R (fun l l' s t => R s t ∧ s = d.fs ∧ t = d'.fs ∧ (addr ∈ l' ↔ addr ∈ l))
      (list C) (list C) d d' := by
  rcases hobserved with hnode | ⟨observed, observed', hlists, hlists', hmem⟩
  · have hfs : R d.fs d'.fs ∧ d.fs = d.fs ∧ d'.fs = d'.fs := ⟨h.fs, rfl, rfl⟩
    refine Disk.matches_call (P := Same fun s t => R s t ∧ s = d.fs ∧ t = d'.fs)
      (D := fun s t => R s t ∧ s = d.fs ∧ t = d'.fs) h.faults
      (fun fault => Disk.exec_readToString hfs hnode fault) ?_ ?_
    · rintro text - e e' ⟨⟨rfl, hR, hs, ht⟩, hfaults⟩
      exact Disk.matches_ret ⟨hR, hfaults⟩ fun l _ => ⟨⟨hR, hs, ht, Iff.rfl⟩, hfaults⟩
    · rintro x e e' ⟨⟨hR, hs, ht⟩, hfaults⟩
      cases x with
      | notFound => exact .ok ⟨⟨hR, hs, ht, Iff.rfl⟩, hfaults⟩
      | _ => exact .error ⟨hR, hfaults⟩
  · unfold Disk.Matches
    rw [hlists.run, hlists'.run, h.faults]
    rcases d.faults.head?.join with - | fault
    · exact .ok ⟨⟨h.fs, rfl, rfl, hmem⟩, rfl⟩
    · exact .error ⟨h.fs, rfl⟩

/-! ### Changes to the list -/

/-- A list with a change about the account made to it names it or not as the change says. -/
theorem Change.mem_apply (change : Change Addr) (observed observed' : List Addr) :
    change.addr ∈ change.apply observed ↔ change.addr ∈ change.apply observed' := by
  cases change with
  | add addr => exact iff_of_true (by simp [apply, Change.addr]) (by simp [apply, Change.addr])
  | remove addr => exact iff_of_false (by simp [apply, Change.addr]) (by simp [apply, Change.addr])

/-- A change is nothing to the other accounts. -/
theorem Change.mem_apply_ne (change : Change Addr) (hne : addr ≠ change.addr)
    (observed : List Addr) : addr ∈ change.apply observed ↔ addr ∈ observed := by
  cases change with
  | add addr' =>
    show addr ∈ observed ++ [addr'] ↔ _
    rw [List.mem_append, List.mem_singleton]
    exact ⟨fun h => h.resolve_right hne, .inl⟩
  | remove addr' =>
    show addr ∈ observed.filter (· ≠ addr') ↔ _
    rw [List.mem_filter, decide_eq_true_iff]
    exact ⟨And.left, fun h => ⟨h, hne⟩⟩

theorem Change.needed_congr (change : Change Addr) {observed observed' : List Addr}
    (h : change.addr ∈ observed' ↔ change.addr ∈ observed) :
    change.needed observed' = change.needed observed := by
  cases change with
  | add addr =>
    have hcontains : observed'.contains addr = observed.contains addr := by
      rw [Bool.eq_iff_iff, List.contains_iff_mem, List.contains_iff_mem]
      exact h
    exact congrArg (!·) hcontains
  | remove addr =>
    show observed'.contains addr = observed.contains addr
    rw [Bool.eq_iff_iff, List.contains_iff_mem, List.contains_iff_mem]
    exact h

/-- A change that fails, or was not needed, leaves the list. -/
theorem change_left (change : Change Addr) (disk : Disk)
    (h : (disk.run (change.body C).run).1 ≠ .ok true) :
    (disk.run (change.body C).run).2.fs.node observedFile = disk.fs.node observedFile := by
  obtain ⟨-, hres⟩ := change_run (C := C) change disk
  generalize (disk.run (change.body C).run).1 = r at h hres
  rcases r with e | _ | _
  · exact hres
  · exact hres.2
  · exact absurd rfl h

/-- A change about the account, to lists that agree on it. -/
theorem change_alike (hV : C.VaultLaws) (change : Change Addr) {d d' : Disk}
    (h : d.Related (AlikeFor C change.addr) d')
    (hobserved : ObservedAlike C change.addr d.fs d'.fs) :
    Disk.Matches (fun s t => AlikeFor C change.addr s t ∧ ObservedAlike C change.addr s t)
      (Same fun s t => AlikeFor C change.addr s t ∧ ObservedAlike C change.addr s t)
      (change.body C) (change.body C) d d' := by
  have hanswers : Disk.Matches (AlikeFor C change.addr) (Same (AlikeFor C change.addr))
      (change.body C) (change.body C) d d' := by
    rw [Change.body_eq]
    refine (list_alike h hobserved).bind ?_
    rintro observed observed' e e' ⟨⟨hR, hs, ht, hmem⟩, hfaults⟩
    rw [change.needed_congr hmem]
    split
    · have hlist : e'.fs.isDir observedFile = e.fs.isDir observedFile := by
        rw [hs, ht, hobserved.isDir]
      refine (write_alike hV ⟨hR, hfaults⟩ hlist _ _).bind ?_
      rintro u - e e' ⟨⟨rfl, hR⟩, hfaults⟩
      exact Disk.matches_pure ⟨⟨rfl, hR⟩, hfaults⟩
    · exact Disk.matches_pure ⟨⟨rfl, hR⟩, hfaults⟩
  -- What they list afterwards follows from what each lists.
  have hlists : ObservedAlike C change.addr (d.run (change.body C).run).2.fs
      (d'.run (change.body C).run).2.fs := by
    have hanswer : (d'.run (change.body C).run).1 = (d.run (change.body C).run).1 :=
      hanswers.answer_eq
    by_cases hok : (d.run (change.body C).run).1 = .ok true
    · obtain ⟨before, after, -, hafter, -, hmem⟩ := lists_changed hV hok
      obtain ⟨before', after', -, hafter', -, hmem'⟩ := lists_changed hV (hanswer.trans hok)
      refine .inr ⟨after, after', hafter, hafter', ?_⟩
      rw [hmem, hmem']
      exact change.mem_apply _ _
    · have hleft := change_left change d hok
      have hleft' := change_left change d' (by rwa [hanswer])
      exact (ObservedAlike.trans (.inl hleft.symm) hobserved).trans (.inl hleft')
  refine (hanswers.also (R := fun s t => ObservedAlike C change.addr s.fs t.fs) hlists).mono ?_ ?_
  · exact fun s t hst => ⟨⟨hst.1.fs, hst.2⟩, hst.1.faults⟩
  · exact fun a b s t hst => ⟨⟨hst.1.fs.1, hst.1.fs.2, hst.2⟩, hst.1.faults⟩

/-- A change about another account. -/
theorem change_spares (hV : C.VaultLaws) (change : Change Addr) (hne : addr ≠ change.addr)
    (disk : Disk) : AlikeFor C addr disk.fs (disk.run (change.body C).run).2.fs ∧
      ObservedAlike C addr disk.fs (disk.run (change.body C).run).2.fs := by
  constructor
  · have hrewrites : ∀ {g : Rewriting Addr} {c : FsCall}, Rewriting.allowed C g c → Rewrites c := by
      intro g c hallowed
      cases c with
      | write path content => exact hallowed.1
      | syncAll path => exact hallowed
      | rename src dest => exact ⟨hallowed.1, hallowed.2.1⟩
      | createDirAll | setMode path mode | syncDir | readToString name => trivial
      | _ => exact hallowed
    obtain ⟨g, halike, -⟩ := Disk.run_keeps (J := fun fs _ => AlikeFor C addr disk.fs fs)
      (fun fs g c r fs' hJ hallowed hstep => hJ.trans ((hrewrites hallowed).aside hV hstep))
      (Change.keeps change) (.refl disk.fs)
    exact halike
  · by_cases hok : (disk.run (change.body C).run).1 = .ok true
    · obtain ⟨before, after, hbefore, hafter, -, hmem⟩ := lists_changed hV hok
      refine .inr ⟨before, after, hbefore, hafter, ?_⟩
      rw [hmem]
      exact change.mem_apply_ne hne before
    · exact .inl (change_left change disk hok)

end AccountLogUi.Observed
