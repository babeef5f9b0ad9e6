import AccountLogUi.Fs.Equiv.Answers
import AccountLogUi.Vault.Equiv.Open
import AccountLogUi.Vault.Equiv.Tidy

/-!
# When the vault takes a key in

`Takes` says of a directory, and of the calls that are to fail, what it takes for a create to
answer: nothing in its way, the account not held yet, and no fault where a failure is passed on.
`create_answers_iff` says that this is all there is to it, and that a create that answers made
fifteen calls.
-/

namespace AccountLogUi.Vault

variable {Addr : Type} {C : Crates Addr} (disk : Disk) (n : ℕ) {fs fs' : Fs}

open Disk (Answers answers_bind answers_io not_answers_io answers_quiet answers_dropping)

/-! ### The parts of a create -/

theorem Clears.of_created {stage : List Char} {fault : Option Fault} {v : Unit}
    (h : (fs.exec 0 (.removeDirAll stage) fault).2.perform 0 (.createDir stage) = (.ok v, fs')) :
    Clears fs stage fault := by
  rcases hnode : fs.node stage with - | file | d
  · exact .inl hnode
  · -- A file of that name stays where it is.
    have hleft : (fs.exec 0 (.removeDirAll stage) fault).2 = fs := by
      cases fault with
      | none => simp [Fs.exec, Fs.perform, hnode]
      | some fault => cases hleaves : fault.leaves <;> simp [Fs.exec, Fs.spoil, hnode, hleaves]
    rw [hleft] at h
    cases hdir : fs.dir <;> simp [Fs.perform, hdir, hnode] at h
  · cases fault with
    | none => exact .inr ⟨Fs.isDir_eq_true.mpr ⟨d, hnode⟩, rfl⟩
    | some fault =>
      -- The directory is there still, whatever was taken from it.
      have hleft : ∃ d', (fs.exec 0 (.removeDirAll stage) (some fault)).2.node stage =
          some (.dir d') := by
        cases hleaves : fault.leaves with
        | none => exact ⟨d, by simp [Fs.exec, Fs.spoil, hnode, hleaves]⟩
        | some content =>
          refine ⟨none, ?_⟩
          simpa [Fs.exec, Fs.spoil, hnode, hleaves] using
            Fs.node_insert_self (Fs.dir_isSome_of_node hnode) stage (.dir none)
      obtain ⟨d', hleft⟩ := hleft
      generalize (fs.exec 0 (.removeDirAll stage) (some fault)).2 = fs₁ at h hleft
      cases hdir : fs₁.dir <;> simp [Fs.perform, hdir, hleft] at h

theorem Clears.congr {stage : List Char} {fault : Option Fault} (h : Clears fs stage fault)
    (hnode : fs'.node stage = fs.node stage) : Clears fs' stage fault := by
  unfold Clears
  rw [Fs.isDir_congr hnode, hnode]
  exact h

/-- The lock is taken where its file can be opened and no other process holds it. -/
theorem answers_lock {Q : Unit → Disk → Prop} (hdir : fs.dir.isSome) : ∃ fs',
    (∀ name, name ≠ lockFile → fs'.node name = fs.node name) ∧ fs'.dir.isSome ∧
      (Answers Q (lock : FsM (VaultError Addr) Unit) (disk.after n fs) ↔
        (fs.isDir lockFile = false ∧ fs.lock = none) ∧
          disk.Calm n 2 ∧ Q () (disk.after (n + 2) fs')) := by
  unfold lock
  by_cases hlock : fs.isDir lockFile = false
  · obtain ⟨fs₁, hopen, hdir₁, hlock₁, hnode₁⟩ := openLock_performs hlock hdir
    refine ⟨{ fs₁ with lock := some 0 }, hnode₁, hdir₁, ?_⟩
    rw [answers_bind, answers_io (by simp) hopen, Disk.calm_add 1 1, Disk.calm_one, Disk.calm_one]
    by_cases hfree : fs.lock = none
    · rw [answers_io (by simp) (tryLock_performs (hlock₁.trans hfree))]
      constructor
      · rintro ⟨hopened, htaken, hQ⟩
        exact ⟨⟨hlock, hfree⟩, ⟨hopened, htaken⟩, hQ⟩
      · rintro ⟨-, ⟨hopened, htaken⟩, hQ⟩
        exact ⟨hopened, htaken, hQ⟩
    · have htaken : (fs₁.perform 0 .tryLock).1 = .error .wouldBlock := by
        obtain ⟨pid, hpid⟩ := Option.ne_none_iff_exists'.mp hfree
        simp [Fs.perform, hlock₁, hpid]
      exact iff_of_false (fun h => not_answers_io htaken h.2) fun h => hfree h.1.2
  · refine ⟨fs, fun _ _ => rfl, hdir, ?_⟩
    obtain ⟨dir, hsome⟩ := Option.isSome_iff_exists.mp hdir
    obtain ⟨d, hnode⟩ := Fs.isDir_eq_true.mp ((Bool.not_eq_false _).mp hlock)
    have hopen : (fs.perform 0 (.openLock lockFile)).1 = .error (.other 21) := by
      simp [Fs.perform, hsome, hnode]
    rw [answers_bind]
    exact iff_of_false (not_answers_io hopen) fun h => hlock h.1.1

/-- A file staged is promoted, unless a call before the last fails. -/
theorem answers_promote {stage dest : List Char} {file : File}
    (hstage : fs.staged stage = some file) (hdest : fs.isDir dest = false)
    {Q : Unit → Disk → Prop} : ∃ fs',
      Answers Q (promote stage dest : FsM (VaultError Addr) Unit) (disk.after n fs) ↔
        disk.Calm n 3 ∧ Q () (disk.after (n + 4) fs') := by
  obtain ⟨fs₁, fs₂, hmode, hsync, hrename⟩ := promote_performs hstage hdest
  refine ⟨(fs₂.exec 0 .syncDir (disk.fault (n + 3))).2, ?_⟩
  unfold promote
  rw [answers_bind, answers_io (by simp) hmode, answers_bind, answers_io (by simp) hsync,
    answers_bind, answers_io (by simp) hrename, answers_quiet, Disk.calm_add 1 2,
    Disk.calm_add 1 1, Disk.calm_one, Disk.calm_one, Disk.calm_one, and_assoc, and_assoc]

variable [DecidableEq Addr]

/-- The accounts are listed where no one's are there twice. -/
theorem answers_accounts (hV : C.VaultLaws) {Q : List (StoredAccount Addr) → Disk → Prop}
    (hdir : fs.dir.isSome) : ∃ l,
      ((∀ addr, ¬Doubled C fs addr) → ∀ account : StoredAccount Addr, account ∈ l ↔
        (fs.node (pathOf C account.addr account.protected_)).isSome) ∧
      (Answers Q (accounts C) (disk.after n fs) ↔ (∀ addr, ¬Doubled C fs addr) ∧
        disk.fault n = none ∧ Q l (disk.after (n + 1) fs)) := by
  by_cases hsingle : ∀ addr, ¬Doubled C fs addr
  · obtain ⟨l, hl, -, -, hmem⟩ := accounts_alone hV hsingle 0
    refine ⟨l, fun _ => hmem, ?_⟩
    obtain ⟨dir, hsome⟩ := Option.isSome_iff_exists.mp hdir
    have hread : fs.perform 0 .readDir = (.ok dir.keys, fs) := by simp [Fs.perform, hsome]
    have hlisting : listing C dir.keys = .ok l := by
      unfold accounts FsM.alone at hl
      rw [ExceptT.run_mk, Prog.run_call, hread] at hl
      exact congrArg Prod.fst hl
    have hrun : (disk.after n fs).run (accounts C).run =
        (_, ((disk.after n fs).exec .readDir).2) :=
      Prod.ext (accounts_run_eq _) (accounts_run_disk _)
    rw [Disk.exec_after] at hrun
    rcases hfault : disk.fault n with - | fault
    · have hexec : fs.exec 0 .readDir none = (.ok dir.keys, fs) := hread
      rw [hfault, hexec] at hrun
      dsimp only at hrun
      rw [hlisting] at hrun
      rw [Disk.answers_of_run hrun]
      tauto
    · rw [hfault] at hrun
      exact iff_of_false (Disk.not_answers_of_run hrun) fun h => by cases h.2.1
  · refine ⟨[], fun h => absurd h hsingle, ?_⟩
    refine iff_of_false ?_ fun h => hsingle h.1
    rintro ⟨l, disk', hrun, -⟩
    have hlisted : ((disk.after n fs).run (accounts C).run).1 = .ok l := by rw [hrun]
    exact hsingle (not_doubled_of_accounts_run hV hlisted)

/-! ### A create -/

/-- Nothing keeps the vault from taking in a key of `addr`. -/
structure Takes (C : Crates Addr) (disk : Disk) (addr : Addr) : Prop where
  /-- The directory is made and its mode set. -/
  dir : disk.Calm 0 2
  stage : Clears disk.fs (stageName C addr) (disk.fault 2)
  /-- From making the stage to the rename, nothing fails. -/
  calls : disk.Calm 3 9
  lock : disk.fs.isDir lockFile = false
  free : disk.fs.lock = none
  single : ∀ addr, ¬Doubled C disk.fs addr
  absent : ¬Present C disk.fs addr

/-- What comes after the lock was taken. -/
theorem answers_createLocked (hV : C.VaultLaws) {Q : Addr → Disk → Prop} (hdir : fs.dir.isSome)
    {key : Ed25519SigningKey} {file : File}
    (hstage : fs.staged (stageName C (C.addrOf key)) = some file) (password : Option String) :
    ∃ fs', Answers Q (createLocked C key password) (disk.after n fs) ↔
      ((∀ addr, ¬Doubled C fs addr) ∧ ¬Present C fs (C.addrOf key)) ∧
        disk.Calm n 4 ∧ Q (C.addrOf key) (disk.after (n + 5) fs') := by
  unfold createLocked
  obtain ⟨l, hmem, haccounts⟩ := answers_accounts disk n hV hdir
  rw [answers_bind, haccounts]
  -- A directory with both spellings of one account is not listed at all.
  by_cases hsingle : ∀ addr, ¬Doubled C fs addr
  swap
  · exact ⟨fs, iff_of_false (fun h => hsingle h.1) fun h => hsingle h.1.1⟩
  have hany : l.any (·.addr = C.addrOf key) = true ↔ Present C fs (C.addrOf key) := by
    rw [List.any_eq_true]
    constructor
    · rintro ⟨account, hheld, haddr⟩
      rw [← of_decide_eq_true haddr]
      exact ⟨account.protected_, (hmem hsingle account).mp hheld⟩
    · rintro ⟨protected_, hnode⟩
      exact ⟨⟨C.addrOf key, protected_⟩, (hmem hsingle _).mpr hnode, decide_eq_true rfl⟩
  by_cases hpresent : Present C fs (C.addrOf key)
  · refine ⟨fs, iff_of_false ?_ fun h => h.1.2 hpresent⟩
    rintro ⟨-, -, h⟩
    rw [if_pos (hany.mpr hpresent), answers_bind] at h
    exact Disk.not_answers_throw _ h
  · have hdest : fs.isDir (pathOf C (C.addrOf key) password.isSome) = false := by
      by_contra hdest
      obtain ⟨d, hnode⟩ := Fs.isDir_eq_true.mp ((Bool.not_eq_false _).mp hdest)
      exact hpresent ⟨_, by rw [hnode]; rfl⟩
    obtain ⟨fs', hpromote⟩ := answers_promote disk (n + 1) hstage hdest
    refine ⟨fs', ?_⟩
    rw [if_neg fun h => hpresent (hany.mp h), answers_bind, hpromote, Disk.answers_pure,
      Disk.calm_add 1 3, Disk.calm_one]
    constructor
    · rintro ⟨-, hlist, hcalls, hQ⟩
      exact ⟨⟨hsingle, hpresent⟩, ⟨hlist, hcalls⟩, hQ⟩
    · rintro ⟨-, ⟨hlist, hcalls⟩, hQ⟩
      exact ⟨hsingle, hlist, hcalls, hQ⟩

/-- What comes after the directory was found or made, and the stage cleared. -/
theorem answers_staged (hV : C.VaultLaws) {Q : Addr → Disk → Prop} {key : Ed25519SigningKey}
    (hstage : fs.node (stageName C (C.addrOf key)) = some (.dir none)) (password : Option String)
    (content : Content) : ∃ fs', Answers Q (do
        let _ ← FsM.io .io (.setMode (.top (stageName C (C.addrOf key))) 0o700)
        let _ ← FsM.io .io (.write (.staged (stageName C (C.addrOf key))) content)
        lock
        FsM.dropping .unlock (createLocked C key password)) (disk.after n fs) ↔
      (fs.isDir lockFile = false ∧ fs.lock = none ∧ (∀ addr, ¬Doubled C fs addr) ∧
        ¬Present C fs (C.addrOf key)) ∧ disk.Calm n 8 ∧
          Q (C.addrOf key) (disk.after (n + 10) fs') := by
  obtain ⟨stage, hname⟩ : ∃ stage, stage = stageName C (C.addrOf key) := ⟨_, rfl⟩
  rw [← hname] at hstage ⊢
  have hmode : fs.perform 0 (.setMode (.top stage) 0o700) = (.ok (), fs) := by
    simp [Fs.perform, Fs.has, hstage]
  obtain ⟨fs₁, hfs₁⟩ : ∃ fs₁, fs₁ = fs.insert stage (.dir (some ⟨content, false⟩)) := ⟨_, rfl⟩
  have hwrite : fs.perform 0 (.write (.staged stage) content) = (.ok (), fs₁) := by
    simp [Fs.perform, Fs.writeFile, Fs.putFile, hstage, hfs₁]
  have hnode₁ : ∀ name, name ≠ stage → fs₁.node name = fs.node name := by
    intro name hne
    rw [hfs₁, Fs.node_insert_ne fs hne]
  have hstage₁ : fs₁.node stage = some (.dir (some ⟨content, false⟩)) := by
    rw [hfs₁]
    exact Fs.node_insert_self (Fs.dir_isSome_of_node hstage) _ _
  have hlock₁ : fs₁.isDir lockFile = fs.isDir lockFile :=
    Fs.isDir_congr (hnode₁ _ (by rw [hname]; exact (stageName_ne_lockFile C _).symm))
  have hfree₁ : fs₁.lock = fs.lock := by rw [hfs₁, Fs.lock_insert]
  -- The stage holds the file, and the lock is next.
  obtain ⟨fs₂, hnode₂, hdir₂, hlock⟩ := answers_lock disk (n + 2)
    (Q := fun _ disk' => Answers Q (FsM.dropping .unlock (createLocked C key password)) disk')
    (Fs.dir_isSome_of_node hstage₁)
  have hstage₂ : fs₂.staged (stageName C (C.addrOf key)) = some ⟨content, false⟩ := by
    rw [← hname]
    refine Fs.staged_eq ?_
    rw [hnode₂ _ (by rw [hname]; exact stageName_ne_lockFile C _), hstage₁]
  have hsame : SameFiles C fs fs₂ := by
    intro addr protected_
    rw [hnode₂ _ (pathOf_ne_lockFile hV addr protected_),
      hnode₁ _ (by rw [hname]; exact pathOf_ne_stageName hV _ _ _)]
  obtain ⟨fs₃, hlocked⟩ := answers_createLocked disk (n + 4) hV
    (Q := fun addr disk' => Q addr (disk'.exec .unlock).2) hdir₂ hstage₂ password
  refine ⟨(fs₃.exec 0 .unlock (disk.fault (n + 9))).2, ?_⟩
  rw [answers_bind, answers_io (by simp) hmode, answers_bind, answers_io (by simp) hwrite,
    answers_bind, hlock, answers_dropping, hlocked, Disk.exec_after, hlock₁, hfree₁]
  rw [hsame.doubled, hsame.present]
  rw [Disk.calm_add 1 7, Disk.calm_add 1 6, Disk.calm_add 2 4, Disk.calm_one, Disk.calm_one]
  constructor
  · rintro ⟨hmode, hwrite, ⟨hlock, hfree⟩, hcalls, hheld, hcalls', hQ⟩
    exact ⟨⟨hlock, hfree, hheld⟩, ⟨hmode, hwrite, hcalls, hcalls'⟩, hQ⟩
  · rintro ⟨⟨hlock, hfree, hheld⟩, ⟨hmode, hwrite, hcalls, hcalls'⟩, hQ⟩
    exact ⟨hmode, hwrite, ⟨hlock, hfree⟩, hcalls, hheld, hcalls', hQ⟩

/-- What it takes for a create to answer, and how many calls it made then. -/
theorem create_answers_iff (hV : C.VaultLaws) (key : Ed25519SigningKey)
    (password : Option String) (seed : ℕ) (Q : List (Option Fault) → Prop) :
    Answers (fun _ disk' => Q disk'.faults) (create C key password seed) disk ↔
      password ≠ some "" ∧ Takes C disk (C.addrOf key) ∧ Q (disk.faults.drop 15) := by
  by_cases hempty : password = some ""
  · unfold create
    rw [if_pos hempty, answers_bind]
    exact iff_of_false (Disk.not_answers_throw _) fun h => h.1 hempty
  obtain ⟨fs₁, hfs₁⟩ : ∃ fs₁ : Fs, fs₁ = { disk.fs with dir := some (disk.fs.dir.getD ∅) } :=
    ⟨_, rfl⟩
  have hnode₁ : ∀ name, fs₁.node name = disk.fs.node name := by
    rw [hfs₁]
    exact Fs.node_createDirAll
  have hdir₁ : fs₁.dir.isSome := by rw [hfs₁]; rfl
  have hcreate : disk.fs.perform 0 .createDirAll = (.ok (), fs₁) := by rw [hfs₁]; rfl
  have hmode₁ : fs₁.perform 0 (.setMode .root 0o700) = (.ok (), fs₁) := by
    simp [Fs.perform, Fs.has, hdir₁]
  have hdisk : disk = disk.after 0 disk.fs := rfl
  unfold create
  rw [if_neg hempty, hdisk, answers_bind, answers_io (by simp) hcreate, answers_bind,
    answers_io (by simp) hmode₁, answers_bind, answers_quiet, answers_bind]
  -- Whether a stage can be made is known once the call to clear it was made.
  by_cases hclears : Clears disk.fs (stageName C (C.addrOf key)) (disk.fault 2)
  swap
  · refine iff_of_false ?_ fun h => hclears h.2.1.stage
    rintro ⟨-, -, hmake⟩
    generalize hmade : (fs₁.exec 0 (.removeDirAll (stageName C (C.addrOf key)))
      (disk.fault (0 + 1 + 1))).2.perform 0
        (.createDir (stageName C (C.addrOf key))) = made at hmake
    obtain ⟨e | v, fs₂⟩ := made
    · exact not_answers_io (congrArg Prod.fst hmade) hmake
    · exact hclears ((Clears.of_created hmade).congr (hnode₁ _).symm)
  obtain ⟨fs₂, hmake, hstage₂, hlock₂, hnode₂⟩ := (hclears.congr (hnode₁ _)).performs hdir₁
  have hother : ∀ name, name ≠ stageName C (C.addrOf key) → fs₂.node name = disk.fs.node name :=
    fun name hne => (hnode₂ name hne).trans (hnode₁ name)
  have hsame : SameFiles C disk.fs fs₂ :=
    fun addr protected_ => hother _ (pathOf_ne_stageName hV _ _ _)
  rw [answers_io (by simp) hmake, answers_dropping]
  obtain ⟨fs₃, hstaged⟩ := answers_staged disk 4 hV
    (Q := fun _ disk' => Q (disk'.exec (.removeDirAll (stageName C (C.addrOf key)))).2.faults)
    hstage₂ password (keyFile C key password seed)
  have hlock : fs₂.isDir lockFile = disk.fs.isDir lockFile :=
    Fs.isDir_congr (hother _ (stageName_ne_lockFile C _).symm)
  have hfree : fs₂.lock = disk.fs.lock := by
    rw [hlock₂, hfs₁]
  rw [Disk.exec_after, hlock, hfree, hsame.doubled, hsame.present] at hstaged
  refine (and_congr_right' (and_congr_right' (and_congr_right' hstaged))).trans ?_
  constructor
  · rintro ⟨hdir, hmode, hmake, ⟨hlock, hfree, hsingle, habsent⟩, hcalls, hQ⟩
    exact ⟨hempty, ⟨(Disk.calm_add 1 1).mpr ⟨Disk.calm_one.mpr hdir, Disk.calm_one.mpr hmode⟩,
      hclears, (Disk.calm_add 1 8).mpr ⟨Disk.calm_one.mpr hmake, hcalls⟩, hlock, hfree, hsingle,
      habsent⟩, hQ⟩
  · rintro ⟨-, htakes, hQ⟩
    obtain ⟨hdir, hmode⟩ := (Disk.calm_add 1 1).mp htakes.dir
    obtain ⟨hmake, hcalls⟩ := (Disk.calm_add 1 8).mp htakes.calls
    exact ⟨Disk.calm_one.mp hdir, Disk.calm_one.mp hmode, Disk.calm_one.mp hmake,
      ⟨htakes.lock, htakes.free, htakes.single, htakes.absent⟩, hcalls, hQ⟩

/-- What is none of the vault's names a create leaves. -/
theorem create_elsewhere (hV : C.VaultLaws) (key : Ed25519SigningKey) (password : Option String)
    (seed : ℕ) {name : List Char} (hlock : name ≠ lockFile)
    (hstage : ∀ addr, name ≠ stageName C addr)
    (hpath : ∀ addr protected_, name ≠ pathOf C addr protected_) :
    (disk.run (create C key password seed).run).2.fs.node name = disk.fs.node name := by
  obtain ⟨-, hnode, -⟩ := Disk.run_keeps (J := fun fs _ => fs.node name = disk.fs.node name)
    (fun fs g c r fs' hJ hallowed hstep =>
      (step_elsewhere hallowed hstep hlock hstage hpath).trans hJ)
    (keeps_create hV key password seed) rfl
  exact hnode

end AccountLogUi.Vault
