import AccountLogUi.Fs.Equiv.Edits
import AccountLogUi.Vault.Equiv.Effect

/-!
# The vault's operations where no call fails

`Tidy` says nothing is in an operation's way: what it renames onto and takes away is no directory,
what it stages a key in is no file.  Every call of an operation keeps that, whether it fails or not,
and whatever an operation leaves in a stage.

In such a directory, with the lock free, `create_alone` and `forget_alone` say what an operation
answers where no call fails.
-/

namespace AccountLogUi.Vault

variable {Addr : Type} {C : Crates Addr} {fs fs' : Fs} {g : Progress Addr} {i : ℕ} {c : FsCall}
  {r : Except IoError c.Value}

/-- Nothing is in the way of an operation. -/
structure Tidy (C : Crates Addr) (fs : Fs) : Prop where
  lock : fs.isDir lockFile = false
  stage : ∀ addr, fs.file (stageName C addr) = none
  real : ∀ addr protected_, fs.isDir (pathOf C addr protected_) = false

theorem Tidy.congr (h : Tidy C fs) (hnode : ∀ name, fs'.node name = fs.node name) : Tidy C fs' where
  lock := by
    rw [Fs.isDir_congr (hnode _)]
    exact h.lock
  stage addr := by
    rw [Fs.file_congr (hnode _)]
    exact h.stage addr
  real addr protected_ := by
    rw [Fs.isDir_congr (hnode _)]
    exact h.real addr protected_

/-- Directories are made and taken away under the names of stages only. -/
theorem step_isDir (hallowed : Progress.allowed C g c) (hstep : fs.Step i c r fs')
    {name : List Char} (hname : ∀ addr, name ≠ stageName C addr) :
    fs'.isDir name = fs.isDir name := by
  apply hstep.isDir_eq
  · rintro rfl
    obtain ⟨key, password, seed, hop, heq⟩ := hallowed
    exact hname _ heq
  · rintro rfl
    obtain ⟨key, password, seed, hop, heq⟩ := hallowed
    exact hname _ heq

theorem Tidy.step (hV : C.VaultLaws) (h : Tidy C fs) (hallowed : Progress.allowed C g c)
    (hstep : fs.Step i c r fs') : Tidy C fs' := by
  refine ⟨?_, fun addr => ?_, fun addr protected_ => ?_⟩
  · rw [step_isDir hallowed hstep fun addr => (stageName_ne_lockFile C addr).symm]
    exact h.lock
  · apply hstep.file_eq_none (h.stage addr)
    · rintro rfl
      exact stageName_ne_lockFile C addr hallowed
    · rintro content rfl
      obtain ⟨key, password, seed, hop, hpath, -⟩ := hallowed
      cases hpath
    · rintro src rfl
      obtain ⟨key, password, seed, hop, -, hdest, -⟩ := hallowed
      exact pathOf_ne_stageName hV _ _ _ hdest.symm
  · rw [step_isDir hallowed hstep fun addr' => pathOf_ne_stageName hV addr addr' protected_]
    exact h.real addr protected_

/-- The lock is held by the one process there is, while its operation holds it. -/
def Sole (fs : Fs) (g : Progress Addr) : Prop := fs.lock = if g.locked then some 0 else none

theorem Sole.step (h : Sole fs g) (hstep : fs.Step 0 c r fs') :
    Sole fs' (Progress.next C g c r) := by
  unfold Sole at h ⊢
  by_cases htry : c = .tryLock
  · subst htry
    rcases r with e | v
    · rw [hstep.error_eq (by simp) (by simp), h]
      simp [Progress.next, Except.isOk, Except.toBool]
    · rw [hstep.tryLock_ok.2]
      simp [Progress.next, Except.isOk, Except.toBool]
  by_cases hunlock : c = .unlock
  · subst hunlock
    rw [hstep.unlock_eq]
    by_cases hlocked : g.locked = true
    · rw [if_pos (by rw [h, if_pos hlocked])]
      rfl
    · rw [if_neg (by rw [h, if_neg hlocked]; simp), h, if_neg hlocked]
      rfl
  have hlocked : (Progress.next C g c r).locked = g.locked := by
    cases c <;> dsimp only [Progress.next]
    case readDir => split <;> rfl
    case tryLock => exact absurd rfl htry
    case unlock => exact absurd rfl hunlock
    case rename => split <;> rfl
  rw [hstep.lock_eq htry hunlock, h, hlocked]

/-- What an operation can start from, and leaves: nothing in its way, and the lock free. -/
structure Settled (C : Crates Addr) (fs : Fs) : Prop extends Tidy C fs where
  free : fs.lock = none
  single : ∀ addr, ¬Doubled C fs addr

theorem SameFiles.doubled (h : SameFiles C fs fs') :
    (∀ addr, ¬Doubled C fs' addr) ↔ ∀ addr, ¬Doubled C fs addr := by
  unfold Doubled
  simp only [h _ _]

theorem SameFiles.single (h : SameFiles C fs fs') (hsingle : ∀ addr, ¬Doubled C fs addr) :
    ∀ addr, ¬Doubled C fs' addr := h.doubled.mpr hsingle

theorem Stored.single {key : Ed25519SigningKey} {password : Option String} {seed : ℕ}
    (h : Stored C key password seed fs fs') (hsingle : ∀ addr, ¬Doubled C fs addr) (addr : Addr) :
    ¬Doubled C fs' addr := by
  by_cases haddr : addr = C.addrOf key
  · -- The one spelling it has is the one just stored.
    subst haddr
    rintro ⟨hsealed, hopen⟩
    have hother : (fs.node (pathOf C (C.addrOf key) !password.isSome)).isSome := by
      rw [← h.other _ _ (by cases password <;> simp)]
      cases hp : password.isSome
      · exact hsealed
      · exact hopen
    exact h.absent ⟨_, hother⟩
  · unfold Doubled
    rw [h.other _ _ fun heq => haddr heq.1, h.other _ _ fun heq => haddr heq.1]
    exact hsingle addr

theorem Dropped.single {addr : Addr} (h : Dropped C addr fs fs')
    (hsingle : ∀ addr, ¬Doubled C fs addr) (addr' : Addr) : ¬Doubled C fs' addr' := by
  by_cases haddr : addr' = addr
  · subst haddr
    rintro ⟨hsealed, hopen⟩
    exact h.not_present (hsingle _) ⟨true, hsealed⟩
  · unfold Doubled
    rw [h.other _ _ haddr, h.other _ _ haddr]
    exact hsingle addr'

/-- However far an operation has come, no account has both spellings. -/
theorem Effect.single {fs₀ : Fs} (h : Effect C fs₀ g fs) (hsingle : ∀ addr, ¬Doubled C fs₀ addr) :
    ∀ addr, ¬Doubled C fs addr := by
  by_cases hpromoted : g.promoted = true
  · obtain ⟨key, password, seed, -, hstored⟩ := h.promoted hpromoted
    exact hstored.single hsingle
  by_cases hremoved : g.removed = true
  · obtain ⟨addr, -, hdropped⟩ := h.removed hremoved
    exact hdropped.single hsingle
  exact (h.untouched (by simpa using hpromoted) (by simpa using hremoved)).single hsingle

/-- What a running operation keeps, whatever its calls answer. -/
structure Underway (C : Crates Addr) (fs₀ : Fs) (g : Progress Addr) (fs : Fs) : Prop
    extends Effect C fs₀ g fs where
  tidy : Tidy C fs
  sole : Sole fs g

theorem Underway.start (h : Settled C fs) (op : VaultOp Addr) : Underway C fs { op } fs where
  toEffect := .refl fs op
  tidy := h.toTidy
  sole := h.free

theorem Underway.step (hV : C.VaultLaws) {fs₀ : Fs} (h : Underway C fs₀ g fs)
    (hallowed : Progress.allowed C g c) (hstep : fs.Step 0 c r fs') :
    Underway C fs₀ (Progress.next C g c r) fs' where
  toEffect := h.toEffect.step hV hallowed hstep
  tidy := h.tidy.step hV hallowed hstep
  sole := h.sole.step hstep

theorem Underway.settled {fs₀ : Fs} (h : Underway C fs₀ g fs) (hlocked : g.locked = false)
    (hsingle : ∀ addr, ¬Doubled C fs₀ addr) : Settled C fs where
  toTidy := h.tidy
  free := by
    have hsole := h.sole
    unfold Sole at hsole
    rwa [hlocked] at hsole
  single := h.toEffect.single hsingle

/-! ### Calls that do not fail -/

/-- The lock file is there already, or is made. -/
theorem openLock_performs (hlock : fs.isDir lockFile = false) (hdir : fs.dir.isSome) :
    ∃ fs₁ : Fs, fs.perform 0 (.openLock lockFile) = (.ok (), fs₁) ∧ fs₁.dir.isSome ∧
      fs₁.lock = fs.lock ∧ ∀ name, name ≠ lockFile → fs₁.node name = fs.node name := by
  obtain ⟨dir, hsome⟩ := Option.isSome_iff_exists.mp hdir
  rcases hnode : fs.node lockFile with - | file | d
  · refine ⟨fs.insert lockFile (.file ⟨.text .other, false⟩), ?_, ?_, rfl,
      fun name hne => Fs.node_insert_ne fs hne _⟩
    · simp [Fs.perform, hsome, hnode]
    · rwa [Fs.isSome_dir_insert]
  · exact ⟨fs, by simp [Fs.perform, hsome, hnode], hdir, rfl, fun _ _ => rfl⟩
  · exact absurd hnode (Fs.not_dir_of_isDir hlock d)

theorem tryLock_performs (hfree : fs.lock = none) :
    fs.perform 0 .tryLock = (.ok (), { fs with lock := some 0 }) := by
  simp [Fs.perform, hfree]

theorem lock_alone (hlock : fs.isDir lockFile = false) (hfree : fs.lock = none)
    (hdir : fs.dir.isSome) : ∃ fs₁, ((lock : FsM (VaultError Addr) Unit).alone 0 fs) =
      (.ok (), fs₁) ∧
      fs₁.dir.isSome ∧ ∀ name, name ≠ lockFile → fs₁.node name = fs.node name := by
  obtain ⟨fs₁, hopen, hdir₁, hlock₁, hnode₁⟩ := openLock_performs hlock hdir
  have htake := tryLock_performs (hlock₁.trans hfree)
  refine ⟨{ fs₁ with lock := some 0 }, ?_, hdir₁, fun name hne => ?_⟩
  · unfold lock
    rw [FsM.alone_io_bind hopen, FsM.alone_io, htake]
    rfl
  · rw [Fs.node_mk_lock]
    exact hnode₁ name hne

/-- A file staged can be given its name. -/
theorem promote_performs {stage dest : List Char} {file : File}
    (hstage : fs.staged stage = some file) (hdest : fs.isDir dest = false) : ∃ fs₁ fs₂,
      fs.perform 0 (.setMode (.staged stage) 0o600) = (.ok (), fs) ∧
      fs.perform 0 (.syncAll (.staged stage)) = (.ok (), fs₁) ∧
      fs₁.perform 0 (.rename (.staged stage) dest) = (.ok (), fs₂) := by
  have hnode := Fs.node_eq_of_staged hstage
  have hmode : fs.perform 0 (.setMode (.staged stage) 0o600) = (.ok (), fs) := by
    simp [Fs.perform, Fs.has, hstage]
  obtain ⟨fs₁, hfs₁⟩ : ∃ fs₁, fs₁ = fs.putFile (.staged stage) { file with synced := true } :=
    ⟨_, rfl⟩
  have hsync : fs.perform 0 (.syncAll (.staged stage)) = (.ok (), fs₁) := by
    simp [Fs.perform, Fs.fileAt, hstage, hfs₁]
  have hstage₁ : fs₁.staged stage = some { file with synced := true } := by
    rw [hfs₁]
    exact Fs.staged_eq (Fs.node_insert_self (Fs.dir_isSome_of_node hnode) _ _)
  have hat : fs.fileAt (.staged stage) = some file := hstage
  have hdest₁ : fs₁.isDir dest = false := by
    rw [hfs₁, Fs.isDir_putFile fs hat]
    exact hdest
  obtain ⟨fs₂, hrename⟩ : ∃ fs₂, fs₁.perform 0 (.rename (.staged stage) dest) = (.ok (), fs₂) := by
    rcases hnode₁ : fs₁.node dest with - | file' | d
    · exact ⟨_, by simp [Fs.perform, Fs.renameFile, Fs.fileAt, hstage₁, hnode₁]; rfl⟩
    · exact ⟨_, by simp [Fs.perform, Fs.renameFile, Fs.fileAt, hstage₁, hnode₁]; rfl⟩
    · exact absurd hnode₁ (Fs.not_dir_of_isDir hdest₁ d)
  exact ⟨fs₁, fs₂, hmode, hsync, hrename⟩

theorem promote_alone {stage dest : List Char} {file : File} (hstage : fs.staged stage = some file)
    (hdest : fs.isDir dest = false) :
    ((promote stage dest : FsM (VaultError Addr) Unit).alone 0 fs).1 = .ok () := by
  obtain ⟨fs₁, fs₂, hmode, hsync, hrename⟩ := promote_performs hstage hdest
  unfold promote
  rw [FsM.alone_io_bind hmode, FsM.alone_io_bind hsync, FsM.alone_io_bind hrename]
  rfl

/-- A stage can be made anew: nothing has its name, or what a crash left there and the first call
takes away. -/
def Clears (fs : Fs) (stage : List Char) (fault : Option Fault) : Prop :=
  fs.node stage = none ∨ fs.isDir stage = true ∧ fault = none

theorem Clears.performs {stage : List Char} {fault : Option Fault} (h : Clears fs stage fault)
    (hdir : fs.dir.isSome) :
    ∃ fs₁, (fs.exec 0 (.removeDirAll stage) fault).2.perform 0 (.createDir stage) = (.ok (), fs₁) ∧
      fs₁.node stage = some (.dir none) ∧ fs₁.lock = fs.lock ∧
      ∀ name, name ≠ stage → fs₁.node name = fs.node name := by
  obtain ⟨fs₂, hfs₂⟩ : ∃ fs₂, fs₂ = (fs.exec 0 (.removeDirAll stage) fault).2 := ⟨_, rfl⟩
  have hcleared : fs₂.node stage = none ∧ fs₂.dir.isSome ∧ fs₂.lock = fs.lock ∧
      ∀ name, name ≠ stage → fs₂.node name = fs.node name := by
    rcases h with hnone | ⟨hstage, rfl⟩
    · have hsame : fs₂ = fs := by
        rw [hfs₂]
        cases fault with
        | none => simp [Fs.exec, Fs.perform, hnone]
        | some fault => cases hleaves : fault.leaves <;> simp [Fs.exec, Fs.spoil, hnone, hleaves]
      rw [hsame]
      exact ⟨hnone, hdir, rfl, fun _ _ => rfl⟩
    · obtain ⟨d, hnode⟩ := Fs.isDir_eq_true.mp hstage
      have herased : fs₂ = fs.erase stage := by
        rw [hfs₂]
        simp [Fs.exec, Fs.perform, hnode]
      rw [herased]
      refine ⟨Fs.node_erase_self fs _, ?_, rfl, fun name hne => Fs.node_erase_ne fs hne⟩
      rwa [Fs.isSome_dir_erase]
  obtain ⟨hnone, hdir₂, hlock₂, hother₂⟩ := hcleared
  obtain ⟨dir, hsome⟩ := Option.isSome_iff_exists.mp hdir₂
  rw [← hfs₂]
  refine ⟨fs₂.insert stage (.dir none), ?_, Fs.node_insert_self hdir₂ _ _, hlock₂,
    fun name hne => ?_⟩
  · simp [Fs.perform, hsome, hnone]
  · rw [Fs.node_insert_ne fs₂ hne]
    exact hother₂ name hne

variable [DecidableEq Addr]

/-- An operation, whatever its calls answer. -/
theorem Settled.run (hV : C.VaultLaws) {disk : Disk} (h : Settled C disk.fs) (op : VaultOp Addr) :
    Settled C (disk.run (op.body C)).2.fs := by
  obtain ⟨g, hunderway, -, hlocked, -⟩ := Disk.run_keeps
    (J := fun fs g => Underway C disk.fs g fs)
    (fun fs g c r fs' hJ hallowed hstep => hJ.step hV hallowed hstep) (op.keeps hV) (.start h op)
  exact hunderway.settled hlocked h.single

/-! ### Create -/

/-- The part of a create that is made under the lock. -/
def createLocked (C : Crates Addr) (key : Ed25519SigningKey) (password : Option String) :
    FsM (VaultError Addr) Addr := do
  let held ← accounts C
  if held.any (·.addr = C.addrOf key) then throw (.accountExists (C.addrOf key))
  promote (stageName C (C.addrOf key)) (pathOf C (C.addrOf key) password.isSome)
  return C.addrOf key

/-- Where no call fails, a create comes as far as the lock, with its key staged. -/
theorem create_alone_locked (hV : C.VaultLaws) (h : Settled C fs) (key : Ed25519SigningKey)
    {password : Option String} (seed : ℕ) (hpassword : password ≠ some "") :
    ∃ fs₁, ((create C key password seed).alone 0 fs).1 =
        ((createLocked C key password).alone 0 fs₁).1 ∧ SameFiles C fs fs₁ ∧
      ∃ file, fs₁.staged (stageName C (C.addrOf key)) = some file := by
  obtain ⟨stage, hstage⟩ : ∃ stage, stage = stageName C (C.addrOf key) := ⟨_, rfl⟩
  obtain ⟨content, hcontent⟩ : ∃ content, content = keyFile C key password seed := ⟨_, rfl⟩
  obtain ⟨fs₁, hfs₁⟩ : ∃ fs₁ : Fs, fs₁ = { fs with dir := some (fs.dir.getD ∅) } := ⟨_, rfl⟩
  have hnode₁ : ∀ name, fs₁.node name = fs.node name := by
    rw [hfs₁]
    exact Fs.node_createDirAll
  have hdir₁ : fs₁.dir.isSome := by rw [hfs₁]; rfl
  have htidy₁ : Tidy C fs₁ := h.toTidy.congr hnode₁
  have hcreate : fs.perform 0 .createDirAll = (.ok (), fs₁) := by rw [hfs₁]; rfl
  have hmode₁ : fs₁.perform 0 (.setMode .root 0o700) = (.ok (), fs₁) := by
    simp [Fs.perform, Fs.has, hdir₁]
  have hclears : Clears fs₁ stage none := by
    have hfile := htidy₁.stage (C.addrOf key)
    rw [← hstage] at hfile
    rcases hnode : fs₁.node stage with - | file | d
    · exact .inl hnode
    · rw [Fs.file_eq hnode] at hfile
      cases hfile
    · exact .inr ⟨Fs.isDir_eq_true.mpr ⟨d, hnode⟩, rfl⟩
  obtain ⟨fs₂, hmade, hstage₂, hlock₂, hnode₂⟩ := hclears.performs hdir₁
  have hmake : (fs₁.perform 0 (.removeDirAll stage)).2.perform 0 (.createDir stage) =
      (.ok (), fs₂) := hmade
  have hmode₂ : fs₂.perform 0 (.setMode (.top stage) 0o700) = (.ok (), fs₂) := by
    simp [Fs.perform, Fs.has, hstage₂]
  obtain ⟨fs₃, hfs₃⟩ : ∃ fs₃, fs₃ = fs₂.insert stage (.dir (some ⟨content, false⟩)) := ⟨_, rfl⟩
  have hwrite : fs₂.perform 0 (.write (.staged stage) content) = (.ok (), fs₃) := by
    simp [Fs.perform, Fs.writeFile, Fs.putFile, hstage₂, hfs₃]
  have hnode₃ : ∀ name, name ≠ stage → fs₃.node name = fs.node name := by
    intro name hne
    rw [hfs₃, Fs.node_insert_ne fs₂ hne, hnode₂ name hne, hnode₁]
  have hstage₃ : fs₃.node stage = some (.dir (some ⟨content, false⟩)) := by
    rw [hfs₃]
    exact Fs.node_insert_self (Fs.dir_isSome_of_node hstage₂) _ _
  have hlockFile : fs₃.isDir lockFile = false := by
    rw [Fs.isDir_congr (hnode₃ _ (by rw [hstage]; exact (stageName_ne_lockFile C _).symm))]
    exact h.lock
  have hfree : fs₃.lock = none := by
    rw [hfs₃, Fs.lock_insert, hlock₂, hfs₁]
    exact h.free
  obtain ⟨fs₄, htake, -, hnode₄⟩ := lock_alone hlockFile hfree (Fs.dir_isSome_of_node hstage₃)
  -- Everything up to the lock touched the stage and the lock file alone.
  refine ⟨fs₄, ?_, fun addr protected_ => ?_, ⟨content, false⟩, ?_⟩
  · subst hstage hcontent
    unfold create
    rw [if_neg hpassword]
    dsimp only
    rw [FsM.alone_io_bind hcreate, FsM.alone_io_bind hmode₁, FsM.alone_quiet_bind,
      FsM.alone_io_bind hmake, FsM.alone_dropping, FsM.alone_io_bind hmode₂,
      FsM.alone_io_bind hwrite, FsM.alone_bind, htake]
    dsimp only
    rw [FsM.alone_dropping]
    rfl
  · rw [hnode₄ _ (pathOf_ne_lockFile hV addr protected_),
      hnode₃ _ (by rw [hstage]; exact pathOf_ne_stageName hV _ _ _)]
  · rw [← hstage]
    refine Fs.staged_eq ?_
    rw [hnode₄ _ (by rw [hstage]; exact stageName_ne_lockFile C _), hstage₃]

/-- Of an account that is held already, a create is refused. -/
theorem create_alone_present (hV : C.VaultLaws) (h : Settled C fs) {key : Ed25519SigningKey}
    (hpresent : Present C fs (C.addrOf key)) {password : Option String} (seed : ℕ)
    (hpassword : password ≠ some "") : ((create C key password seed).alone 0 fs).1 =
      .error (.accountExists (C.addrOf key)) := by
  obtain ⟨fs₁, hcreate, hsame, -⟩ := create_alone_locked hV h key seed hpassword
  obtain ⟨l, hl, -, -, hmem⟩ := accounts_alone hV (hsame.single h.single) 0
  obtain ⟨protected_, hnode⟩ := hsame.present.mpr hpresent
  have hheld : (⟨C.addrOf key, protected_⟩ : StoredAccount Addr) ∈ l := (hmem _).mpr hnode
  have hany : l.any (·.addr = C.addrOf key) = true :=
    List.any_eq_true.mpr ⟨_, hheld, decide_eq_true rfl⟩
  rw [hcreate]
  unfold createLocked
  rw [FsM.alone_bind, hl]
  dsimp only
  rw [if_pos hany]
  rfl

/-- Of one that is not, it goes through. -/
theorem create_alone_absent (hV : C.VaultLaws) (h : Settled C fs) {key : Ed25519SigningKey}
    (habsent : ¬Present C fs (C.addrOf key)) {password : Option String} (seed : ℕ)
    (hpassword : password ≠ some "") :
    ((create C key password seed).alone 0 fs).1 = .ok (C.addrOf key) := by
  obtain ⟨fs₁, hcreate, hsame, file, hstage⟩ := create_alone_locked hV h key seed hpassword
  obtain ⟨l, hl, -, -, hmem⟩ := accounts_alone hV (hsame.single h.single) 0
  have hany : ¬l.any (·.addr = C.addrOf key) = true := by
    intro hany
    obtain ⟨account, hheld, haddr⟩ := List.any_eq_true.mp hany
    have hpresent : Present C fs₁ account.addr := ⟨_, (hmem account).mp hheld⟩
    rw [of_decide_eq_true haddr] at hpresent
    exact habsent (hsame.present.mp hpresent)
  have hreal : fs₁.isDir (pathOf C (C.addrOf key) password.isSome) = false := by
    rw [Fs.isDir_congr (hsame _ _)]
    exact h.real _ _
  have hpromote := @promote_alone Addr _ _ _ _ hstage hreal
  rw [hcreate]
  unfold createLocked
  rw [FsM.alone_bind, hl]
  dsimp only
  rw [if_neg hany, FsM.alone_bind]
  generalize (promote (stageName C (C.addrOf key)) (pathOf C (C.addrOf key) password.isSome) :
    FsM (VaultError Addr) Unit).alone 0 fs₁ = ran at hpromote ⊢
  obtain ⟨res, fs₂⟩ := ran
  obtain rfl : res = .ok () := hpromote
  rfl

/-! ### Forget -/

theorem forget_alone_absent (hV : C.VaultLaws) (h : Settled C fs) {addr : Addr}
    (habsent : ¬Present C fs addr) : ((forget C addr).alone 0 fs).1 = .error .noAccount := by
  obtain ⟨l, hl, -, -, hmem⟩ := accounts_alone hV h.single 0
  have hfind : l.find? (·.addr = addr) = none := by
    rw [List.find?_eq_none]
    intro account haccount haddr
    obtain rfl : account.addr = addr := by simpa using haddr
    exact habsent ⟨account.protected_, (hmem account).mp haccount⟩
  unfold forget
  rw [FsM.alone_bind, hl]
  simp only [hfind]
  rfl

/-- An account that is held is forgotten. -/
theorem forget_alone_present (hV : C.VaultLaws) (h : Settled C fs) {addr : Addr}
    (hpresent : Present C fs addr) : ((forget C addr).alone 0 fs).1 = .ok () := by
  obtain ⟨l, hl, hnd, -, hmem⟩ := accounts_alone hV h.single 0
  obtain ⟨protected_, hnode⟩ := hpresent
  have hfind := find?_addr hnd ((hmem ⟨addr, protected_⟩).mpr hnode)
  obtain ⟨x, hx⟩ := Option.isSome_iff_exists.mp hnode
  obtain ⟨fs₁, htake, -, hnode₁⟩ := @lock_alone Addr _ h.lock h.free (Fs.dir_isSome_of_node hx)
  have hremove : (fs₁.perform 0 (.removeFile (pathOf C addr protected_))).1 = .ok () := by
    have hfile := hnode₁ _ (pathOf_ne_lockFile hV addr protected_)
    rw [hx] at hfile
    rcases x with file | d
    · simp [Fs.perform, hfile]
    · exact absurd hx (Fs.not_dir_of_isDir (h.real _ _) d)
  unfold forget
  rw [FsM.alone_bind, hl]
  simp only [hfind]
  rw [FsM.alone_bind, htake]
  dsimp only
  rw [FsM.alone_dropping, FsM.alone_io, hremove]
  rfl

end AccountLogUi.Vault
