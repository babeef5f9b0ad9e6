import AccountLogUi.Observed.Basic
import AccountLogUi.Vault.Equiv.Open
import AccountLogUi.Vault.Equiv.Promotion

/-!
# What one operation does to the directory

One process runs one operation, whatever its calls answer, and no other process is near.  `Effect`
says what the operation, come as far as its progress says, has done to the files of the accounts:
nothing, or stored one it found absent, or taken one away.  `Effect.step` is one call.

`create_run`, `forget_run`, `accounts_run` and `openKey_run` are what the operations answer and
leave on a disk where any call may fail.
-/

namespace AccountLogUi.Vault

variable {Addr : Type} {C : Crates Addr}

/-! ### The observed accounts' files -/

theorem pathOf_ne_observedFile (hV : C.VaultLaws) (addr : Addr) (p : Bool) :
    pathOf C addr p ≠ Observed.observedFile := by
  obtain ⟨c, hc, rest, h⟩ := pathOf_head hV addr p
  intro heq
  rw [h] at heq
  obtain rfl : c = 'o' := (List.cons.inj heq).1
  exact absurd hc (by decide)

theorem pathOf_ne_stagedFile (hV : C.VaultLaws) (addr : Addr) (p : Bool) :
    pathOf C addr p ≠ Observed.stagedFile := by
  obtain ⟨c, hc, rest, h⟩ := pathOf_head hV addr p
  intro heq
  rw [h] at heq
  obtain rfl : c = '.' := (List.cons.inj heq).1
  exact absurd hc (by decide)

theorem stageName_ne_observedFile (C : Crates Addr) (addr : Addr) :
    stageName C addr ≠ Observed.observedFile := by
  intro h
  exact absurd (List.cons.inj h).1 (by decide)

theorem stageName_ne_stagedFile (C : Crates Addr) (addr : Addr) :
    stageName C addr ≠ Observed.stagedFile := by
  intro h
  exact absurd (List.cons.inj (List.cons.inj h).2).1 (by decide)

theorem lockFile_ne_observedFile : lockFile ≠ Observed.observedFile := by decide

theorem lockFile_ne_stagedFile : lockFile ≠ Observed.stagedFile := by decide

/-! ### Changes to the files -/

/-- The accounts' files are as they were. -/
def SameFiles (C : Crates Addr) (fs fs' : Fs) : Prop :=
  ∀ addr protected_, fs'.node (pathOf C addr protected_) = fs.node (pathOf C addr protected_)

/-- A file of the key was put where the account had none, and no other account's was touched. -/
structure Stored (C : Crates Addr) (key : Ed25519SigningKey) (password : Option String) (seed : ℕ)
    (fs fs' : Fs) : Prop where
  absent : ¬Present C fs (C.addrOf key)
  file : fs'.node (pathOf C (C.addrOf key) password.isSome) =
    some (.file ⟨keyFile C key password seed, true⟩)
  other : ∀ addr protected_, ¬(addr = C.addrOf key ∧ protected_ = password.isSome) →
    fs'.node (pathOf C addr protected_) = fs.node (pathOf C addr protected_)

/-- A file of the account was taken away, and no other account's was touched. -/
structure Dropped (C : Crates Addr) (addr : Addr) (fs fs' : Fs) : Prop where
  gone : ∃ protected_, (fs.node (pathOf C addr protected_)).isSome ∧
    fs'.node (pathOf C addr protected_) = none
  left : ∀ protected_, fs'.node (pathOf C addr protected_) = none ∨
    fs'.node (pathOf C addr protected_) = fs.node (pathOf C addr protected_)
  other : ∀ addr' protected_, addr' ≠ addr →
    fs'.node (pathOf C addr' protected_) = fs.node (pathOf C addr' protected_)

theorem Dropped.not_present {addr : Addr} {fs fs' : Fs} (h : Dropped C addr fs fs')
    (hsingle : ¬Doubled C fs addr) : ¬Present C fs' addr := by
  obtain ⟨gone, hsome, hnone⟩ := h.gone
  rintro ⟨protected_, hp⟩
  by_cases heq : protected_ = gone
  · subst heq
    rw [hnone] at hp
    cases hp
  · rcases h.left protected_ with hleft | hleft
    · rw [hleft] at hp
      cases hp
    · rw [hleft] at hp
      apply hsingle
      cases protected_ <;> cases gone
      · exact absurd rfl heq
      · exact ⟨hsome, hp⟩
      · exact ⟨hp, hsome⟩
      · exact absurd rfl heq

/-! ### One operation alone -/

/-- What an operation that started in `fs₀`, come as far as `g`, has done. -/
structure Effect (C : Crates Addr) (fs₀ : Fs) (g : Progress Addr) (fs : Fs) : Prop where
  waiting : Waiting C fs g
  absent : g.absent = true → Unheld C fs g.op
  untouched : g.promoted = false → g.removed = false → SameFiles C fs₀ fs
  promoted : g.promoted = true → ∃ key password seed, g.op = .create key password seed ∧
    Stored C key password seed fs₀ fs
  removed : g.removed = true → ∃ addr, g.op = .forget addr ∧ Dropped C addr fs₀ fs
  observed : fs.node Observed.observedFile = fs₀.node Observed.observedFile

theorem Effect.refl (fs : Fs) (op : VaultOp Addr) : Effect C fs { op } fs where
  waiting _ _ _ _ h := by cases h
  absent h := by cases h
  untouched _ _ _ _ := rfl
  promoted h := by cases h
  removed h := by cases h
  observed := rfl

/-- Only a rename that goes through promotes a file. -/
theorem Progress.promoted_next_eq {g : Progress Addr} {c : FsCall} {r : Except IoError c.Value}
    (h : ¬((∃ src dest, c = .rename src dest) ∧ r.isOk = true)) :
    (Progress.next C g c r).promoted = g.promoted := by
  cases c <;> dsimp only [Progress.next]
  case readDir => split <;> rfl
  case rename src dest =>
    have hok : ¬r.isOk = true := fun hok => h ⟨⟨src, dest, rfl⟩, hok⟩
    rw [if_neg hok]

/-- Only a removal that goes through takes a file away. -/
theorem Progress.removed_next_eq {g : Progress Addr} {c : FsCall} {r : Except IoError c.Value}
    (h : ¬((∃ name, c = .removeFile name) ∧ r.isOk = true)) :
    (Progress.next C g c r).removed = g.removed := by
  cases c <;> dsimp only [Progress.next]
  case readDir => split <;> rfl
  case rename => split <;> rfl
  case removeFile name =>
    have hok : r.isOk = false := by
      by_contra hok
      exact h ⟨⟨name, rfl⟩, by simpa using hok⟩
    rw [hok, Bool.or_false]

/-- No call of an operation touches a name that is no stage's, no account's and not the lock's. -/
theorem step_elsewhere {g : Progress Addr} {i : ℕ} {fs fs' : Fs} {c : FsCall}
    {r : Except IoError c.Value} (hallowed : Progress.allowed C g c) (hstep : fs.Step i c r fs')
    {name : List Char} (hlock : name ≠ lockFile) (hstage : ∀ addr, name ≠ stageName C addr)
    (hpath : ∀ addr protected_, name ≠ pathOf C addr protected_) :
    fs'.node name = fs.node name := by
  apply hstep.node_eq
  cases c
  case removeDirAll other =>
    obtain ⟨key, password, seed, hop, rfl⟩ := hallowed
    simpa [FsCall.changes] using hstage (C.addrOf key)
  case createDir other =>
    obtain ⟨key, password, seed, hop, rfl⟩ := hallowed
    simpa [FsCall.changes] using hstage (C.addrOf key)
  case write path content =>
    obtain ⟨key, password, seed, hop, rfl, -⟩ := hallowed
    simpa [FsCall.changes, Path.name] using hstage (C.addrOf key)
  case openLock other =>
    obtain rfl : other = lockFile := hallowed
    simpa [FsCall.changes] using hlock
  case syncAll path =>
    obtain ⟨key, password, seed, hop, rfl⟩ := hallowed
    simpa [FsCall.changes, Path.name] using hstage (C.addrOf key)
  case rename src dest =>
    obtain ⟨key, password, seed, hop, rfl, rfl, -⟩ := hallowed
    exact FsCall.not_mem_changes_rename (hpath _ _) (hstage (C.addrOf key))
  case removeFile other =>
    obtain ⟨addr, protected_, hop, rfl, -⟩ := hallowed
    simpa [FsCall.changes] using hpath addr protected_
  all_goals simp [FsCall.changes]

theorem step_observedFile (hV : C.VaultLaws) {g : Progress Addr} {i : ℕ} {fs fs' : Fs} {c : FsCall}
    {r : Except IoError c.Value} (hallowed : Progress.allowed C g c) (hstep : fs.Step i c r fs') :
    fs'.node Observed.observedFile = fs.node Observed.observedFile :=
  step_elsewhere hallowed hstep lockFile_ne_observedFile.symm
    (fun addr => (stageName_ne_observedFile C addr).symm)
    fun addr protected_ => (pathOf_ne_observedFile hV addr protected_).symm

/-- A call that is no rename and no removal that goes through leaves the files. -/
theorem step_sameFiles (hV : C.VaultLaws) {g : Progress Addr} {i : ℕ} {fs fs' : Fs} {c : FsCall}
    {r : Except IoError c.Value} (hallowed : Progress.allowed C g c) (hstep : fs.Step i c r fs')
    (hrename : ¬((∃ src dest, c = .rename src dest) ∧ r.isOk = true))
    (hremove : ¬((∃ name, c = .removeFile name) ∧ r.isOk = true)) : SameFiles C fs fs' := by
  intro addr protected_
  rcases step_pathOf hV hallowed hstep addr protected_ with
    heq | ⟨-, -, -, -, -, -, -, hc, hok, -⟩ | ⟨-, hc, hok, -⟩
  · exact heq
  · exact absurd ⟨⟨_, _, hc⟩, hok⟩ hrename
  · exact absurd ⟨⟨_, hc⟩, hok⟩ hremove

theorem SameFiles.trans {fs₀ fs fs' : Fs} (h : SameFiles C fs₀ fs) (h' : SameFiles C fs fs') :
    SameFiles C fs₀ fs' := fun addr protected_ => (h' addr protected_).trans (h addr protected_)

/-- The same files, an account is present where it was. -/
theorem SameFiles.present {fs fs' : Fs} (h : SameFiles C fs fs') {addr : Addr} :
    Present C fs' addr ↔ Present C fs addr := by
  unfold Present
  simp only [h addr]

theorem Stored.congr {key : Ed25519SigningKey} {password : Option String} {seed : ℕ}
    {fs₀ fs fs' : Fs} (h : Stored C key password seed fs₀ fs) (h' : SameFiles C fs fs') :
    Stored C key password seed fs₀ fs' where
  absent := h.absent
  file := (h' _ _).trans h.file
  other addr protected_ hne := (h' _ _).trans (h.other addr protected_ hne)

theorem Dropped.congr {addr : Addr} {fs₀ fs fs' : Fs} (h : Dropped C addr fs₀ fs)
    (h' : SameFiles C fs fs') : Dropped C addr fs₀ fs' where
  gone := by
    obtain ⟨protected_, hsome, hnone⟩ := h.gone
    exact ⟨protected_, hsome, (h' _ _).trans hnone⟩
  left protected_ := (h.left protected_).imp (fun hl => (h' _ _).trans hl)
    fun hl => (h' _ _).trans hl
  other addr' protected_ hne := (h' _ _).trans (h.other addr' protected_ hne)

/-- A rename that goes through stores the key of a create that found the account absent. -/
theorem Effect.rename (hV : C.VaultLaws) {fs₀ fs fs' : Fs} {g : Progress Addr} {i : ℕ}
    {src : Path} {dest : List Char} (h : Effect C fs₀ g fs)
    (hallowed : Progress.allowed C g (.rename src dest))
    (hstep : fs.Step i (.rename src dest) (.ok ()) fs') :
    ∃ key password seed, g.op = .create key password seed ∧ g.removed = false ∧
      Stored C key password seed fs₀ fs' := by
  obtain ⟨key, password, seed, hop, rfl, rfl, -, habsent, hstaged, hsynced⟩ := hallowed
  have hunheld : ¬Present C fs (C.addrOf key) := h.absent habsent key password seed hop
  have hremoved : g.removed = false := by
    by_contra hremoved
    obtain ⟨addr, hop', -⟩ := h.removed (by simpa using hremoved)
    rw [hop] at hop'
    cases hop'
  have hpromoted : g.promoted = false := by
    by_contra hpromoted
    obtain ⟨key', password', seed', hop', hstored⟩ := h.promoted (by simpa using hpromoted)
    obtain ⟨rfl, rfl, rfl⟩ := VaultOp.create.inj (hop'.symm.trans hop)
    exact hunheld ⟨_, by rw [hstored.file]; rfl⟩
  have hsame := h.untouched hpromoted hremoved
  obtain ⟨synced, hfile, hsync⟩ := h.waiting key password seed hop hstaged
  obtain rfl : synced = true := hsync hsynced
  obtain ⟨file, hfile', hnode, -⟩ := hstep.rename_staged_ok (pathOf_ne_stageName hV _ _ _)
  obtain rfl := Option.some.inj (hfile.symm.trans hfile')
  refine ⟨key, password, seed, hop, hremoved, ?_, hnode, ?_⟩
  · rwa [← hsame.present]
  · intro addr protected_ hne
    have hdest : pathOf C addr protected_ ≠ pathOf C (C.addrOf key) password.isSome :=
      fun heq => hne ((pathOf_inj hV).mp heq)
    have hframe := hstep.node_eq
      (FsCall.not_mem_changes_rename hdest (pathOf_ne_stageName hV addr (C.addrOf key) protected_))
    exact hframe.trans (hsame addr protected_)

/-- A removal that goes through takes a file of the account forgotten away. -/
theorem Effect.removeFile (hV : C.VaultLaws) {fs₀ fs fs' : Fs} {g : Progress Addr} {i : ℕ}
    {name : List Char} (h : Effect C fs₀ g fs) (hallowed : Progress.allowed C g (.removeFile name))
    (hstep : fs.Step i (.removeFile name) (.ok ()) fs') :
    ∃ addr, g.op = .forget addr ∧ g.promoted = false ∧ Dropped C addr fs₀ fs' := by
  obtain ⟨addr, protected_, hop, rfl, -⟩ := hallowed
  have hpromoted : g.promoted = false := by
    by_contra hpromoted
    obtain ⟨key, password, seed, hop', -⟩ := h.promoted (by simpa using hpromoted)
    rw [hop] at hop'
    cases hop'
  obtain ⟨⟨file, hfile⟩, rfl⟩ := hstep.removeFile_ok
  have hframe : ∀ addr' p, ¬(addr' = addr ∧ p = protected_) →
      (fs.erase (pathOf C addr protected_)).node (pathOf C addr' p) = fs.node (pathOf C addr' p) :=
    fun addr' p hne => Fs.node_erase_ne fs fun heq => hne ((pathOf_inj hV).mp heq)
  -- What the files were before this removal, whether or not it is the first.
  have hbefore : (∀ p, fs.node (pathOf C addr p) = none ∨
      fs.node (pathOf C addr p) = fs₀.node (pathOf C addr p)) ∧
      ∀ addr' p, addr' ≠ addr → fs.node (pathOf C addr' p) = fs₀.node (pathOf C addr' p) := by
    by_cases hremoved : g.removed = true
    · obtain ⟨addr', hop', hdropped⟩ := h.removed hremoved
      obtain rfl : addr' = addr := VaultOp.forget.inj (hop'.symm.trans hop)
      exact ⟨hdropped.left, hdropped.other⟩
    · have hsame := h.untouched hpromoted (by simpa using hremoved)
      exact ⟨fun p => .inr (hsame addr p), fun addr' p _ => hsame addr' p⟩
  refine ⟨addr, hop, hpromoted, ⟨protected_, ?_, Fs.node_erase_self _ _⟩, fun p => ?_, ?_⟩
  · rcases hbefore.1 protected_ with hnone | heq
    · rw [hnone] at hfile
      cases hfile
    · rw [← heq, hfile]
      rfl
  · by_cases hp : p = protected_
    · subst hp
      exact .inl (Fs.node_erase_self _ _)
    · rw [hframe addr p fun hpp => hp hpp.2]
      exact hbefore.1 p
  · intro addr' p hne
    rw [hframe addr' p fun hpp => hne hpp.1]
    exact hbefore.2 addr' p hne

/-- One call. -/
theorem Effect.step (hV : C.VaultLaws) {fs₀ fs fs' : Fs} {g : Progress Addr} {i : ℕ} {c : FsCall}
    {r : Except IoError c.Value} (h : Effect C fs₀ g fs) (hallowed : Progress.allowed C g c)
    (hstep : fs.Step i c r fs') : Effect C fs₀ (Progress.next C g c r) fs' := by
  have hwaiting := h.waiting.own hV hallowed hstep
  have habsent : (Progress.next C g c r).absent = true →
      Unheld C fs' (Progress.next C g c r).op := by
    intro ha
    rw [Progress.next_op]
    exact step_unheld hV hallowed hstep h.absent ha
  have hobserved := (step_observedFile hV hallowed hstep).trans h.observed
  by_cases hrename : (∃ src dest, c = .rename src dest) ∧ r.isOk = true
  · obtain ⟨⟨src, dest, rfl⟩, hok⟩ := hrename
    rcases r with e | v
    · cases hok
    obtain ⟨key, password, seed, hop, hremoved, hstored⟩ := h.rename hV hallowed hstep
    refine ⟨hwaiting, habsent, fun hp => ?_, fun _ => ⟨key, password, seed, ?_, hstored⟩,
      fun hr => ?_, hobserved⟩
    · cases hp
    · rwa [Progress.next_op]
    · rw [Progress.removed_next_eq (by simp), hremoved] at hr
      cases hr
  by_cases hremove : (∃ name, c = .removeFile name) ∧ r.isOk = true
  · obtain ⟨⟨name, rfl⟩, hok⟩ := hremove
    rcases r with e | v
    · cases hok
    obtain ⟨addr, hop, hpromoted, hdropped⟩ := h.removeFile hV hallowed hstep
    refine ⟨hwaiting, habsent, fun _ hr => ?_, fun hp => ?_, fun _ => ⟨addr, ?_, hdropped⟩,
      hobserved⟩
    · simp [Progress.next, Except.isOk, Except.toBool] at hr
    · rw [Progress.promoted_next_eq hrename, hpromoted] at hp
      cases hp
    · rwa [Progress.next_op]
  -- Any other call leaves the files of every account.
  have hsame := step_sameFiles hV hallowed hstep hrename hremove
  have hpromoted := Progress.promoted_next_eq (C := C) (g := g) hrename
  have hremoved := Progress.removed_next_eq (C := C) (g := g) hremove
  refine ⟨hwaiting, habsent, fun hp hr => ?_, fun hp => ?_, fun hr => ?_, hobserved⟩
  · exact (h.untouched (hpromoted ▸ hp) (hremoved ▸ hr)).trans hsame
  · obtain ⟨key, password, seed, hop, hstored⟩ := h.promoted (hpromoted ▸ hp)
    exact ⟨key, password, seed, by rwa [Progress.next_op], hstored.congr hsame⟩
  · obtain ⟨addr, hop, hdropped⟩ := h.removed (hremoved ▸ hr)
    exact ⟨addr, by rwa [Progress.next_op], hdropped.congr hsame⟩

/-! ### On a disk -/

/-- A sealed file opens only under a password its keystore takes. -/
theorem openSealed_run {disk disk' : Disk} {path : List Char} {password : String}
    {key : Ed25519SigningKey}
    (h : disk.run (openSealed C path password).run = (.ok key, disk')) :
    ∃ text synced, disk.fs.node path = some (.file ⟨.text text, synced⟩) ∧
      C.decryptKey (.text text) password = .ok key.bytes.toList := by
  unfold openSealed at h
  obtain ⟨text, disk₁, hread, h₁⟩ := Disk.run_bind_ok h
  obtain ⟨u, disk₂, hparams, h₂⟩ := Disk.run_bind_ok h₁
  obtain ⟨secret, disk₃, hdecrypt, h₃⟩ := Disk.run_bind_ok h₂
  obtain ⟨hfs, -⟩ := Disk.exec_readToString_ok (Disk.run_io_ok hread)
  obtain ⟨-, rfl⟩ := Disk.run_mk_ret_ok hparams
  obtain ⟨hkey, -⟩ := Disk.run_mk_ret_ok h₃
  cases hk : toKey secret with
  | none => rw [hk] at hkey; cases hkey
  | some key' =>
    rw [hk] at hkey
    cases hkey
    -- The keystore gives the bytes that the key is made of.
    have hsecret : secret = key.bytes.toList := by
      unfold toKey at hk
      split at hk <;> cases hk
      rfl
    subst hsecret
    unfold Disk.run at hdecrypt
    rw [ExceptT.run_mk, Prog.run_call] at hdecrypt
    generalize he : disk₂.exec (.readToString path) = answered at hdecrypt
    obtain ⟨e | text', disk₄⟩ := answered
    · cases hdecrypt
    · obtain ⟨-, synced, hnode⟩ := Disk.exec_readToString_ok he
      refine ⟨text', synced, by rw [← hfs]; exact hnode, ?_⟩
      have hd := congrArg Prod.fst hdecrypt
      dsimp only [Prog.run_ret] at hd
      generalize C.decryptKey (.text text') password = answer at hd ⊢
      rcases answer with e | s
      · cases e <;> cases hd
      · cases hd
        rfl

variable [DecidableEq Addr]

/-- What listing the accounts answers, by what reading the directory does. -/
theorem accounts_run_eq (disk : Disk) : (disk.run (accounts C).run).1 =
    match (disk.exec .readDir).1 with
    | .error .notFound => .ok []
    | .error e => .error (.io e)
    | .ok names => listing C names := by
  unfold Disk.run accounts
  rw [ExceptT.run_mk, Prog.run_call]
  rcases (disk.exec .readDir).1 with e | names
  · cases e <;> rfl
  · rfl

theorem accounts_run_disk (disk : Disk) :
    (disk.run (accounts C).run).2 = (disk.exec .readDir).2 := by
  unfold Disk.run accounts
  rw [ExceptT.run_mk, Prog.run_call]
  rcases (disk.exec .readDir).1 with e | names
  · cases e <;> rfl
  · rfl

/-- What listing answers, when it answers, is listed from the names in the directory. -/
theorem accounts_run_cases {disk : Disk} {l : List (StoredAccount Addr)}
    (h : (disk.run (accounts C).run).1 = .ok l) :
    disk.fs.dir = none ∧ l = [] ∨ ∃ names, listing C names = .ok l ∧
      ∀ name, .utf8 name ∈ names ↔ (disk.fs.node name).isSome := by
  have hstep := disk.exec_step .readDir
  rw [accounts_run_eq] at h
  generalize (disk.exec .readDir).1 = answer at h hstep
  rcases answer with e | names
  · cases e with
    | notFound =>
      cases h
      exact .inl ⟨hstep.readDir_notFound, rfl⟩
    | _ => cases h
  · obtain ⟨-, -, hnames⟩ := hstep.readDir_ok
    exact .inr ⟨names, h, hnames⟩

/-- What listing answers, when it answers: every account with a file, once. -/
theorem accounts_run (hV : C.VaultLaws) {disk : Disk} {l : List (StoredAccount Addr)}
    (h : (disk.run (accounts C).run).1 = .ok l) :
    (l.map (·.addr)).Nodup ∧ ∀ account : StoredAccount Addr,
      account ∈ l ↔ (disk.fs.node (pathOf C account.addr account.protected_)).isSome := by
  rcases accounts_run_cases h with ⟨hdir, rfl⟩ | ⟨names, hlisting, hnames⟩
  · exact ⟨List.nodup_nil, fun account => by simp [Fs.node, hdir]⟩
  · exact ⟨listing_nodup hlisting, fun account => (mem_listing hV hlisting).trans (hnames _)⟩

/-- And in address order. -/
theorem accounts_run_sorted {disk : Disk} {l : List (StoredAccount Addr)}
    (h : (disk.run (accounts C).run).1 = .ok l) :
    l.Pairwise fun a b => C.addrText a.addr ≤ C.addrText b.addr := by
  rcases accounts_run_cases h with ⟨-, rfl⟩ | ⟨names, hlisting, -⟩
  · exact .nil
  · exact listing_sorted hlisting

/-- An account listed is listed once, so it has one spelling. -/
theorem not_doubled_of_accounts_run (hV : C.VaultLaws) {disk : Disk}
    {l : List (StoredAccount Addr)} (h : (disk.run (accounts C).run).1 = .ok l) (addr : Addr) :
    ¬Doubled C disk.fs addr := by
  obtain ⟨hnd, hmem⟩ := accounts_run hV h
  rintro ⟨ht, hf⟩
  have hmt : (⟨addr, true⟩ : StoredAccount Addr) ∈ l := (hmem _).mpr ht
  have hmf : (⟨addr, false⟩ : StoredAccount Addr) ∈ l := (hmem _).mpr hf
  have heq := List.inj_on_of_nodup_map hnd hmt hmf rfl
  cases heq

theorem create_run (hV : C.VaultLaws) (key : Ed25519SigningKey) (password : Option String)
    (seed : ℕ) (disk : Disk) :
    (disk.run (create C key password seed).run).2.fs.node Observed.observedFile =
        disk.fs.node Observed.observedFile ∧
      match (disk.run (create C key password seed).run).1 with
      | .ok addr => addr = C.addrOf key ∧
        Stored C key password seed disk.fs (disk.run (create C key password seed).run).2.fs
      | .error _ => SameFiles C disk.fs (disk.run (create C key password seed).run).2.fs := by
  obtain ⟨g, heffect, ⟨hop, hres⟩, -, -⟩ := Disk.run_keeps (J := fun fs g => Effect C disk.fs g fs)
    (fun fs g c r fs' hJ hallowed hstep => hJ.step hV hallowed hstep)
    (keeps_create hV key password seed) (.refl disk.fs _)
  refine ⟨heffect.observed, ?_⟩
  rcases hres with ⟨hres, hpromoted⟩ | ⟨⟨e, hres⟩, hpromoted⟩
  · rw [hres]
    obtain ⟨key', password', seed', hop', hstored⟩ := heffect.promoted hpromoted
    obtain ⟨rfl, rfl, rfl⟩ := VaultOp.create.inj (hop'.symm.trans hop)
    exact ⟨rfl, hstored⟩
  · rw [hres]
    apply heffect.untouched hpromoted
    by_contra hremoved
    obtain ⟨addr, hop', -⟩ := heffect.removed (by simpa using hremoved)
    rw [hop] at hop'
    cases hop'

theorem forget_run (hV : C.VaultLaws) (addr : Addr) (disk : Disk) :
    (disk.run (forget C addr).run).2.fs.node Observed.observedFile =
        disk.fs.node Observed.observedFile ∧
      match (disk.run (forget C addr).run).1 with
      | .ok _ => Dropped C addr disk.fs (disk.run (forget C addr).run).2.fs ∧
        ¬Present C (disk.run (forget C addr).run).2.fs addr
      | .error _ => SameFiles C disk.fs (disk.run (forget C addr).run).2.fs := by
  obtain ⟨g, heffect, hop, -, -, hres⟩ := Disk.run_keeps (J := fun fs g => Effect C disk.fs g fs)
    (fun fs g c r fs' hJ hallowed hstep => hJ.step hV hallowed hstep) (keeps_forget addr)
    (.refl disk.fs _)
  refine ⟨heffect.observed, ?_⟩
  rcases hres with ⟨hres, hremoved⟩ | ⟨⟨e, hres⟩, hremoved⟩
  · have hsingle : ¬Doubled C disk.fs addr := by
      -- It listed the accounts before it went on.
      have hrun : disk.run (forget C addr).run =
          (.ok (), (disk.run (forget C addr).run).2) := by rw [← hres]
      unfold forget at hrun
      obtain ⟨l, disk₁, hlist, -⟩ := Disk.run_bind_ok hrun
      exact not_doubled_of_accounts_run hV (by rw [hlist]) addr
    rw [hres]
    obtain ⟨addr', hop', hdropped⟩ := heffect.removed hremoved
    obtain rfl := VaultOp.forget.inj (hop'.symm.trans hop)
    exact ⟨hdropped, hdropped.not_present hsingle⟩
  · rw [hres]
    apply heffect.untouched _ hremoved
    by_contra hpromoted
    obtain ⟨key, password, seed, hop', -⟩ := heffect.promoted (by simpa using hpromoted)
    rw [hop] at hop'
    cases hop'

/-- Opening answers only the key of the account, and only to a caller whose choice of password is
the one the file's name says; where it is sealed, the password has to open the file. -/
theorem openKey_run (hV : C.VaultLaws) {disk disk' : Disk} {addr : Addr}
    {password : Option String} {key : Ed25519SigningKey}
    (h : disk.run (openKey C addr password).run = (.ok key, disk')) :
    C.addrOf key = addr ∧ (disk.fs.node (pathOf C addr password.isSome)).isSome ∧
      ¬Doubled C disk.fs addr ∧
      ∀ chosen, password = some chosen → ∃ text synced,
        disk.fs.node (pathOf C addr true) = some (.file ⟨.text text, synced⟩) ∧
          C.decryptKey (.text text) chosen = .ok key.bytes.toList := by
  unfold openKey at h
  obtain ⟨l, disk₁, hlist, h₁⟩ := Disk.run_bind_ok h
  clear h
  have hfs : disk₁.fs = disk.fs := by
    have := (accounts_readOnly (C := C)).run_fs disk
    rwa [hlist] at this
  have hl : (disk.run (accounts C).run).1 = .ok l := by rw [hlist]
  obtain ⟨hnd, hmem⟩ := accounts_run hV hl
  -- What is listed is opened by its own name, and the key in it checked.
  split at h₁
  · next held hfind =>
    obtain ⟨haddr, -⟩ := List.find?_eq_some_iff_append.mp hfind
    obtain rfl : held.addr = addr := by simpa using haddr
    have hheld := (hmem held).mp (List.mem_of_find?_eq_some hfind)
    obtain ⟨key', disk₂, hopen, h₂⟩ := Disk.run_bind_ok h₁
    clear h₁
    dsimp only at h₂
    split at h₂
    · exact (Disk.run_throw_ok h₂).elim
    · next hkey =>
      obtain ⟨rfl, -⟩ : key' = key ∧ disk₂ = disk' := by
        obtain ⟨hkey', hdisk⟩ := Disk.run_mk_ret_ok (r := .ok key') h₂
        exact ⟨Except.ok.inj hkey', hdisk.symm⟩
      refine ⟨not_not.mp hkey, ?_, not_doubled_of_accounts_run hV hl _, ?_⟩
      · split at hopen
        · next hp => rw [hp] at hheld; exact hheld
        · next hp => rw [hp] at hheld; exact hheld
        · exact (Disk.run_throw_ok hopen).elim
        · exact (Disk.run_throw_ok hopen).elim
      · rintro chosen rfl
        split at hopen
        · next chosen' hp heq =>
          cases heq
          rw [hp] at hopen
          obtain ⟨text, synced, hnode, hdec⟩ := openSealed_run hopen
          exact ⟨text, synced, hfs ▸ hnode, hdec⟩
        · next heq => cases heq
        · next heq => cases heq
        · exact (Disk.run_throw_ok hopen).elim
  · exact (Disk.run_throw_ok h₁).elim

end AccountLogUi.Vault
