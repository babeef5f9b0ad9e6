import AccountLogUi.Fs.Equiv.Calls
import AccountLogUi.Vault.Equiv.Protocol

/-!
# What the lock keeps

`step_pathOf` says all a call of a running operation can do to a file under an account's name:
nothing, or, of a create that holds the lock and saw the account absent, put its staged file
there, or, of a forget that holds the lock, take the file away.

`Locking` is what holds in every reachable state of the processes: an operation that thinks it
holds the lock is the one the lock is held by, one that saw an account absent under the lock is
right about it for as long as it holds the lock, and no account has both spellings.
-/

namespace AccountLogUi.Vault

variable {Addr : Type} {C : Crates Addr}

/-! ### One step of progress -/

@[simp] theorem Progress.next_op (g : Progress Addr) (c : FsCall) (r : Except IoError c.Value) :
    (Progress.next C g c r).op = g.op := by
  cases c <;> dsimp only [Progress.next]
  · split <;> rfl
  · split <;> rfl

/-- An operation holds the lock because it held it, or because it just took it. -/
theorem Progress.locked_next {g : Progress Addr} {c : FsCall} {r : Except IoError c.Value}
    (h : (Progress.next C g c r).locked = true) :
    g.locked = true ∧ c ≠ .unlock ∨ c = .tryLock ∧ ∃ v, r = .ok v := by
  cases c <;> dsimp only [Progress.next] at h
  case readDir => split at h <;> exact .inl ⟨h, by simp⟩
  case tryLock =>
    rcases r with e | v
    · exact .inl ⟨by simpa [Except.isOk, Except.toBool] using h, by simp⟩
    · exact .inr ⟨rfl, v, rfl⟩
  case unlock => cases h
  case rename => split at h <;> exact .inl ⟨h, by simp⟩
  all_goals exact .inl ⟨h, by simp⟩

/-- Between listings, an operation goes on taking an account for absent until it gives the lock up
or renames its file. -/
theorem Progress.absent_next {g : Progress Addr} {c : FsCall} {r : Except IoError c.Value}
    (hc : c ≠ .readDir) (h : (Progress.next C g c r).absent = true) :
    g.absent = true ∧ c ≠ .unlock ∧ ∀ src dest, c = .rename src dest → r.isOk = false := by
  cases c <;> dsimp only [Progress.next] at h
  case readDir => exact absurd rfl hc
  case unlock => cases h
  case rename =>
    split at h
    · cases h
    · next hok => exact ⟨h, by simp, fun _ _ _ => by simpa using hok⟩
  all_goals exact ⟨h, by simp, by simp⟩

/-- An operation has promoted its file because it had, or because it just renamed it. -/
theorem Progress.promoted_next {g : Progress Addr} {c : FsCall} {r : Except IoError c.Value}
    (h : (Progress.next C g c r).promoted = true) :
    g.promoted = true ∨ ∃ src dest, c = .rename src dest ∧ r.isOk = true := by
  cases c <;> dsimp only [Progress.next] at h
  case readDir => split at h <;> exact .inl h
  case rename =>
    split at h
    · next hok => exact .inr ⟨_, _, rfl, hok⟩
    · exact .inl h
  all_goals exact .inl h

/-! ### One call -/

/-- All that an allowed call can do to a file under an account's name. -/
theorem step_pathOf (hV : C.VaultLaws) {g : Progress Addr} {i : ℕ} {fs fs' : Fs} {c : FsCall}
    {r : Except IoError c.Value} (hallowed : Progress.allowed C g c) (hstep : fs.Step i c r fs')
    (addr : Addr) (protected_ : Bool) :
    fs'.node (pathOf C addr protected_) = fs.node (pathOf C addr protected_) ∨
    (∃ key password seed file, g.op = .create key password seed ∧ addr = C.addrOf key ∧
      protected_ = password.isSome ∧
      c = .rename (.staged (stageName C addr)) (pathOf C addr protected_) ∧ r.isOk = true ∧
      g.locked = true ∧ g.absent = true ∧ g.staged = true ∧ g.synced = true ∧
      fs.staged (stageName C addr) = some file ∧
      fs'.node (pathOf C addr protected_) = some (.file file)) ∨
    (g.op = .forget addr ∧ c = .removeFile (pathOf C addr protected_) ∧ r.isOk = true ∧
      g.locked = true ∧ (fs.node (pathOf C addr protected_)).isSome ∧
      fs'.node (pathOf C addr protected_) = none) := by
  have hstage : ∀ key, pathOf C addr protected_ ≠ stageName C (C.addrOf key) :=
    fun key => pathOf_ne_stageName hV _ _ _
  cases c
  case removeDirAll name =>
    obtain ⟨key, password, seed, hop, rfl⟩ := hallowed
    exact .inl (hstep.node_eq (by simpa [FsCall.changes] using hstage key))
  case createDir name =>
    obtain ⟨key, password, seed, hop, rfl⟩ := hallowed
    exact .inl (hstep.node_eq (by simpa [FsCall.changes] using hstage key))
  case write path content =>
    obtain ⟨key, password, seed, hop, rfl, -⟩ := hallowed
    exact .inl (hstep.node_eq (by simpa [FsCall.changes, Path.name] using hstage key))
  case openLock name =>
    obtain rfl : name = lockFile := hallowed
    exact .inl (hstep.node_eq (by simpa [FsCall.changes] using pathOf_ne_lockFile hV _ _))
  case syncAll path =>
    obtain ⟨key, password, seed, hop, rfl⟩ := hallowed
    exact .inl (hstep.node_eq (by simpa [FsCall.changes, Path.name] using hstage key))
  case rename src dest =>
    obtain ⟨key, password, seed, hop, rfl, rfl, hlocked, habsent, hstaged, hsynced⟩ := hallowed
    rcases r with e | v
    · rw [hstep.error_eq (by simp) (by simp)]
      exact .inl rfl
    -- Of all names, a create gives a file to its own.
    by_cases hdest : addr = C.addrOf key ∧ protected_ = password.isSome
    · obtain ⟨rfl, rfl⟩ := hdest
      obtain ⟨file, hfile, hnode, -⟩ := hstep.rename_staged_ok (hstage key)
      exact .inr (.inl ⟨key, password, seed, file, hop, rfl, rfl, rfl, rfl, hlocked, habsent,
        hstaged, hsynced, hfile, hnode⟩)
    · have hne : pathOf C addr protected_ ≠ pathOf C (C.addrOf key) password.isSome :=
        fun h => hdest ((pathOf_inj hV).mp h)
      exact .inl (hstep.node_eq (FsCall.not_mem_changes_rename hne (hstage key)))
  case removeFile name =>
    obtain ⟨addr', protected', hop, rfl, hlocked⟩ := hallowed
    rcases r with e | v
    · rw [hstep.error_eq (by simp) (by simp)]
      exact .inl rfl
    -- And a forget takes one from its own.
    by_cases hname : addr = addr' ∧ protected_ = protected'
    · obtain ⟨rfl, rfl⟩ := hname
      obtain ⟨⟨file, hfile⟩, rfl⟩ := hstep.removeFile_ok
      exact .inr (.inr ⟨hop, rfl, rfl, hlocked, by rw [hfile]; rfl, Fs.node_erase_self _ _⟩)
    · have hne : pathOf C addr protected_ ≠ pathOf C addr' protected' :=
        fun h => hname ((pathOf_inj hV).mp h)
      exact .inl (hstep.node_eq (by simpa [FsCall.changes] using hne))
  all_goals exact .inl (hstep.node_eq (by simp [FsCall.changes]))

/-- A call of one process leaves the lock with whoever else holds it. -/
theorem step_lock {i j : ℕ} {fs fs' : Fs} {c : FsCall} {r : Except IoError c.Value}
    (hstep : fs.Step i c r fs') (hlock : fs.lock = some j) (hne : j ≠ i ∨ c ≠ .unlock) :
    fs'.lock = some j := by
  by_cases ht : c = .tryLock
  · subst ht
    rcases r with e | v
    · rw [hstep.error_eq (by simp) (by simp)]
      exact hlock
    · rw [hstep.tryLock_ok.1] at hlock
      cases hlock
  by_cases hu : c = .unlock
  · subst hu
    have hji : j ≠ i := hne.resolve_right (by simp)
    rw [hstep.unlock_eq, if_neg (by rw [hlock]; simpa using hji)]
    exact hlock
  · rw [hstep.lock_eq ht hu]
    exact hlock

/-- The account a create is for has no file. -/
def Unheld (C : Crates Addr) (fs : Fs) (op : VaultOp Addr) : Prop :=
  ∀ key password seed, op = .create key password seed → ¬Present C fs (C.addrOf key)

/-- An operation that takes an account for absent is right about it after its own call. -/
theorem step_unheld (hV : C.VaultLaws) {g : Progress Addr} {i : ℕ} {fs fs' : Fs} {c : FsCall}
    {r : Except IoError c.Value} (hallowed : Progress.allowed C g c) (hstep : fs.Step i c r fs')
    (hbefore : g.absent = true → Unheld C fs g.op)
    (h : (Progress.next C g c r).absent = true) : Unheld C fs' g.op := by
  by_cases hc : c = .readDir
  · subst hc
    dsimp only [Progress.next] at h
    split at h
    · next names =>
      -- The directory was listed, and shows no file of the account.
      obtain ⟨rfl, -, hnames⟩ := hstep.readDir_ok
      obtain ⟨-, hshows⟩ := Bool.and_eq_true_iff.mp h
      rintro key password seed hop ⟨protected_, hsome⟩
      rw [hop] at hshows
      have hmem := (hnames _).mpr hsome
      simp only [Progress.showsAbsent, List.all_cons, List.all_nil, Bool.and_true,
        Bool.and_eq_true, decide_eq_true_eq] at hshows
      cases protected_ with
      | true => exact hshows.1 hmem
      | false => exact hshows.2 hmem
    · -- There is no directory.
      have hdir := hstep.readDir_notFound
      rw [hstep.error_eq (by simp) (by simp)]
      rintro key password seed hop ⟨protected_, hsome⟩
      simp [Fs.node, hdir] at hsome
    · rw [hstep.error_eq (by simp) (by simp)]
      exact hbefore h
  · obtain ⟨habsent, -, hrename⟩ := Progress.absent_next hc h
    rintro key password seed hop ⟨protected_, hsome⟩
    apply hbefore habsent key password seed hop
    rcases step_pathOf hV hallowed hstep (C.addrOf key) protected_ with
      heq | ⟨-, -, -, -, -, -, -, hren, hok, -⟩ | ⟨-, -, -, -, -, hnone⟩
    · exact ⟨protected_, by rwa [← heq]⟩
    · rw [hrename _ _ hren] at hok
      cases hok
    · rw [hnone] at hsome
      cases hsome

/-! ### Every reachable state -/

/-- What holds in every reachable state. -/
structure Locking (C : Crates Addr) (s : VaultState Addr) : Prop where
  /-- Progress is kept of the operation that is running. -/
  op_eq : ∀ i t, s.running i = some t → t.ghost.op = t.op
  /-- Who thinks it holds the lock holds it. -/
  owner : ∀ i t, s.running i = some t → t.ghost.locked = true → s.shared.lock = some i
  /-- Who takes an account for absent holds the lock. -/
  absent_locked : ∀ i t, s.running i = some t → t.ghost.absent = true → t.ghost.locked = true
  /-- Who takes an account for absent is right. -/
  absent : ∀ i t, s.running i = some t → t.ghost.absent = true → Unheld C s.shared t.ghost.op
  /-- No account has both spellings. -/
  single : ∀ addr, ¬Doubled C s.shared addr

theorem Locking.idle {fs : Fs} (h : ∀ addr, ¬Doubled C fs addr) :
    Locking C (.idle fs : VaultState Addr) where
  op_eq i t hi := by cases hi
  owner i t hi := by cases hi
  absent_locked i t hi := by cases hi
  absent i t hi := by cases hi
  single := h

/-- Two operations do not both hold the lock. -/
theorem Locking.exclusive {s : VaultState Addr} (hs : Locking C s) {i j : ℕ}
    {t u : Thread fsSig (Progress Addr) (VaultOp Addr) (VaultResult Addr)}
    (hi : s.running i = some t) (hj : s.running j = some u) (ht : t.ghost.locked = true)
    (hu : u.ghost.locked = true) : i = j := by
  have h := (hs.owner i t hi ht).symm.trans (hs.owner j u hj hu)
  exact Option.some.inj h

theorem Locking.returned {s : VaultState Addr} (hs : Locking C s) (i : ℕ) (op : VaultOp Addr)
    (res : VaultResult Addr) : Locking C (s.returned i op res) := by
  have hrun : ∀ j t, (s.returned i op res).running j = some t → s.running j = some t := by
    intro j t hj
    rcases eq_or_ne j i with rfl | hne
    · simp [Threads.State.returned] at hj
    · simpa [Threads.State.returned, hne] using hj
  exact ⟨fun j t hj => hs.op_eq j t (hrun j t hj), fun j t hj => hs.owner j t (hrun j t hj),
    fun j t hj => hs.absent_locked j t (hrun j t hj), fun j t hj => hs.absent j t (hrun j t hj),
    hs.single⟩

/-- One call of one process. -/
theorem Locking.called (hV : C.VaultLaws) {s : VaultState Addr} (hs : Locking C s) {i : ℕ}
    {op : VaultOp Addr} {g : Progress Addr} {c : FsCall}
    {k : Except IoError c.Value → Prog fsSig (VaultResult Addr)} {r : Except IoError c.Value}
    {fs' : Fs} (hrun : s.running i = some ⟨op, .call c k, g⟩)
    (hallowed : Progress.allowed C g c) (hstep : s.shared.Step i c r fs') :
    Locking C (s.called i op c r fs' ⟨op, k r, Progress.next C g c r⟩) := by
  have hop : g.op = op := hs.op_eq i _ hrun
  have hcases : ∀ j t, (s.called i op c r fs' ⟨op, k r, Progress.next C g c r⟩).running j = some t →
      j = i ∧ t = ⟨op, k r, Progress.next C g c r⟩ ∨ j ≠ i ∧ s.running j = some t := by
    intro j t hj
    rcases eq_or_ne j i with rfl | hne
    · exact .inl ⟨rfl, by simpa [Threads.State.called, eq_comm] using hj⟩
    · exact .inr ⟨hne, by simpa [Threads.State.called, hne] using hj⟩
  constructor
  · intro j t hj
    rcases hcases j t hj with ⟨rfl, rfl⟩ | ⟨hne, hj⟩
    · exact (Progress.next_op g c r).trans hop
    · exact hs.op_eq j t hj
  -- The lock is taken by `tryLock`, and no call of another process frees it.
  · intro j t hj ht
    rcases hcases j t hj with ⟨rfl, rfl⟩ | ⟨hne, hj⟩
    · rcases Progress.locked_next ht with ⟨hlocked, hc⟩ | ⟨rfl, v, rfl⟩
      · exact step_lock hstep (hs.owner j _ hrun hlocked) (.inr hc)
      · show fs'.lock = some j
        rw [hstep.tryLock_ok.2]
    · exact step_lock hstep (hs.owner j t hj ht) (.inl hne)
  -- The directory is found without the account only under the lock.
  · intro j t hj ht
    rcases hcases j t hj with ⟨rfl, rfl⟩ | ⟨hne, hj⟩
    · by_cases hc : c = .readDir
      · subst hc
        dsimp only [Progress.next] at ht ⊢
        split at ht
        · exact (Bool.and_eq_true_iff.mp ht).1
        · exact (Bool.and_eq_true_iff.mp ht).1
        · exact hs.absent_locked j _ hrun ht
      · obtain ⟨habsent, hunlock, -⟩ := Progress.absent_next hc ht
        have hlocked : g.locked = true := hs.absent_locked j _ hrun habsent
        cases c <;> dsimp only [Progress.next]
        case unlock => exact absurd rfl hunlock
        case readDir => exact absurd rfl hc
        case tryLock => rw [hlocked, Bool.true_or]
        case rename => split <;> exact hlocked
        all_goals exact hlocked
    · exact hs.absent_locked j t hj ht
  · intro j t hj ht
    rcases hcases j t hj with ⟨rfl, rfl⟩ | ⟨hne, hj⟩
    · show Unheld C fs' (Progress.next C g c r).op
      rw [Progress.next_op]
      exact step_unheld hV hallowed hstep (hs.absent j _ hrun) ht
    · -- Only the process with the lock could give the account a file, and that is `j`.
      rintro key password seed hkey ⟨protected_, hsome⟩
      apply hs.absent j t hj ht key password seed hkey
      rcases step_pathOf hV hallowed hstep (C.addrOf key) protected_ with
        heq | ⟨-, -, -, -, -, -, -, -, -, hlocked, -⟩ | ⟨-, -, -, -, -, hnone⟩
      · exact ⟨protected_, by rwa [← heq]⟩
      · exact absurd (hs.exclusive hj hrun (hs.absent_locked j t hj ht) hlocked) hne
      · have hsome' : (fs'.node (pathOf C (C.addrOf key) protected_)).isSome := hsome
        rw [hnone] at hsome'
        cases hsome'
  · rintro addr ⟨htrue, hfalse⟩
    -- A file that was not there before is one the account had none beside.
    have hnew : ∀ protected_, (fs'.node (pathOf C addr protected_)).isSome →
        (s.shared.node (pathOf C addr protected_)).isSome ∨
          fs'.node (pathOf C addr !protected_) = s.shared.node (pathOf C addr !protected_) ∧
            ¬Present C s.shared addr := by
      intro protected_ hsome
      rcases step_pathOf hV hallowed hstep addr protected_ with
        heq | ⟨key, password, seed, file, hkey, rfl, rfl, rfl, -, -, habsent, -⟩ |
        ⟨-, -, -, -, -, hnone⟩
      · exact .inl (by rwa [← heq])
      · refine .inr ⟨?_, hs.absent i _ hrun habsent key password seed hkey⟩
        have hne : pathOf C (C.addrOf key) (!password.isSome) ≠
            pathOf C (C.addrOf key) password.isSome := by
          intro h
          exact Bool.not_ne_self _ ((pathOf_inj hV).mp h).2
        exact hstep.node_eq (FsCall.not_mem_changes_rename hne (pathOf_ne_stageName hV _ _ _))
      · rw [hnone] at hsome
        cases hsome
    have hleft : ∀ protected_, ¬((fs'.node (pathOf C addr !protected_)).isSome ∧
        fs'.node (pathOf C addr !protected_) = s.shared.node (pathOf C addr !protected_) ∧
          ¬Present C s.shared addr) := by
      rintro protected_ ⟨hsome, heq, habsent⟩
      exact habsent ⟨!protected_, by rwa [← heq]⟩
    rcases hnew true htrue with ht | ht
    · rcases hnew false hfalse with hf | hf
      · exact hs.single addr ⟨ht, hf⟩
      · exact hleft false ⟨htrue, hf⟩
    · exact hleft true ⟨hfalse, ht⟩

variable [DecidableEq Addr]

theorem Locking.start {s : VaultState Addr} (hs : Locking C s) (i : ℕ) (op : VaultOp Addr) :
    Locking C (s.start i ((processes C).thread op)) := by
  have hrun : ∀ j t, (s.start i ((processes C).thread op)).running j = some t →
      s.running j = some t ∨ t = (processes C).thread op := by
    intro j t hj
    rcases eq_or_ne j i with rfl | hne
    · exact .inr (by simpa [Threads.State.start, eq_comm] using hj)
    · exact .inl (by simpa [Threads.State.start, hne] using hj)
  constructor
  · intro j t hj
    rcases hrun j t hj with hj | rfl
    · exact hs.op_eq j t hj
    · rfl
  · intro j t hj ht
    rcases hrun j t hj with hj | rfl
    · exact hs.owner j t hj ht
    · cases ht
  · intro j t hj ht
    rcases hrun j t hj with hj | rfl
    · exact hs.absent_locked j t hj ht
    · cases ht
  · intro j t hj ht
    rcases hrun j t hj with hj | rfl
    · exact hs.absent j t hj ht
    · cases ht
  · exact hs.single

/-- A call that does not fail is one a process can make. -/
theorem processes_exec (C : Crates Addr) (i : ℕ) (fs : Fs) (c : FsCall) :
    (processes C).exec i fs c (fs.perform i c).1 (fs.perform i c).2 := ⟨none, rfl⟩

/-- Every reachable state is one in which the lock keeps what it is there for. -/
theorem Locking.reaches (hV : C.VaultLaws) {guard : VaultState Addr → ℕ → FsCall → Prop} {fs : Fs}
    (hfs : ∀ addr, ¬Doubled C fs addr) {s : VaultState Addr}
    (h : (processes C).Reaches guard (.idle fs) s) :
    (processes C).Kept (Finished C) s ∧ Locking C s :=
  Threads.invariant (VaultOp.keeps hV) (fun _ i op hs _ => hs.start i op)
    (fun _ _ _ _ _ _ _ _ hs hrun hallowed _ hstep => hs.called hV hrun hallowed hstep)
    (fun _ i op _ res hs _ _ => hs.returned i op res) h (Threads.kept_idle fs) (.idle hfs)

end AccountLogUi.Vault
