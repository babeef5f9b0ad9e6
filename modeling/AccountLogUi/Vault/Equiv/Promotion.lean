import AccountLogUi.Vault.Equiv.Concurrency
import AccountLogUi.Vault.Equiv.Open

/-!
# What a create leaves under the account's name

Where the processes leave each other's stages alone while a key file waits there (`apart`), the
file a create promotes is the one it wrote: `Watched.waiting` follows the file in the stage,
`Watched.promoted` from its promotion on, and `Watched.answered` says that a create that answered
`Ok` made that promotion itself.  `created_file_is_its_creators` puts the three together.
-/

namespace AccountLogUi.Vault

variable {Addr : Type} {C : Crates Addr}

/-! ### The stage -/

/-- A call that does not disturb a stage leaves the file waiting there, and at most syncs it. -/
theorem step_stage (hV : C.VaultLaws) {g : Progress Addr} {i : ℕ} {fs fs' : Fs} {c : FsCall}
    {r : Except IoError c.Value} (hallowed : Progress.allowed C g c) (hstep : fs.Step i c r fs')
    {addr : Addr} (hleft : disturbs (stageName C addr) c = false) {file : File}
    (hfile : fs.staged (stageName C addr) = some file) :
    ∃ synced, fs'.staged (stageName C addr) = some ⟨file.content, synced⟩ ∧
      (file.synced = true → synced = true) := by
  have hsame : fs'.node (stageName C addr) = fs.node (stageName C addr) →
      ∃ synced, fs'.staged (stageName C addr) = some ⟨file.content, synced⟩ ∧
        (file.synced = true → synced = true) := by
    intro h
    exact ⟨file.synced, by rw [Fs.staged_congr h, hfile], id⟩
  have hsome : (fs.node (stageName C addr)).isSome := by
    rw [Fs.node_eq_of_staged hfile]
    rfl
  cases c
  case removeDirAll name =>
    have hne : stageName C addr ≠ name := by
      rintro rfl
      simp [disturbs] at hleft
    exact hsame (hstep.node_eq (by simpa [FsCall.changes] using hne))
  case createDir name =>
    by_cases hname : stageName C addr = name
    · subst hname
      exact hsame (by rw [hstep.createDir_eq hsome])
    · exact hsame (hstep.node_eq (by simpa [FsCall.changes] using hname))
  case write path content =>
    obtain ⟨key, password, seed, hop, rfl, -⟩ := hallowed
    have hne : stageName C addr ≠ stageName C (C.addrOf key) := by
      intro h
      simp [disturbs, h] at hleft
    exact hsame (hstep.node_eq (by simpa [FsCall.changes, Path.name] using hne))
  case openLock name =>
    obtain rfl : name = lockFile := hallowed
    exact hsame (hstep.node_eq (by simpa [FsCall.changes] using stageName_ne_lockFile C addr))
  case syncAll path =>
    obtain ⟨key, password, seed, hop, rfl⟩ := hallowed
    rcases r with e | v
    · exact hsame (by rw [hstep.error_eq (by simp) (by simp)])
    -- A sync of the stage itself is all that changes it.
    by_cases hname : stageName C addr = stageName C (C.addrOf key)
    · rw [← hname] at hstep
      obtain ⟨file', hfile', hnew⟩ := hstep.syncAll_staged_ok
      obtain rfl : file = file' := Option.some.inj (hfile.symm.trans hfile')
      exact ⟨true, hnew, fun _ => rfl⟩
    · exact hsame (hstep.node_eq (by simpa [FsCall.changes, Path.name] using hname))
  case rename src dest =>
    obtain ⟨key, password, seed, hop, rfl, rfl, -⟩ := hallowed
    have hne : stageName C addr ≠ stageName C (C.addrOf key) := by
      intro h
      simp [disturbs, h] at hleft
    exact hsame (hstep.node_eq
      (FsCall.not_mem_changes_rename (pathOf_ne_stageName hV _ _ _).symm hne))
  case removeFile name =>
    obtain ⟨addr', protected_, hop, rfl, -⟩ := hallowed
    exact hsame (hstep.node_eq
      (by simpa [FsCall.changes] using (pathOf_ne_stageName hV addr' addr protected_).symm))
  all_goals exact hsame (hstep.node_eq (by simp [FsCall.changes]))

/-- An operation has its file in the stage because it just wrote it there, or because it had and
did not disturb it. -/
theorem Progress.staged_next {g : Progress Addr} {c : FsCall} {r : Except IoError c.Value}
    (stage : List Char) (h : (Progress.next C g c r).staged = true) :
    (∃ path content, c = .write path content ∧ r.isOk = true) ∨
      g.staged = true ∧ (disturbs stage c = false ∨ (∃ src dest, c = .rename src dest) ∧
        r.isOk = false) := by
  cases c <;> dsimp only [Progress.next] at h
  case readDir => split at h <;> exact .inr ⟨h, .inl rfl⟩
  case removeDirAll => cases h
  case write => exact .inl ⟨_, _, rfl, h⟩
  case rename =>
    split at h
    · cases h
    · next hok => exact .inr ⟨h, .inr ⟨⟨_, _, rfl⟩, by simpa using hok⟩⟩
  all_goals exact .inr ⟨h, .inl rfl⟩

/-- Its file is synced because it was, or because it just synced it. -/
theorem Progress.synced_next {g : Progress Addr} {c : FsCall} {r : Except IoError c.Value}
    (h : (Progress.next C g c r).synced = true) :
    g.synced = true ∧ (∀ path content, c ≠ .write path content) ∨
      (∃ path, c = .syncAll path) ∧ r.isOk = true := by
  cases c <;> dsimp only [Progress.next] at h
  case readDir => split at h <;> exact .inl ⟨h, by simp⟩
  case removeDirAll => cases h
  case write => cases h
  case syncAll =>
    rcases Bool.or_eq_true_iff.mp h with h | h
    · exact .inl ⟨h, by simp⟩
    · exact .inr ⟨⟨_, rfl⟩, h⟩
  case rename => split at h <;> exact .inl ⟨h, by simp⟩
  all_goals exact .inl ⟨h, by simp⟩

/-- The file an operation has waiting in its stage is the one it wrote, and is synced once it
synced it. -/
def Waiting (C : Crates Addr) (fs : Fs) (g : Progress Addr) : Prop :=
  ∀ key password seed, g.op = .create key password seed → g.staged = true →
    ∃ synced, fs.staged (stageName C (C.addrOf key)) = some ⟨keyFile C key password seed, synced⟩ ∧
      (g.synced = true → synced = true)

/-- An operation's own call keeps its file. -/
theorem Waiting.own (hV : C.VaultLaws) {g : Progress Addr} {i : ℕ} {fs fs' : Fs} {c : FsCall}
    {r : Except IoError c.Value} (hw : Waiting C fs g) (hallowed : Progress.allowed C g c)
    (hstep : fs.Step i c r fs') : Waiting C fs' (Progress.next C g c r) := by
  intro key password seed hop hstaged
  rw [Progress.next_op] at hop
  rcases Progress.staged_next (stageName C (C.addrOf key)) hstaged with
    ⟨path, content, rfl, hok⟩ | ⟨hbefore, hleft⟩
  · rcases r with e | v
    · cases hok
    obtain ⟨key', password', seed', hop', rfl, rfl⟩ := hallowed
    obtain ⟨rfl, rfl, rfl⟩ := VaultOp.create.inj (hop'.symm.trans hop)
    exact ⟨false, hstep.write_staged_ok, fun h => by cases h⟩
  obtain ⟨synced, hfile, hsynced⟩ := hw key password seed hop hbefore
  rcases hleft with hleft | ⟨⟨src, dest, rfl⟩, hok⟩
  · by_cases hsync : (∃ path, c = .syncAll path) ∧ r.isOk = true
    · obtain ⟨⟨path, rfl⟩, hok⟩ := hsync
      rcases r with e | v
      · cases hok
      obtain ⟨key', password', seed', hop', rfl⟩ := hallowed
      obtain ⟨rfl, rfl, rfl⟩ := VaultOp.create.inj (hop'.symm.trans hop)
      obtain ⟨file, hfile', hnew⟩ := hstep.syncAll_staged_ok
      obtain rfl := Option.some.inj (hfile.symm.trans hfile')
      exact ⟨true, hnew, fun _ => rfl⟩
    · obtain ⟨synced', hfile', hsynced'⟩ := step_stage hV hallowed hstep hleft hfile
      refine ⟨synced', hfile', fun h => hsynced' ?_⟩
      rcases Progress.synced_next h with ⟨hs, -⟩ | hs
      · exact hsynced hs
      · exact absurd hs hsync
  · rcases r with e | v
    · rw [hstep.error_eq (by simp) (by simp)]
      exact ⟨synced, hfile, hsynced⟩
    · cases hok

/-- So does a call of another that leaves the stage alone. -/
theorem Waiting.other (hV : C.VaultLaws) {g g' : Progress Addr} {i : ℕ} {fs fs' : Fs} {c : FsCall}
    {r : Except IoError c.Value} (hw : Waiting C fs g') (hallowed : Progress.allowed C g c)
    (hstep : fs.Step i c r fs')
    (hapart : ∀ key password seed, g'.op = .create key password seed → g'.staged = true →
      disturbs (stageName C (C.addrOf key)) c = false) : Waiting C fs' g' := by
  intro key password seed hop hstaged
  obtain ⟨synced, hfile, hsynced⟩ := hw key password seed hop hstaged
  obtain ⟨synced', hfile', hsynced'⟩ :=
    step_stage hV hallowed hstep (hapart key password seed hop hstaged) hfile
  exact ⟨synced', hfile', fun h => hsynced' (hsynced h)⟩

/-! ### From the promotion on -/

/-- The create of process `i` gives its staged file the account's name. -/
def promotion (C : Crates Addr) (i : ℕ) (key : Ed25519SigningKey) (password : Option String)
    (seed : ℕ) : VaultEvent Addr :=
  .called i (.create key password seed) (.rename (.staged (stageName C (C.addrOf key)))
    (pathOf C (C.addrOf key) password.isSome)) (.ok ())

/-- Process `i` returned. -/
def returnedBy (i : ℕ) : VaultEvent Addr → Bool
  | .returned j _ _ => j = i
  | _ => false

/-- What holds in every state the processes reach while they leave each other's stages alone. -/
structure Watched (C : Crates Addr) (s : VaultState Addr) : Prop where
  /-- Every operation's staged file is its own. -/
  waiting : ∀ i t, s.running i = some t → Waiting C s.shared t.ghost
  /-- A promoted file is there, as its create wrote it, until one of the account is removed. -/
  promoted : ∀ later i key password seed earlier,
    s.trace = later ++ promotion C i key password seed :: earlier →
    (∀ e ∈ later, removedOk C (C.addrOf key) e = false) →
    s.shared.node (pathOf C (C.addrOf key) password.isSome) =
      some (.file ⟨keyFile C key password seed, true⟩)
  /-- A create that has promoted its file did so since its process last returned. -/
  history : ∀ i t key password seed, s.running i = some t → t.op = .create key password seed →
    t.ghost.promoted = true → ∃ mid before,
      s.trace = mid ++ promotion C i key password seed :: before ∧ ∀ e ∈ mid, returnedBy i e = false
  /-- A create that answered `Ok` promoted its file first. -/
  answered : ∀ later i key password seed addr earlier,
    s.trace = later ++ .returned i (.create key password seed) (.ok (.created addr)) :: earlier →
    addr = C.addrOf key ∧ ∃ mid before,
      earlier = mid ++ promotion C i key password seed :: before ∧ ∀ e ∈ mid, returnedBy i e = false

theorem Watched.idle (fs : Fs) : Watched C (.idle fs : VaultState Addr) where
  waiting i t hi := by cases hi
  promoted later i key password seed earlier h := by
    exact absurd h.symm (List.append_ne_nil_of_right_ne_nil _ (List.cons_ne_nil _ _))
  history i t key password seed hi := by cases hi
  answered later i key password seed addr earlier h := by
    exact absurd h.symm (List.append_ne_nil_of_right_ne_nil _ (List.cons_ne_nil _ _))

theorem Watched.returned {s : VaultState Addr} (hs : Watched C s) {i : ℕ} {op : VaultOp Addr}
    {g : Progress Addr} {res : VaultResult Addr} (hrun : s.running i = some ⟨op, .ret res, g⟩)
    (hfin : Finished C op res g) : Watched C (s.returned i op res) := by
  have hrest : ∀ j t, (s.returned i op res).running j = some t → j ≠ i ∧ s.running j = some t := by
    intro j t hj
    rcases eq_or_ne j i with rfl | hne
    · simp [Threads.State.returned] at hj
    · exact ⟨hne, by simpa [Threads.State.returned, hne] using hj⟩
  constructor
  · intro j t hj
    exact hs.waiting j t (hrest j t hj).2
  · intro later j key password seed earlier htrace hno
    rcases later with - | ⟨e, later⟩
    · cases (List.cons.inj htrace).1
    · exact hs.promoted later j key password seed earlier (List.cons.inj htrace).2
        fun e he => hno e (List.mem_cons_of_mem _ he)
  · intro j t key password seed hj hop hpromoted
    obtain ⟨hne, hj⟩ := hrest j t hj
    obtain ⟨mid, before, htrace, hmid⟩ := hs.history j t key password seed hj hop hpromoted
    refine ⟨.returned i op res :: mid, before, congrArg (_ :: ·) htrace, ?_⟩
    rintro e he
    rcases List.mem_cons.mp he with rfl | he
    · simpa [returnedBy] using hne.symm
    · exact hmid e he
  · intro later j key password seed addr earlier htrace
    rcases later with - | ⟨e, later⟩
    · obtain ⟨heq, rfl⟩ := List.cons.inj htrace
      cases heq
      obtain ⟨-, -, -, hres⟩ := hfin
      rcases hres with ⟨hres, hpromoted⟩ | ⟨⟨e, hres⟩, -⟩
      · cases hres
        exact ⟨rfl, hs.history i _ key password seed hrun rfl hpromoted⟩
      · cases hres
    · exact hs.answered later j key password seed addr earlier (List.cons.inj htrace).2

theorem Watched.called (hV : C.VaultLaws) {s : VaultState Addr} (hl : Locking C s)
    (hs : Watched C s) {i : ℕ} {op : VaultOp Addr} {g : Progress Addr} {c : FsCall}
    {k : Except IoError c.Value → Prog fsSig (VaultResult Addr)} {r : Except IoError c.Value}
    {fs' : Fs} (hrun : s.running i = some ⟨op, .call c k, g⟩)
    (hallowed : Progress.allowed C g c) (hapart : apart C s i c)
    (hstep : s.shared.Step i c r fs') :
    Watched C (s.called i op c r fs' ⟨op, k r, Progress.next C g c r⟩) := by
  have hgop : g.op = op := hl.op_eq i _ hrun
  have hcases : ∀ j t, (s.called i op c r fs' ⟨op, k r, Progress.next C g c r⟩).running j = some t →
      j = i ∧ t = ⟨op, k r, Progress.next C g c r⟩ ∨ j ≠ i ∧ s.running j = some t := by
    intro j t hj
    rcases eq_or_ne j i with rfl | hne
    · exact .inl ⟨rfl, by simpa [Threads.State.called, eq_comm] using hj⟩
    · exact .inr ⟨hne, by simpa [Threads.State.called, hne] using hj⟩
  constructor
  · intro j t hj
    rcases hcases j t hj with ⟨rfl, rfl⟩ | ⟨hne, hj⟩
    · exact (hs.waiting j _ hrun).own hV hallowed hstep
    · refine (hs.waiting j t hj).other hV hallowed hstep fun key password seed hop hstaged => ?_
      exact hapart j t key password seed hne hj ((hl.op_eq j t hj).symm.trans hop) hstaged
  -- A file put in place stays, as long as no call removes a file of its account.
  · intro later j key password seed earlier htrace hno
    rcases later with - | ⟨e, later⟩
    · -- The promotion was this call, of the file that was waiting.
      obtain ⟨heq, -⟩ := List.cons.inj htrace
      cases heq
      obtain ⟨key', password', seed', hop', -, -, -, -, hstaged, hsynced⟩ := hallowed
      obtain ⟨synced, hfile, hsync⟩ := hs.waiting i _ hrun key password seed hgop hstaged
      obtain ⟨file, hfile', hnew, -⟩ := hstep.rename_staged_ok (pathOf_ne_stageName hV _ _ _)
      obtain rfl := Option.some.inj (hfile.symm.trans hfile')
      rw [hsync hsynced] at hnew
      exact hnew
    · obtain ⟨rfl, hrest⟩ := List.cons.inj htrace
      have hbefore := hs.promoted later j key password seed earlier hrest
        fun e he => hno e (List.mem_cons_of_mem _ he)
      have hthis := hno _ List.mem_cons_self
      rcases step_pathOf hV hallowed hstep (C.addrOf key) password.isSome with
        heq | ⟨key', password', seed', file, hop', haddr, -, -, -, -, habsent, -⟩ |
          ⟨hop', rfl, hok, -⟩
      · exact heq.trans hbefore
      · refine absurd ⟨password.isSome, ?_⟩
          (haddr ▸ hl.absent i _ hrun habsent key' password' seed' hop')
        rw [hbefore]
        rfl
      · rcases r with e | v
        · cases hok
        · cases hp : password.isSome <;> simp [removedOk, hp] at hthis
  -- A create that promoted has done so since it was called.
  · intro j t key password seed hj hop hpromoted
    have hkeep : (∃ mid before, s.trace = mid ++ promotion C j key password seed :: before ∧
        ∀ e ∈ mid, returnedBy j e = false) → ∃ mid before,
        Event.called i op c r :: s.trace = mid ++ promotion C j key password seed :: before ∧
        ∀ e ∈ mid, returnedBy j e = false := by
      rintro ⟨mid, before, htrace, hmid⟩
      refine ⟨.called i op c r :: mid, before, congrArg (_ :: ·) htrace, ?_⟩
      rintro e he
      rcases List.mem_cons.mp he with rfl | he
      · rfl
      · exact hmid e he
    rcases hcases j t hj with ⟨rfl, rfl⟩ | ⟨hne, hj⟩
    · by_cases hbefore : g.promoted = true
      · exact hkeep (hs.history j _ key password seed hrun hop hbefore)
      rcases Progress.promoted_next hpromoted with h | ⟨src, dest, rfl, hok⟩
      · exact absurd h hbefore
      · rcases r with e | v
        · cases hok
        obtain rfl : op = .create key password seed := hop
        obtain ⟨key', password', seed', hop', rfl, rfl, -⟩ := hallowed
        obtain ⟨rfl, rfl, rfl⟩ := VaultOp.create.inj (hop'.symm.trans hgop)
        exact ⟨[], s.trace, rfl, by simp⟩
    · exact hkeep (hs.history j t key password seed hj hop hpromoted)
  · intro later j key password seed addr earlier htrace
    rcases later with - | ⟨e, later⟩
    · cases (List.cons.inj htrace).1
    · exact hs.answered later j key password seed addr earlier (List.cons.inj htrace).2

variable [DecidableEq Addr]

theorem Watched.start {s : VaultState Addr} (hs : Watched C s) (i : ℕ) (op : VaultOp Addr) :
    Watched C (s.start i ((processes C).thread op)) := by
  have hrun : ∀ j t, (s.start i ((processes C).thread op)).running j = some t →
      s.running j = some t ∨ t = (processes C).thread op := by
    intro j t hj
    rcases eq_or_ne j i with rfl | hne
    · exact .inr (by simpa [Threads.State.start, eq_comm] using hj)
    · exact .inl (by simpa [Threads.State.start, hne] using hj)
  constructor
  · intro j t hj
    rcases hrun j t hj with hj | rfl
    · exact hs.waiting j t hj
    · intro key password seed hop hstaged
      cases hstaged
  · exact hs.promoted
  · intro j t key password seed hj hop hpromoted
    rcases hrun j t hj with hj | rfl
    · exact hs.history j t key password seed hj hop hpromoted
    · cases hpromoted
  · exact hs.answered

theorem Watched.reaches (hV : C.VaultLaws) {fs : Fs} (hfs : ∀ addr, ¬Doubled C fs addr)
    {s : VaultState Addr} (h : (processes C).Reaches (apart C) (.idle fs) s) :
    Locking C s ∧ Watched C s := by
  refine (Threads.invariant (VaultOp.keeps hV) (I := fun s => Locking C s ∧ Watched C s)
    ?_ ?_ ?_ h (Threads.kept_idle fs) ⟨.idle hfs, .idle fs⟩).2
  · rintro s i op ⟨hl, hs⟩ -
    exact ⟨hl.start i op, hs.start i op⟩
  · rintro s i op g c k r fs' ⟨hl, hs⟩ hrun hallowed hapart hstep
    exact ⟨hl.called hV hrun hallowed hstep, hs.called hV hl hrun hallowed hapart hstep⟩
  · rintro s i op g res ⟨hl, hs⟩ hrun hfin
    exact ⟨hl.returned i op res, hs.returned hrun hfin⟩

omit [DecidableEq Addr] in
theorem apart_of_apartFrom {js : List ℕ} {s : VaultState Addr} {i : ℕ} {c : FsCall}
    (hidle : ∀ j ∉ js, s.running j = none) (h : apartFrom C js s i c = true) : apart C s i c := by
  intro j t key password seed hne hrun hop hstaged
  have hmem : j ∈ js := by
    by_contra hnot
    rw [hidle j hnot] at hrun
    cases hrun
  have hj := List.all_eq_true.mp h j hmem
  obtain ⟨op, prog, g⟩ := t
  obtain rfl : op = .create key password seed := hop
  have hwaits : g.staged = true := hstaged
  rw [hrun] at hj
  simpa [hne, hwaits] using hj

/-- A created key file holds what its creator wrote, in every run in which no process disturbs the
key file another has waiting in its stage.  A create that answered `Ok` promoted its own file; and
until a file of the account is removed, what is under the account's name is that file, which opens
to the key with exactly the choice of password the create was given. -/
theorem created_file_is_its_creators (hV : C.VaultLaws) {fs : Fs}
    (hfs : ∀ addr, ¬Doubled C fs addr) {s : VaultState Addr}
    (h : (processes C).Reaches (apart C) (.idle fs) s) {later earlier : List (VaultEvent Addr)}
    {i : ℕ} {key : Ed25519SigningKey} {chosen : Option String} {seed : ℕ} {addr : Addr}
    (htrace : s.trace =
      later ++ .returned i (.create key chosen seed) (.ok (.created addr)) :: earlier) :
    addr = C.addrOf key ∧
    ∃ mid before, earlier = mid ++ promotion C i key chosen seed :: before ∧
      (∀ e ∈ mid, returnedBy i e = false) ∧
      ((∀ e ∈ later ++ mid, removedOk C addr e = false) →
        s.shared.file (pathOf C addr chosen.isSome) = some ⟨keyFile C key chosen seed, true⟩ ∧
        s.shared.node (pathOf C addr !chosen.isSome) = none ∧
        ∀ password pid,
          (openKey C addr password).alone pid s.shared =
            (openAnswer key chosen password, s.shared)) := by
  obtain ⟨hl, hs⟩ := Watched.reaches hV hfs h
  obtain ⟨rfl, mid, before, rfl, hmid⟩ := hs.answered later i key chosen seed addr earlier htrace
  refine ⟨rfl, mid, before, rfl, hmid, fun hno => ?_⟩
  have hnode := hs.promoted
    (later ++ .returned i (.create key chosen seed) (.ok (.created (C.addrOf key))) :: mid)
    i key chosen seed before (by rw [htrace]; simp) (by
      intro e he
      rcases List.mem_append.mp he with he | he
      · exact hno e (List.mem_append_left _ he)
      · rcases List.mem_cons.mp he with rfl | he
        · rfl
        · exact hno e (List.mem_append_right _ he))
  refine ⟨Fs.file_eq hnode, ?_, fun password pid => openKey_alone hV hl.single hnode password pid⟩
  -- The other spelling would be a second file of the account.
  by_contra hother
  have hsome : (s.shared.node (pathOf C (C.addrOf key) !chosen.isSome)).isSome :=
    Option.isSome_iff_ne_none.mpr hother
  have hthis : (s.shared.node (pathOf C (C.addrOf key) chosen.isSome)).isSome := by
    rw [hnode]
    rfl
  apply hl.single (C.addrOf key)
  cases hc : chosen.isSome
  · rw [hc] at hsome hthis
    exact ⟨hsome, hthis⟩
  · rw [hc] at hsome hthis
    exact ⟨hthis, hsome⟩

/-- Two processes take the same key in, one under a password and one without.  The second starts
while the file of the first waits in the stage, and makes the stage its own once the first gave its
file the account's name; it finds the account held then. -/
def raceApart : List ℕ :=
  List.replicate 7 0 ++ List.replicate 3 1 ++ List.replicate 6 0 ++ [1] ++ List.replicate 4 0 ++
    List.replicate 9 1

theorem created_file_is_its_creators_race :
    (race raceApart).trace.head? = some (.returned 1 (.create (Reference.someKey 1) none 0)
        (.error (.accountExists (Crates.reference.addrOf (Reference.someKey 1))))) ∧
      (race raceApart).shared.file
          (pathOf Crates.reference (Crates.reference.addrOf (Reference.someKey 1)) true) =
        some ⟨keyFile Crates.reference (Reference.someKey 1) (some "pw") 0, true⟩ ∧
      ∀ password pid, (openKey Crates.reference
          (Crates.reference.addrOf (Reference.someKey 1)) password).alone pid
            (race raceApart).shared =
        (openAnswer (Reference.someKey 1) (some "pw") password, (race raceApart).shared) := by
  have hreach : (processes Crates.reference).Reaches (apart Crates.reference) (.idle .empty)
      (race raceApart) := by
    refine Threads.reaches_play (processes_exec Crates.reference)
      (fun s => ∀ j ∉ [0, 1], s.running j = none)
      (fun s hs i c => apart_of_apartFrom hs) raceApart ?_ (fun _ _ => rfl) (by decide +kernel)
    have hscheduled : ∀ i ∈ raceApart, i ∈ [0, 1] := by decide
    intro s hs i hi j hj
    refine Threads.stepBy_idle ?_ (hs j hj)
    rintro rfl
    exact hj (hscheduled j hi)
  have hempty : ∀ addr, ¬Doubled Crates.reference .empty addr := fun addr h => by cases h.1
  have hreturned : (race raceApart).trace[9]? =
      some (.returned 0 (.create (Reference.someKey 1) (some "pw") 0)
        (.ok (.created (Crates.reference.addrOf (Reference.someKey 1))))) := rfl
  obtain ⟨hlt, hat⟩ := List.getElem?_eq_some_iff.mp hreturned
  have htrace : (race raceApart).trace = (race raceApart).trace.take 9 ++
      .returned 0 (.create (Reference.someKey 1) (some "pw") 0)
        (.ok (.created (Crates.reference.addrOf (Reference.someKey 1)))) ::
      (race raceApart).trace.drop 10 := by
    rw [← hat, ← List.drop_eq_getElem_cons hlt, List.take_append_drop]
  obtain ⟨-, mid, before, hearlier, -, hfile⟩ :=
    created_file_is_its_creators Reference.vaultLaws hempty hreach htrace
  have hnone : ∀ e ∈ (race raceApart).trace,
      removedOk Crates.reference (Crates.reference.addrOf (Reference.someKey 1)) e = false := by
    decide
  obtain ⟨hshared, -, hopens⟩ := hfile fun e he => by
    refine hnone e ?_
    rw [htrace, hearlier]
    rcases List.mem_append.mp he with he | he
    · exact List.mem_append_left _ he
    · exact List.mem_append_right _ (List.mem_cons_of_mem _ (List.mem_append_left _ he))
  exact ⟨rfl, hshared, hopens⟩

/-- Two processes take the same key in, one under a password and one without.  The second stages
its file while the first's waits for the lock, and the first promotes it: the create given a
password answers `Ok`, and leaves the key in the clear under the sealed name, where its password
does not open it. -/
theorem created_file_is_anothers :
    ∃ s : VaultState Reference.Addr,
      (processes Crates.reference).Reaches Threads.unguarded (.idle .empty) s ∧
      s.trace.head? = some (.returned 0 (.create (Reference.someKey 1) (some "pw") 0)
        (.ok (.created (Crates.reference.addrOf (Reference.someKey 1))))) ∧
      s.trace.countP (removedOk Crates.reference
        (Crates.reference.addrOf (Reference.someKey 1))) = 0 ∧
      s.shared.file (pathOf Crates.reference (Crates.reference.addrOf (Reference.someKey 1)) true) =
        some ⟨keyFile Crates.reference (Reference.someKey 1) none 0, true⟩ ∧
      ((openKey Crates.reference (Crates.reference.addrOf (Reference.someKey 1)) (some "pw")).alone
        2 s.shared).1 ≠ .ok (Reference.someKey 1) := by
  refine ⟨race (List.replicate 7 0 ++ List.replicate 7 1 ++ List.replicate 10 0), reaches_race _,
    rfl, rfl, rfl, ?_⟩
  intro h
  cases h

end AccountLogUi.Vault
