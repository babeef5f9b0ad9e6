import AccountLogUi.Fs.Equiv.Edits
import AccountLogUi.Fs.Equiv.Triples
import AccountLogUi.Library.TwoRuns

/-!
# Directories that look alike

A call sees nothing but what it names: on two directories that agree there, `SameOn`, it answers
the same and leaves them agreeing (`SameOn.matched`).  Listing the directory sees every name, and
is left to whoever lists it.

Two disks with the same faults to come are compared program by program as two runs are, call by
call (`Disk.matched_io`).
-/

namespace AccountLogUi

/-- The names a call looks at, but for listing. -/
def FsCall.sees : FsCall → List (List Char)
  | .setMode path _ => path.name.toList
  | .readToString name => [name]
  | c => c.changes

namespace Fs

/-- Two directories agree on some names, and on the lock. -/
structure SameOn (N : List Char → Prop) (fs fs' : Fs) : Prop where
  lock : fs'.lock = fs.lock
  dir : fs'.dir.isSome = fs.dir.isSome
  node : ∀ name, N name → fs'.node name = fs.node name

namespace SameOn

variable {N : List Char → Prop} {fs fs' : Fs}

/-- Both are there, or neither. -/
theorem dir_cases (h : SameOn N fs fs') : fs.dir = none ∧ fs'.dir = none ∨
    ∃ dir dir', fs.dir = some dir ∧ fs'.dir = some dir' := by
  have hdir := h.dir
  rcases hfs : fs.dir with - | dir <;> rcases hfs' : fs'.dir with - | dir'
  · exact .inl ⟨rfl, rfl⟩
  · simp [hfs, hfs'] at hdir
  · simp [hfs, hfs'] at hdir
  · exact .inr ⟨dir, dir', rfl, rfl⟩

theorem insert (h : SameOn N fs fs') (name : List Char) (x : Node) :
    SameOn N (fs.insert name x) (fs'.insert name x) where
  lock := h.lock
  dir := by rw [isSome_dir_insert, isSome_dir_insert, h.dir]
  node other hother := by rw [node_insert, node_insert, h.dir, h.node other hother]

theorem erase (h : SameOn N fs fs') (name : List Char) :
    SameOn N (fs.erase name) (fs'.erase name) where
  lock := h.lock
  dir := by rw [isSome_dir_erase, isSome_dir_erase, h.dir]
  node other hother := by rw [node_erase, node_erase, h.node other hother]

theorem file (h : SameOn N fs fs') {name : List Char} (hname : N name) :
    fs'.file name = fs.file name := file_congr (h.node name hname)

theorem staged (h : SameOn N fs fs') {name : List Char} (hname : N name) :
    fs'.staged name = fs.staged name := staged_congr (h.node name hname)

theorem fileAt (h : SameOn N fs fs') {path : Path} (hpath : ∀ name ∈ path.name.toList, N name) :
    fs'.fileAt path = fs.fileAt path := by
  rcases path with - | name | name
  · rfl
  · exact h.file (hpath name (by simp [Path.name]))
  · exact h.staged (hpath name (by simp [Path.name]))

theorem has (h : SameOn N fs fs') {path : Path} (hpath : ∀ name ∈ path.name.toList, N name) :
    fs'.has path = fs.has path := by
  rcases path with - | name | name
  · exact h.dir
  · show (fs'.node name).isSome = (fs.node name).isSome
    rw [h.node name (hpath name (by simp [Path.name]))]
  · show (fs'.staged name).isSome = (fs.staged name).isSome
    rw [h.staged (hpath name (by simp [Path.name]))]

theorem putFile (h : SameOn N fs fs') (path : Path) (file : File) :
    SameOn N (fs.putFile path file) (fs'.putFile path file) := by
  rcases path with - | name | name
  · exact h
  · exact h.insert name _
  · exact h.insert name _

theorem takeFile (h : SameOn N fs fs') (path : Path) :
    SameOn N (fs.takeFile path) (fs'.takeFile path) := by
  rcases path with - | name | name
  · exact h
  · exact h.erase name
  · exact h.insert name _

/-- A node that agrees, seen with the directory it may be missing from. -/
theorem writeFile (h : SameOn N fs fs') {path : Path} (hpath : ∀ name ∈ path.name.toList, N name)
    (content : Content) :
    Matched (SameOn N) (Same (SameOn N)) (fs.writeFile path content)
      (fs'.writeFile path content) := by
  rcases path with - | name | name
  · exact .error h
  · have hnode := h.node name (hpath name (by simp [Path.name]))
    have hput := h.putFile (.top name) ⟨content, false⟩
    unfold Fs.writeFile
    dsimp only
    rw [hnode]
    rcases h.dir_cases with ⟨hfs, hfs'⟩ | ⟨dir, dir', hfs, hfs'⟩
    · rw [hfs, hfs']
      exact .error h
    · rw [hfs, hfs']
      rcases fs.node name with - | file | staged
      · exact .ok ⟨rfl, hput⟩
      · exact .ok ⟨rfl, hput⟩
      · exact .error h
  · have hnode := h.node name (hpath name (by simp [Path.name]))
    have hput := h.putFile (.staged name) ⟨content, false⟩
    unfold Fs.writeFile
    dsimp only
    rw [hnode]
    rcases fs.node name with - | file | staged
    · exact .error h
    · exact .error h
    · exact .ok ⟨rfl, hput⟩

theorem renameFile (h : SameOn N fs fs') {src : Path} {dest : List Char}
    (hsrc : ∀ name ∈ src.name.toList, N name) (hdest : N dest) :
    Matched (SameOn N) (Same (SameOn N)) (fs.renameFile src dest) (fs'.renameFile src dest) := by
  unfold Fs.renameFile
  rw [h.fileAt hsrc, h.node dest hdest]
  rcases fs.fileAt src with - | file
  · exact .error h
  · rcases fs.node dest with - | old | staged
    · exact .ok ⟨rfl, (h.takeFile src).insert dest _⟩
    · exact .ok ⟨rfl, (h.takeFile src).insert dest _⟩
    · exact .error h

theorem withLock (h : SameOn N fs fs') (lock : Option ℕ) :
    SameOn N { fs with lock := lock } { fs' with lock := lock } := ⟨rfl, h.dir, h.node⟩

theorem createDirAll (h : SameOn N fs fs') :
    SameOn N { fs with dir := some (fs.dir.getD ∅) } { fs' with dir := some (fs'.dir.getD ∅) } where
  lock := h.lock
  dir := rfl
  node name hname := by
    have hgetD : ∀ fs : Fs,
        Fs.node { fs with dir := some (fs.dir.getD ∅) } name = fs.node name := by
      intro fs
      unfold Fs.node
      cases fs.dir <;> rfl
    rw [hgetD, hgetD, h.node name hname]

variable (pid : ℕ)

theorem perform (h : SameOn N fs fs') {c : FsCall} (hc : c ≠ .readDir)
    (hsees : ∀ name ∈ c.sees, N name) :
    Matched (SameOn N) (Same (SameOn N)) (fs.perform pid c) (fs'.perform pid c) := by
  cases c with
  | readDir => exact absurd rfl hc
  | createDirAll => exact .ok ⟨rfl, h.createDirAll⟩
  | syncDir => exact .ok ⟨rfl, h⟩
  | setMode path mode =>
    unfold Fs.perform
    dsimp only
    rw [h.has hsees]
    split
    · exact .ok ⟨rfl, h⟩
    · exact .error h
  | removeDirAll name =>
    unfold Fs.perform
    dsimp only
    rw [h.node name (hsees name (by simp [FsCall.sees, FsCall.changes]))]
    rcases fs.node name with - | file | staged
    · exact .error h
    · exact .error h
    · exact .ok ⟨rfl, h.erase name⟩
  | createDir name =>
    unfold Fs.perform
    dsimp only
    rw [h.node name (hsees name (by simp [FsCall.sees, FsCall.changes]))]
    -- What is made needs a directory to be made in, which both have or neither has.
    rcases h.dir_cases with ⟨hfs, hfs'⟩ | ⟨dir, dir', hfs, hfs'⟩
    · rw [hfs, hfs']
      exact .error h
    · rw [hfs, hfs']
      rcases fs.node name with - | node
      · exact .ok ⟨rfl, h.insert name _⟩
      · exact .error h
  | write path content => exact h.writeFile hsees content
  | readToString name =>
    unfold Fs.perform
    dsimp only
    rw [h.node name (hsees name (by simp [FsCall.sees]))]
    rcases fs.node name with - | ⟨text | -, synced⟩ | staged
    · exact .error h
    · exact .ok ⟨rfl, h⟩
    · exact .error h
    · exact .error h
  | openLock name =>
    unfold Fs.perform
    dsimp only
    rw [h.node name (hsees name (by simp [FsCall.sees, FsCall.changes]))]
    rcases h.dir_cases with ⟨hfs, hfs'⟩ | ⟨dir, dir', hfs, hfs'⟩
    · rw [hfs, hfs']
      exact .error h
    · rw [hfs, hfs']
      rcases fs.node name with - | file | staged
      · exact .ok ⟨rfl, h.insert name _⟩
      · exact .ok ⟨rfl, h⟩
      · exact .error h
  | tryLock =>
    unfold Fs.perform
    dsimp only
    rw [h.lock]
    rcases fs.lock with - | holder
    · exact .ok ⟨rfl, h.withLock _⟩
    · exact .error h
  | unlock =>
    unfold Fs.perform
    dsimp only
    rw [h.lock]
    refine .ok ⟨rfl, ?_⟩
    split
    · exact h.withLock _
    · exact h
  | syncAll path =>
    unfold Fs.perform
    dsimp only
    rw [h.fileAt hsees]
    rcases fs.fileAt path with - | file
    · exact .error h
    · exact .ok ⟨rfl, h.putFile path _⟩
  | rename src dest =>
    refine h.renameFile (fun name hname => hsees name ?_) (hsees dest ?_)
    · exact List.mem_cons_of_mem _ hname
    · exact List.mem_cons_self
  | removeFile name =>
    unfold Fs.perform
    dsimp only
    rw [h.node name (hsees name (by simp [FsCall.sees, FsCall.changes]))]
    rcases fs.node name with - | file | staged
    · exact .error h
    · exact .ok ⟨rfl, h.erase name⟩
    · exact .error h

theorem spoil (h : SameOn N fs fs') (fault : Fault) {c : FsCall}
    (hsees : ∀ name ∈ c.sees, N name) : SameOn N (fs.spoil fault c) (fs'.spoil fault c) := by
  cases c with
  | write path content =>
    unfold Fs.spoil
    rcases fault.leaves with - | content'
    · exact h
    · exact (h.writeFile hsees content').snd (fun _ _ h => h) fun _ _ _ _ h => h.2
  | removeDirAll name =>
    unfold Fs.spoil
    dsimp only
    rw [h.node name (hsees name (by simp [FsCall.sees, FsCall.changes]))]
    split
    · exact h.insert name _
    · exact h
  | _ => exact h

/-- A call sees nothing but what it names. -/
theorem matched (h : SameOn N fs fs') {c : FsCall} (hc : c ≠ .readDir)
    (hsees : ∀ name ∈ c.sees, N name) (fault : Option Fault) :
    Matched (SameOn N) (Same (SameOn N)) (fs.exec pid c fault) (fs'.exec pid c fault) := by
  rcases fault with - | fault
  · exact h.perform pid hc hsees
  · by_cases hunlock : c = .unlock
    · subst hunlock
      exact h.perform pid hc hsees
    · have hexec : ∀ fs : Fs, fs.exec pid c (some fault) =
          (.error (.other fault.code), fs.spoil fault c) := by
        intro fs
        cases c <;> first | rfl | exact absurd rfl hunlock
      rw [hexec, hexec]
      exact .error (h.spoil fault hsees)

end SameOn

end Fs

/-! ### Programs on two disks -/

/-- Two disks with the same faults to come, whose directories `R` relates. -/
structure Disk.Related (R : Fs → Fs → Prop) (d d' : Disk) : Prop where
  fs : R d.fs d'.fs
  faults : d'.faults = d.faults

namespace Disk

variable {ε δ α β α' β' : Type} {R R' E E' : Fs → Fs → Prop} {d d' : Disk}

theorem Related.mono (h : d.Related R d') (hR : ∀ fs fs', R fs fs' → R' fs fs') :
    d.Related R' d' := ⟨hR _ _ h.fs, h.faults⟩

/-- Answers and directories `Q` relates, on disks with the same faults to come. -/
def Relating (Q : α → β → Fs → Fs → Prop) (a : α) (b : β) (d d' : Disk) : Prop :=
  d.Related (Q a b) d'

/-- Programs on two disks end alike. -/
abbrev Matches (E : Fs → Fs → Prop) (Q : α → β → Fs → Fs → Prop) (p : FsM ε α) (q : FsM ε β)
    (d d' : Disk) : Prop :=
  Matched (Related E) (Relating Q) (d.run p.run) (d'.run q.run)

/-- Programs that ended alike answered the same. -/
theorem Matches.answer_eq {p q : FsM ε α} (h : Matches E (Same R) p q d d') :
    (d'.run q.run).1 = (d.run p.run).1 := by
  unfold Matches at h
  generalize d.run p.run = x at h ⊢
  generalize d'.run q.run = y at h ⊢
  rcases h with ⟨⟨rfl, -⟩, -⟩ | h <;> rfl

/-- The relations can be weakened. -/
theorem Matches.weaken {p q : FsM ε α} (h : Matches E (Same R) p q d d')
    (hE : ∀ fs fs', E fs fs' → E' fs fs') (hR : ∀ fs fs', R fs fs' → R' fs fs') :
    Matches E' (Same R') p q d d' :=
  h.mono (fun _ _ h => h.mono hE) fun _ _ _ _ h => h.mono fun _ _ h => ⟨h.1, hR _ _ h.2⟩

/-- The sequencing rule. -/
theorem Matches.bind {Q : α → β → Fs → Fs → Prop} {Q' : α' → β' → Fs → Fs → Prop} {p : FsM ε α}
    {q : FsM ε β} {f : α → FsM ε α'} {g : β → FsM ε β'} (h : Matches E Q p q d d')
    (hnext : ∀ a b e e', Relating Q a b e e' → Matches E Q' (f a) (g b) e e') :
    Matches E Q' (p >>= f) (q >>= g) d d' := by
  unfold Matches run at h ⊢
  rw [FsM.run_bind, FsM.run_bind]
  generalize p.run.run (S := fsSig) exec d = x at h ⊢
  generalize q.run.run (S := fsSig) exec d' = y at h ⊢
  rcases h with h | h
  · exact hnext _ _ _ _ h
  · exact .error h

theorem matches_pure {Q : α → β → Fs → Fs → Prop} {a : α} {b : β}
    (h : d.Related (Q a b) d') : Matches E Q (pure a : FsM ε α) (pure b : FsM ε β) d d' := .ok h

theorem matches_throw {Q : α → β → Fs → Fs → Prop} {e : ε} (h : d.Related E d') :
    Matches E Q (throw e : FsM ε α) (throw e : FsM ε β) d d' := .error h

/-- A result computed already, the same in both. -/
theorem matches_ret {Q : α → α → Fs → Fs → Prop} {r : Except ε α} (hE : d.Related E d')
    (hQ : ∀ a, r = .ok a → d.Related (Q a a) d') :
    Matches E Q (ExceptT.mk (.ret r) : FsM ε α) (ExceptT.mk (.ret r) : FsM ε α) d d' := by
  rcases r with e | a
  · exact .error hE
  · exact .ok (hQ a rfl)

/-- One call, and what is made of its answer. -/
theorem matches_call {c c' : FsCall} {k : Except IoError c.Value → Prog fsSig (Except ε α)}
    {k' : Except IoError c'.Value → Prog fsSig (Except ε β)} {Q : α → β → Fs → Fs → Prop}
    {D : Fs → Fs → Prop} {P : c.Value → c'.Value → Fs → Fs → Prop} (hfaults : d'.faults = d.faults)
    (h : ∀ fault, Matched D P (d.fs.exec 0 c fault) (d'.fs.exec 0 c' fault))
    (hok : ∀ a b e e', Relating P a b e e' →
      Matches E Q (ExceptT.mk (k (.ok a))) (ExceptT.mk (k' (.ok b))) e e')
    (herror : ∀ x e e', Related D e e' →
      Matches E Q (ExceptT.mk (k (.error x))) (ExceptT.mk (k' (.error x))) e e') :
    Matches E Q (ExceptT.mk (.call c k)) (ExceptT.mk (.call c' k')) d d' := by
  have hexec := h d.faults.head?.join
  have hrun : ∀ (d : Disk) (γ : Type) (c : FsCall) (k : Except IoError c.Value → Prog fsSig γ),
      d.run (.call c k) =
        Disk.run ⟨(d.fs.exec 0 c d.faults.head?.join).2, d.faults.tail⟩
          (k (d.fs.exec 0 c d.faults.head?.join).1) := fun _ _ _ _ => rfl
  unfold Matches
  rw [ExceptT.run_mk, ExceptT.run_mk, hrun, hrun, hfaults]
  generalize d.fs.exec 0 c d.faults.head?.join = x at hexec ⊢
  generalize d'.fs.exec 0 c' d.faults.head?.join = y at hexec ⊢
  rcases hexec with hP | hD
  · exact hok _ _ _ _ ⟨hP, rfl⟩
  · exact herror _ _ _ ⟨hD, rfl⟩

/-- One call, with its failure passed on. -/
theorem matches_io {c c' : FsCall} {P : c.Value → c'.Value → Fs → Fs → Prop} {wrap : IoError → ε}
    (hfaults : d'.faults = d.faults)
    (h : ∀ fault, Matched E P (d.fs.exec 0 c fault) (d'.fs.exec 0 c' fault)) :
    Matches E P (FsM.io wrap c) (FsM.io wrap c') d d' :=
  matches_call hfaults h (fun _ _ _ _ hP => .ok hP) fun _ _ _ hD => .error hD

/-- One call, with its failure ignored. -/
theorem matches_quiet {c c' : FsCall} {Q : Unit → Unit → Fs → Fs → Prop}
    (hfaults : d'.faults = d.faults)
    (h : ∀ fault, Matched (Q () ()) (fun _ _ => Q () ()) (d.fs.exec 0 c fault)
      (d'.fs.exec 0 c' fault)) :
    Matches E Q (FsM.quiet c : FsM ε Unit) (FsM.quiet c' : FsM ε Unit) d d' :=
  matches_call hfaults h (fun _ _ _ _ hP => .ok hP) fun _ _ _ hD => .ok hD

/-- Reading a file both have. -/
theorem exec_readToString {S : Fs → Fs → Prop} {fs fs' : Fs} {name : List Char} (h : S fs fs')
    (hnode : fs'.node name = fs.node name) (fault : Option Fault) :
    Matched S (Same S) (fs.exec 0 (.readToString name) fault)
      (fs'.exec 0 (.readToString name) fault) := by
  rcases fault with - | fault
  · dsimp only [Fs.exec, Fs.perform]
    rw [hnode]
    rcases fs.node name with - | ⟨text | -, synced⟩ | staged
    · exact .error h
    · exact .ok ⟨rfl, h⟩
    · exact .error h
    · exact .error h
  · exact .error h

/-- A call made at the end of a block, whatever the block came to. -/
theorem Matches.dropping {c c' : FsCall} {p : FsM ε α} {q : FsM ε β} {Q Q' : α → β → Fs → Fs → Prop}
    (h : Matches E Q p q d d')
    (hok : ∀ a b e e', Relating Q a b e e' →
      ∀ fault, Q' a b (e.fs.exec 0 c fault).2 (e'.fs.exec 0 c' fault).2)
    (herror : ∀ e e', Related E e e' →
      ∀ fault, E' (e.fs.exec 0 c fault).2 (e'.fs.exec 0 c' fault).2) :
    Matches E' Q' (FsM.dropping c p) (FsM.dropping c' q) d d' := by
  unfold Matches run at h ⊢
  rw [FsM.run_dropping, FsM.run_dropping]
  generalize p.run.run (S := fsSig) exec d = x at h ⊢
  generalize q.run.run (S := fsSig) exec d' = y at h ⊢
  rcases h with h | h
  · refine .ok ⟨?_, congrArg List.tail h.faults⟩
    show Q' _ _ (Fs.exec 0 _ c _).2 (Fs.exec 0 _ c' _).2
    rw [h.faults]
    exact hok _ _ _ _ h _
  · refine .error ⟨?_, congrArg List.tail h.faults⟩
    show E' (Fs.exec 0 _ c _).2 (Fs.exec 0 _ c' _).2
    rw [h.faults]
    exact herror _ _ h _

end Disk

end AccountLogUi
