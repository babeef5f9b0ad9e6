import AccountLogUi.Fs.Equiv.Alike
import AccountLogUi.Vault.Equiv.Effect
import AccountLogUi.Vault.Equiv.Open

/-!
# Directories an account looks alike in

`AlikeFor C addr` relates two directories that the vault's operations on `addr` cannot tell apart:
the account's own names stand for the same, what is in the way of the lock and of the new list is in
the way in both, and the accounts listed are the same, or listed without complaint in both.

An operation on `addr` answers the same in both and leaves them alike (`create_alike`,
`openKey_alike`, `forget_alike`); one on any other account leaves a directory alike to what it was
(`create_spares`, `forget_spares`).
-/

namespace AccountLogUi.Vault

variable {Addr : Type} {C : Crates Addr} {fs fs' fs'' : Fs} {addr : Addr}

/-! ### The account files of a directory -/

/-- The names in the directory, in the order they are listed. -/
def names (fs : Fs) : List OsString := fs.dir.elim [] AList.keys

/-- The account files, in that order. -/
def entries (C : Crates Addr) (fs : Fs) : List (StoredAccount Addr) :=
  (names fs).filterMap (accountOf C)

/-- No account has two files. -/
def Single (C : Crates Addr) (fs : Fs) : Prop := ((entries C fs).map (·.addr)).Nodup

theorem mem_names {name : List Char} : .utf8 name ∈ names fs ↔ (fs.node name).isSome := by
  unfold names Fs.node
  cases fs.dir with
  | none => simp
  | some dir =>
    show .utf8 name ∈ dir.keys ↔ (dir.lookup (.utf8 name)).isSome
    rw [AList.lookup_isSome, AList.mem_keys]

theorem mem_entries (hV : C.VaultLaws) {account : StoredAccount Addr} :
    account ∈ entries C fs ↔ (fs.node (pathOf C account.addr account.protected_)).isSome := by
  unfold entries
  rw [List.mem_filterMap, ← mem_names]
  constructor
  · rintro ⟨name, hname, haccount⟩
    rwa [← (accountOf_eq_some hV).mp haccount]
  · intro hname
    exact ⟨_, hname, accountOf_pathOf hV _ _⟩

theorem filterMap_erase_none {α β : Type} [DecidableEq α] {f : α → Option β} {a : α}
    (h : f a = none) (l : List α) : (l.erase a).filterMap f = l.filterMap f := by
  induction l with
  | nil => rfl
  | cons b l ih =>
    by_cases hab : b = a
    · subst hab
      rw [List.erase_cons_head, List.filterMap_cons_none h]
    · rw [List.erase_cons_tail (by simpa using hab), List.filterMap_cons, List.filterMap_cons, ih]

theorem filterMap_erase_some {α β : Type} [DecidableEq α] [DecidableEq β] {f : α → Option β}
    {a : α} {b : β} (h : ∀ x, f x = some b ↔ x = a) (l : List α) :
    (l.erase a).filterMap f = (l.filterMap f).erase b := by
  induction l with
  | nil => rfl
  | cons x l ih =>
    by_cases hxa : x = a
    · subst hxa
      rw [List.erase_cons_head, List.filterMap_cons_some ((h x).mpr rfl), List.erase_cons_head]
    · rw [List.erase_cons_tail (by simpa using hxa), List.filterMap_cons, List.filterMap_cons, ih]
      cases hfx : f x with
      | none => rfl
      | some c =>
        have hcb : c ≠ b := by
          rintro rfl
          exact hxa ((h x).mp hfx)
        rw [List.erase_cons_tail (by simpa using hcb)]

/-- What is put under a name that is no account's is not listed. -/
theorem entries_insert_other {name : List Char} (h : accountOf C (.utf8 name) = none) (x : Node) :
    entries C (fs.insert name x) = entries C fs := by
  unfold entries names Fs.insert
  cases fs.dir with
  | none => rfl
  | some dir =>
    show (AList.keys (AList.insert _ _ dir)).filterMap _ = dir.keys.filterMap _
    rw [AList.keys_insert, List.filterMap_cons_none h, filterMap_erase_none h]

theorem entries_erase_other {name : List Char} (h : accountOf C (.utf8 name) = none) :
    entries C (fs.erase name) = entries C fs := by
  unfold entries names Fs.erase
  cases fs.dir with
  | none => rfl
  | some dir =>
    show (AList.keys (AList.erase _ dir)).filterMap _ = dir.keys.filterMap _
    rw [AList.keys_erase, filterMap_erase_none h]

theorem entries_founded : entries C { fs with dir := some (fs.dir.getD ∅) } = entries C fs := by
  unfold entries names
  cases fs.dir <;> rfl

/-- Changes that touch no account's name leave the account files. -/
theorem entries_edits {N : List Char → Prop} (hN : ∀ name, N name → accountOf C (.utf8 name) = none)
    (h : Fs.Edits N fs fs') : entries C fs' = entries C fs := by
  induction h with
  | refl => rfl
  | tail _ hedit ih =>
    rw [← ih]
    cases hedit with
    | lock lock => rfl
    | founded => exact entries_founded
    | insert hname x => exact entries_insert_other (hN _ hname) x
    | erase hname => exact entries_erase_other (hN _ hname)

theorem accountOf_iff (hV : C.VaultLaws) (addr : Addr) (p : Bool) (name : OsString) :
    accountOf C name = some ⟨addr, p⟩ ↔ name = .utf8 (pathOf C addr p) := accountOf_eq_some hV

section

variable [DecidableEq Addr]

/-- A file put under an account's name is listed, first. -/
theorem entries_insert_own (hV : C.VaultLaws) (hdir : fs.dir.isSome) (addr : Addr) (p : Bool)
    (x : Node) : entries C (fs.insert (pathOf C addr p) x) =
      ⟨addr, p⟩ :: (entries C fs).erase ⟨addr, p⟩ := by
  obtain ⟨dir, hfs⟩ := Option.isSome_iff_exists.mp hdir
  unfold entries names Fs.insert
  rw [hfs]
  show (AList.keys (AList.insert _ _ dir)).filterMap _ =
    (⟨addr, p⟩ : StoredAccount Addr) :: (dir.keys.filterMap _).erase _
  rw [AList.keys_insert, List.filterMap_cons_some (accountOf_pathOf hV _ _),
    filterMap_erase_some (accountOf_iff hV addr p)]

theorem entries_erase_own (hV : C.VaultLaws) (addr : Addr) (p : Bool) :
    entries C (fs.erase (pathOf C addr p)) = (entries C fs).erase ⟨addr, p⟩ := by
  unfold entries names Fs.erase
  cases fs.dir with
  | none => rfl
  | some dir =>
    show (AList.keys (AList.erase _ dir)).filterMap _ = (dir.keys.filterMap _).erase _
    rw [AList.keys_erase, filterMap_erase_some (accountOf_iff hV addr p)]

/-! ### Listing them -/

/-- The listing depends on the account files alone. -/
theorem gather_congr {held : List (StoredAccount Addr)} {xs ys : List OsString}
    (h : xs.filterMap (accountOf C) = ys.filterMap (accountOf C)) :
    gather C held xs = gather C held ys := by
  -- What is no account's file is passed over, on either side.
  have hskip : ∀ (held : List (StoredAccount Addr)) (ys : List OsString),
      ys.filterMap (accountOf C) = [] → gather C held ys = .ok held := by
    intro held ys hys
    induction ys with
    | nil => rfl
    | cons y ys ih =>
      rcases hy : accountOf C y with - | account
      · rw [List.filterMap_cons_none hy] at hys
        rw [gather, hy]
        exact ih hys
      · rw [List.filterMap_cons_some hy] at hys
        cases hys
  induction xs generalizing held ys with
  | nil => exact (hskip held ys h.symm).symm
  | cons x xs ih =>
    rcases hx : accountOf C x with - | account
    · rw [List.filterMap_cons_none hx] at h
      rw [gather, hx]
      exact ih h
    · rw [List.filterMap_cons_some hx] at h
      rw [gather, hx]
      induction ys with
      | nil => cases h
      | cons y ys ihy =>
        rcases hy : accountOf C y with - | account'
        · rw [List.filterMap_cons_none hy] at h
          rw [gather, hy]
          exact ihy h
        · rw [List.filterMap_cons_some hy] at h
          obtain ⟨rfl, htail⟩ := List.cons.inj h
          rw [gather, hy]
          dsimp only
          split
          · rfl
          · exact ih htail

theorem listing_congr (h : entries C fs' = entries C fs) :
    listing C (names fs') = listing C (names fs) := by
  unfold listing
  rw [gather_congr h]

theorem single_iff : Single C fs ↔ ∃ l, listing C (names fs) = .ok l :=
  ⟨fun h => ⟨_, listing_eq_ok.mpr ⟨h, rfl⟩⟩, fun ⟨_, h⟩ => (listing_eq_ok.mp h).1⟩

/-- The account listed is the one whose file is there. -/
theorem find?_listing (hV : C.VaultLaws) {l : List (StoredAccount Addr)}
    (h : listing C (names fs) = .ok l) {account : StoredAccount Addr} :
    l.find? (·.addr = addr) = some account ↔
      account.addr = addr ∧ (fs.node (pathOf C addr account.protected_)).isSome := by
  constructor
  · intro hfind
    have haddr : account.addr = addr := by simpa using List.find?_some hfind
    subst haddr
    exact ⟨rfl, mem_names.mp ((mem_listing hV h).mp (List.mem_of_find?_eq_some hfind))⟩
  · rintro ⟨rfl, hnode⟩
    exact find?_addr (listing_nodup h) ((mem_listing hV h).mpr (mem_names.mpr hnode))

end

/-! ### The relation -/

/-- The accounts listed are the same, or listed without complaint in both. -/
def ListedAlike (C : Crates Addr) (fs fs' : Fs) : Prop :=
  entries C fs' = entries C fs ∨ Single C fs ∧ Single C fs'

theorem ListedAlike.symm (h : ListedAlike C fs fs') : ListedAlike C fs' fs :=
  h.imp Eq.symm And.symm

theorem ListedAlike.single (h : ListedAlike C fs fs') : Single C fs' ↔ Single C fs := by
  rcases h with heq | ⟨hs, hs'⟩
  · unfold Single
    rw [heq]
  · exact iff_of_true hs' hs

theorem ListedAlike.trans (h : ListedAlike C fs fs') (h' : ListedAlike C fs' fs'') :
    ListedAlike C fs fs'' := by
  rcases h' with heq | ⟨hs', hs''⟩
  · exact h.imp heq.trans fun hs => ⟨hs.1, by rw [Single, heq]; exact hs.2⟩
  · exact .inr ⟨h.single.mp hs', hs''⟩

/-- Two directories are alike, whichever account is asked about. -/
structure Around (C : Crates Addr) (fs fs' : Fs) : Prop where
  /-- What is in the way of the lock file is in both. -/
  lockFile : fs'.isDir lockFile = fs.isDir lockFile
  /-- What is in the way of a new list of observed accounts is in both. -/
  newList : fs'.isDir Observed.stagedFile = fs.isDir Observed.stagedFile
  listed : ListedAlike C fs fs'

/-- Two directories are alike for one account. -/
structure AlikeFor (C : Crates Addr) (addr : Addr) (fs fs' : Fs) : Prop
    extends Around C fs fs' where
  lock : fs'.lock = fs.lock
  own : ∀ p, fs'.node (pathOf C addr p) = fs.node (pathOf C addr p)
  stage : fs'.node (stageName C addr) = fs.node (stageName C addr)

namespace AlikeFor

theorem refl (fs : Fs) : AlikeFor C addr fs fs := ⟨⟨rfl, rfl, .inl rfl⟩, rfl, fun _ => rfl, rfl⟩

theorem symm (h : AlikeFor C addr fs fs') : AlikeFor C addr fs' fs :=
  ⟨⟨h.lockFile.symm, h.newList.symm, h.listed.symm⟩, h.lock.symm, fun p => (h.own p).symm,
    h.stage.symm⟩

theorem trans (h : AlikeFor C addr fs fs') (h' : AlikeFor C addr fs' fs'') :
    AlikeFor C addr fs fs'' :=
  ⟨⟨h'.lockFile.trans h.lockFile, h'.newList.trans h.newList, h.listed.trans h'.listed⟩,
    h'.lock.trans h.lock, fun p => (h'.own p).trans (h.own p), h'.stage.trans h.stage⟩

theorem present (h : AlikeFor C addr fs fs') : Present C fs' addr ↔ Present C fs addr := by
  unfold Present
  simp only [h.own]

end AlikeFor

/-- The only directories the call makes or takes away are stages. -/
def OnlyStages (C : Crates Addr) (c : FsCall) : Prop :=
  ∀ name, c = .createDir name ∨ c = .removeDirAll name → ∃ addr, name = stageName C addr

theorem isDir_onlyStages {c : FsCall} {r : Except IoError c.Value} (hstages : OnlyStages C c)
    (h : fs.Step 0 c r fs') : fs'.isDir lockFile = fs.isDir lockFile ∧
      fs'.isDir Observed.stagedFile = fs.isDir Observed.stagedFile := by
  constructor
  · refine h.isDir_eq ?_ ?_
    · intro hc
      obtain ⟨addr, haddr⟩ := hstages _ (.inl hc)
      exact stageName_ne_lockFile C addr haddr.symm
    · intro hc
      obtain ⟨addr, haddr⟩ := hstages _ (.inr hc)
      exact stageName_ne_lockFile C addr haddr.symm
  · refine h.isDir_eq ?_ ?_
    · intro hc
      obtain ⟨addr, haddr⟩ := hstages _ (.inl hc)
      exact stageName_ne_stagedFile C addr haddr.symm
    · intro hc
      obtain ⟨addr, haddr⟩ := hstages _ (.inr hc)
      exact stageName_ne_stagedFile C addr haddr.symm

/-- A call that names nothing of the account's leaves a directory alike for it. -/
theorem AlikeFor.of_step {c : FsCall} {r : Except IoError c.Value} (h : fs.Step 0 c r fs')
    (hstages : OnlyStages C c) (hlock : fs'.lock = fs.lock)
    (hown : ∀ p, pathOf C addr p ∉ c.changes) (hstage : stageName C addr ∉ c.changes)
    (hlisted : ListedAlike C fs fs') : AlikeFor C addr fs fs' where
  lockFile := (isDir_onlyStages hstages h).1
  newList := (isDir_onlyStages hstages h).2
  listed := hlisted
  lock := hlock
  own p := h.node_eq (hown p)
  stage := h.node_eq hstage

/-- A call that names no account's file. -/
theorem AlikeFor.of_step_aside (hV : C.VaultLaws) {c : FsCall} {r : Except IoError c.Value}
    (h : fs.Step 0 c r fs') (hstages : OnlyStages C c) (hlock : fs'.lock = fs.lock)
    (hnames : ∀ name ∈ c.changes, accountOf C (.utf8 name) = none ∧ name ≠ stageName C addr) :
    AlikeFor C addr fs fs' := by
  refine .of_step h hstages hlock (fun p hmem => ?_) (fun hmem => ?_) (.inl ?_)
  · have hnone := (hnames _ hmem).1
    rw [accountOf_pathOf hV] at hnone
    cases hnone
  · exact (hnames _ hmem).2 rfl
  · exact entries_edits (fun name hname => (hnames name hname).1) h.edits

/-! ### Calls -/

/-- An account's own names. -/
def Own (C : Crates Addr) (addr : Addr) (name : List Char) : Prop :=
  name = stageName C addr ∨ ∃ p, name = pathOf C addr p

/-- Alike, and both there. -/
structure Founded (C : Crates Addr) (addr : Addr) (fs fs' : Fs) : Prop extends
    AlikeFor C addr fs fs' where
  dir : fs'.dir.isSome = fs.dir.isSome

theorem Founded.sameOn (h : Founded C addr fs fs') : Fs.SameOn (Own C addr) fs fs' where
  lock := h.lock
  dir := h.dir
  node name hname := by
    rcases hname with rfl | ⟨p, rfl⟩
    · exact h.stage
    · exact h.own p

/-- A call that names only the account's own is answered the same in both, and leaves them alike
where it leaves the accounts listed alike. -/
theorem Founded.matched (h : Founded C addr fs fs') {c : FsCall} (hc : c ≠ .readDir)
    (hsees : ∀ name ∈ c.sees, Own C addr name) (hstages : OnlyStages C c) (fault : Option Fault)
    (hlisted : ListedAlike C (fs.exec 0 c fault).2 (fs'.exec 0 c fault).2) :
    Matched (Founded C addr) (Same (Founded C addr)) (fs.exec 0 c fault) (fs'.exec 0 c fault) := by
  obtain ⟨hlock, hnew⟩ := isDir_onlyStages hstages (fs.exec_step 0 c fault)
  obtain ⟨hlock', hnew'⟩ := isDir_onlyStages hstages (fs'.exec_step 0 c fault)
  have haround : Around C (fs.exec 0 c fault).2 (fs'.exec 0 c fault).2 :=
    ⟨by rw [hlock, hlock', h.lockFile], by rw [hnew, hnew', h.newList], hlisted⟩
  have hfounded : ∀ s t, Fs.SameOn (Own C addr) s t → Around C s t → Founded C addr s t :=
    fun s t hsame haround => ⟨⟨haround, hsame.lock, fun p => hsame.node _ (.inr ⟨p, rfl⟩),
      hsame.node _ (.inl rfl)⟩, hsame.dir⟩
  refine ((h.sameOn.matched 0 hc hsees fault).also haround).mono ?_ ?_
  · exact fun s t hst => hfounded s t hst.1 hst.2
  · exact fun a b s t hst => ⟨hst.1.1, hfounded s t hst.1.2 hst.2⟩

theorem accountOf_stageName (hV : C.VaultLaws) (addr : Addr) :
    accountOf C (.utf8 (stageName C addr)) = none := by
  rw [Option.eq_none_iff_forall_ne_some]
  intro account haccount
  have hname := (accountOf_eq_some hV).mp haccount
  exact pathOf_ne_stageName hV account.addr addr account.protected_ (OsString.utf8.inj hname).symm

theorem FsCall.changes_subset_sees {c : FsCall} {name : List Char} (h : name ∈ c.changes) :
    name ∈ c.sees := by
  cases c <;> first | exact h | cases h

/-- A call that names only an account's stage leaves the account files. -/
theorem stage_entries (hV : C.VaultLaws) {c : FsCall}
    (hsees : ∀ name ∈ c.sees, name = stageName C addr)
    {r : Except IoError c.Value} (h : fs.Step 0 c r fs') : entries C fs' = entries C fs := by
  refine entries_edits (fun name hname => ?_) h.edits
  rw [hsees name (FsCall.changes_subset_sees hname)]
  exact accountOf_stageName hV addr

theorem stage_present (hV : C.VaultLaws) {other : Addr} {c : FsCall}
    (hsees : ∀ name ∈ c.sees, name = stageName C other) {r : Except IoError c.Value}
    (h : fs.Step 0 c r fs') : Present C fs' addr ↔ Present C fs addr := by
  have hnode : ∀ p, fs'.node (pathOf C addr p) = fs.node (pathOf C addr p) := by
    intro p
    refine h.node_eq fun hname => ?_
    exact pathOf_ne_stageName hV addr other p (hsees _ (FsCall.changes_subset_sees hname))
  unfold Present
  simp only [hnode]

/-- A call that names only the account's stage. -/
theorem Founded.matched_stage (hV : C.VaultLaws) (h : Founded C addr fs fs') {c : FsCall}
    (hc : c ≠ .readDir) (hsees : ∀ name ∈ c.sees, name = stageName C addr) (fault : Option Fault) :
    Matched (Founded C addr) (Same (Founded C addr)) (fs.exec 0 c fault) (fs'.exec 0 c fault) := by
  have hentries : ∀ fs : Fs, entries C (fs.exec 0 c fault).2 = entries C fs :=
    fun fs => stage_entries hV hsees (fs.exec_step 0 c fault)
  refine h.matched hc (fun name hname => .inl (hsees name hname)) ?_ fault ?_
  · intro name hname
    refine ⟨addr, hsees name ?_⟩
    rcases hname with rfl | rfl
    · exact List.mem_cons_self
    · exact List.mem_cons_self
  · have hlisted := h.listed
    unfold ListedAlike Single at hlisted ⊢
    rwa [hentries, hentries]

theorem Founded.io_stage (hV : C.VaultLaws) {d d' : Disk} (h : d.Related (Founded C addr) d')
    (c : FsCall) (hc : c ≠ .readDir) (hsees : ∀ name ∈ c.sees, name = stageName C addr) :
    Disk.Matches (Founded C addr) (Same (Founded C addr))
      (FsM.io .io c : FsM (VaultError Addr) c.Value) (FsM.io .io c) d d' :=
  Disk.matches_io h.faults fun fault => h.fs.matched_stage hV hc hsees fault

/-- Making the directory. -/
theorem AlikeFor.createDirAll (hV : C.VaultLaws) (h : AlikeFor C addr fs fs')
    (fault : Option Fault) :
    Matched (AlikeFor C addr) (Same (Founded C addr)) (fs.exec 0 .createDirAll fault)
      (fs'.exec 0 .createDirAll fault) := by
  rcases fault with - | fault
  · have haside : ∀ fs : Fs, AlikeFor C addr fs { fs with dir := some (fs.dir.getD ∅) } := by
      intro fs
      have hstep : fs.Step 0 .createDirAll (.ok ()) { fs with dir := some (fs.dir.getD ∅) } :=
        ⟨none, rfl⟩
      refine .of_step_aside hV hstep (by simp [OnlyStages]) rfl fun name hname => ?_
      cases hname
    exact .ok ⟨rfl, ((haside fs).symm.trans h).trans (haside fs'), rfl⟩
  · exact .error h

theorem accountOf_lockFile (hV : C.VaultLaws) : accountOf C (.utf8 lockFile) = none := by
  rw [Option.eq_none_iff_forall_ne_some]
  intro account haccount
  have hname := (accountOf_eq_some hV).mp haccount
  exact pathOf_ne_lockFile hV account.addr account.protected_ (OsString.utf8.inj hname).symm

theorem openLock_aside (hV : C.VaultLaws) {r : Except IoError Unit}
    (h : fs.Step 0 (.openLock lockFile) r fs') : AlikeFor C addr fs fs' := by
  refine .of_step_aside hV h (by simp [OnlyStages]) (h.lock_eq (by simp) (by simp))
    fun name hname => ?_
  obtain rfl : name = lockFile := by simpa [FsCall.changes] using hname
  exact ⟨accountOf_lockFile hV, (stageName_ne_lockFile C addr).symm⟩

/-- Opening the lock file, which need not be there in both. -/
theorem Founded.openLock (hV : C.VaultLaws) (h : Founded C addr fs fs') (fault : Option Fault) :
    Matched (Founded C addr) (Same (Founded C addr)) (fs.exec 0 (.openLock lockFile) fault)
      (fs'.exec 0 (.openLock lockFile) fault) := by
  have hfounded : Founded C addr (fs.exec 0 (.openLock lockFile) fault).2
      (fs'.exec 0 (.openLock lockFile) fault).2 := by
    have haside : AlikeFor C addr fs (fs.exec 0 (.openLock lockFile) fault).2 :=
      openLock_aside hV (fs.exec_step 0 _ fault)
    have haside' : AlikeFor C addr fs' (fs'.exec 0 (.openLock lockFile) fault).2 :=
      openLock_aside hV (fs'.exec_step 0 _ fault)
    have hdir : ∀ fs : Fs, (fs.exec 0 (.openLock lockFile) fault).2.dir.isSome = fs.dir.isSome := by
      intro fs
      rcases fault with - | fault
      · dsimp only [Fs.exec, Fs.perform]
        split
        · rfl
        · rfl
        · rfl
        · exact Fs.isSome_dir_insert fs _ _
      · rfl
    exact ⟨(haside.symm.trans h.toAlikeFor).trans haside', by rw [hdir, hdir, h.dir]⟩
  -- What is answered depends on the directory, and on what is in the way.
  have hanswer : (fs'.exec 0 (.openLock lockFile) fault).1 =
      (fs.exec 0 (.openLock lockFile) fault).1 := by
    rcases fault with - | fault
    · have hanswer : ∀ fs : Fs, (fs.exec 0 (.openLock lockFile) none).1 =
          if fs.dir.isSome then if fs.isDir lockFile then .error (.other 21) else .ok ()
          else .error .notFound := by
        intro fs
        dsimp only [Fs.exec, Fs.perform]
        rcases hfs : fs.dir with - | dir
        · rfl
        · rcases hnode : fs.node lockFile with - | file | staged <;> simp [Fs.isDir, hnode]
      rw [hanswer, hanswer, h.dir, h.lockFile]
    · rfl
  exact .same hanswer (fun _ _ => hfounded) fun _ _ => hfounded

theorem Founded.quiet_stage (hV : C.VaultLaws) {d d' : Disk} (h : d.Related (Founded C addr) d')
    (c : FsCall) (hc : c ≠ .readDir) (hsees : ∀ name ∈ c.sees, name = stageName C addr) :
    Disk.Matches (Founded C addr) (Same (Founded C addr)) (FsM.quiet c : FsM (VaultError Addr) Unit)
      (FsM.quiet c) d d' :=
  Disk.matches_quiet h.faults fun fault => (h.fs.matched_stage hV hc hsees fault).mono
    (fun _ _ h => ⟨rfl, h⟩) fun _ _ _ _ h => ⟨rfl, h.2⟩

/-- Ending a block with a call that names only the account's stage. -/
theorem Founded.dropping_stage (hV : C.VaultLaws) {α : Type} {d d' : Disk}
    {p q : FsM (VaultError Addr) α}
    (h : Disk.Matches (Founded C addr) (Same (Founded C addr)) p q d d')
    (c : FsCall) (hc : c ≠ .readDir) (hsees : ∀ name ∈ c.sees, name = stageName C addr) :
    Disk.Matches (Founded C addr) (Same (Founded C addr)) (FsM.dropping c p) (FsM.dropping c q)
      d d' := by
  have hleft : ∀ s t, Founded C addr s t → ∀ fault,
      Founded C addr (s.exec 0 c fault).2 (t.exec 0 c fault).2 := fun s t hst fault =>
    (hst.matched_stage hV hc hsees fault).snd (fun _ _ h => h) fun _ _ _ _ h => h.2
  refine h.dropping ?_ ?_
  · exact fun a b e e' hR fault => ⟨hR.fs.1, hleft _ _ hR.fs.2 fault⟩
  · exact fun e e' hR fault => hleft _ _ hR.fs fault

/-- Alike, both there, and with no file of the account. -/
structure Vacant (C : Crates Addr) (addr : Addr) (fs fs' : Fs) : Prop extends
    Founded C addr fs fs' where
  absent : ¬Present C fs addr
  single : Single C fs

theorem Vacant.io_stage (hV : C.VaultLaws) {d d' : Disk} (h : d.Related (Vacant C addr) d')
    (c : FsCall) (hc : c ≠ .readDir) (hsees : ∀ name ∈ c.sees, name = stageName C addr) :
    Disk.Matches (Vacant C addr) (Same (Vacant C addr))
      (FsM.io .io c : FsM (VaultError Addr) c.Value) (FsM.io .io c) d d' := by
  refine Disk.matches_io h.faults fun fault => ?_
  have hstep := d.fs.exec_step 0 c fault
  have hleft : ¬Present C (d.fs.exec 0 c fault).2 addr ∧ Single C (d.fs.exec 0 c fault).2 := by
    refine ⟨mt (stage_present hV hsees hstep).mp h.fs.absent, ?_⟩
    have hsingle := h.fs.single
    unfold Single at hsingle ⊢
    rwa [stage_entries hV hsees hstep]
  have hmatched := (h.fs.toFounded.matched_stage hV hc hsees fault).also
    (R := fun s _ => ¬Present C s addr ∧ Single C s) hleft
  refine hmatched.mono (fun s t hst => ⟨hst.1, hst.2.1, hst.2.2⟩) fun a b s t hst => ?_
  exact ⟨hst.1.1, hst.1.2, hst.2.1, hst.2.2⟩

/-- Once the lock file is open, the lock is there for both, or for neither. -/
theorem lock_alike (hV : C.VaultLaws) {d d' : Disk} (h : d.Related (Founded C addr) d') :
    Disk.Matches (Founded C addr) (Same (Founded C addr)) (lock : FsM (VaultError Addr) Unit) lock
      d d' := by
  unfold lock
  refine Disk.Matches.bind (Disk.matches_io h.faults fun fault => h.fs.openLock hV fault) ?_
  rintro u - e e' ⟨⟨rfl, hR⟩, hfaults⟩
  exact Founded.io_stage hV ⟨hR, hfaults⟩ .tryLock (by simp) (by simp [FsCall.sees, FsCall.changes])

/-! ### Programs that only look -/

theorem openSealed_alike {R : Fs → Fs → Prop} {d d' : Disk} (h : d.Related R d') {path : List Char}
    (hnode : ∀ s t, R s t → t.node path = s.node path) (password : String) :
    Disk.Matches R (Same R) (openSealed C path password) (openSealed C path password) d d' := by
  unfold openSealed
  refine Disk.Matches.bind (Disk.matches_io h.faults fun fault =>
    Disk.exec_readToString h.fs (hnode _ _ h.fs) fault) ?_
  rintro text - e e' ⟨⟨rfl, hR⟩, hfaults⟩
  refine Disk.Matches.bind (Q := Same R) (Disk.matches_ret ⟨hR, hfaults⟩ fun u _ =>
    ⟨⟨rfl, hR⟩, hfaults⟩) ?_
  rintro u - e e' ⟨⟨rfl, hR⟩, hfaults⟩
  refine Disk.Matches.bind (Q := Same R) ?_ ?_
  · refine Disk.matches_call hfaults (fun fault =>
      Disk.exec_readToString hR (hnode _ _ hR) fault) ?_ ?_
    · rintro text' - e e' ⟨⟨rfl, hR⟩, hfaults⟩
      exact Disk.matches_ret ⟨hR, hfaults⟩ fun secret _ => ⟨⟨rfl, hR⟩, hfaults⟩
    · rintro x e e' ⟨hR, hfaults⟩
      exact .error ⟨hR, hfaults⟩
  · rintro secret - e e' ⟨⟨rfl, hR⟩, hfaults⟩
    exact Disk.matches_ret ⟨hR, hfaults⟩ fun key _ => ⟨⟨rfl, hR⟩, hfaults⟩

variable [DecidableEq Addr]

/-- The accounts are read in one call. -/
theorem run_accounts (disk : Disk) : disk.run (accounts C).run =
    Disk.run ⟨(disk.fs.exec 0 .readDir disk.faults.head?.join).2, disk.faults.tail⟩
      (match (disk.fs.exec 0 .readDir disk.faults.head?.join).1 with
      | .error .notFound => .ret (.ok [])
      | .error e => .ret (.error (.io e))
      | .ok names => .ret (listing C names)) := rfl

/-- What listing answers, unless it is failed. -/
theorem accounts_eq (disk : Disk) : disk.run (accounts C).run =
    (match disk.faults.head?.join with
      | some fault => .error (.io (.other fault.code))
      | none => listing C (names disk.fs), ⟨disk.fs, disk.faults.tail⟩) := by
  rw [run_accounts]
  rcases disk.faults.head?.join with - | fault
  · dsimp only [Fs.exec, Fs.perform, names]
    rcases disk.fs.dir with - | dir
    · rfl
    · rfl
  · rfl

/-- Both directories list the account alike, or neither can be listed. -/
theorem accounts_alike (hV : C.VaultLaws) {R : Fs → Fs → Prop} {d d' : Disk} (h : d.Related R d')
    (hR : AlikeFor C addr d.fs d'.fs) :
    Disk.Matches R (fun l l' s t => R s t ∧ s = d.fs ∧ t = d'.fs ∧
        l'.find? (·.addr = addr) = l.find? (·.addr = addr) ∧ listing C (names s) = .ok l ∧
        listing C (names t) = .ok l') (accounts C) (accounts C) d d' := by
  unfold Disk.Matches
  rw [accounts_eq, accounts_eq, h.faults]
  rcases d.faults.head?.join with - | fault
  · have hfind : ∀ l l', listing C (names d.fs) = .ok l → listing C (names d'.fs) = .ok l' →
        l'.find? (·.addr = addr) = l.find? (·.addr = addr) := by
      intro l l' hl hl'
      ext account
      rw [find?_listing hV hl, find?_listing hV hl', hR.own]
    rcases hl : listing C (names d.fs) with e | l
    · rcases hR.listed with heq | ⟨hs, -⟩
      · rw [listing_congr heq, hl]
        exact .error ⟨h.fs, rfl⟩
      · obtain ⟨l, hok⟩ := single_iff.mp hs
        rw [hl] at hok
        cases hok
    · obtain ⟨l', hl'⟩ := single_iff.mp (hR.listed.single.mpr (single_iff.mpr ⟨l, hl⟩))
      rw [hl']
      exact .ok ⟨⟨h.fs, rfl, rfl, hfind l l' hl hl', hl, hl'⟩, rfl⟩
  · exact .error ⟨h.fs, rfl⟩

omit [DecidableEq Addr] in
/-- The file is opened as the password asks. -/
theorem openFile_alike {R : Fs → Fs → Prop} {e e' : Disk} (hR' : R e.fs e'.fs)
    (hfaults : e'.faults = e.faults) {path : List Char}
    (hnode : ∀ s t, R s t → t.node path = s.node path) (protected_ : Bool)
    (password : Option String) : Disk.Matches R (Same R) (match protected_, password with
      | true, some password => openSealed C path password
      | false, none => openClear path
      | true, none => throw .passwordRequired
      | false, some _ => throw .passwordNotRequired : FsM (VaultError Addr) Ed25519SigningKey)
      (match protected_, password with
      | true, some password => openSealed C path password
      | false, none => openClear path
      | true, none => throw .passwordRequired
      | false, some _ => throw .passwordNotRequired : FsM (VaultError Addr) Ed25519SigningKey)
      e e' := by
  split
  · exact openSealed_alike ⟨hR', hfaults⟩ hnode _
  · unfold openClear
    refine Disk.Matches.bind (Disk.matches_io hfaults fun fault =>
      Disk.exec_readToString hR' (hnode _ _ hR') fault) ?_
    rintro text - e e' ⟨⟨rfl, hR⟩, hfaults⟩
    exact Disk.matches_ret ⟨hR, hfaults⟩ fun key _ => ⟨⟨rfl, hR⟩, hfaults⟩
  · exact Disk.matches_throw ⟨hR', hfaults⟩
  · exact Disk.matches_throw ⟨hR', hfaults⟩

/-- Opening an account's key, which is the account's own. -/
theorem openKey_alike (hV : C.VaultLaws) {R : Fs → Fs → Prop}
    (hR : ∀ s t, R s t → AlikeFor C addr s t) {d d' : Disk} (h : d.Related R d')
    (password : Option String) :
    Disk.Matches R (fun key key' s t => Same R key key' s t ∧ C.addrOf key = addr)
      (openKey C addr password) (openKey C addr password) d d' := by
  unfold openKey
  refine (accounts_alike hV h (hR _ _ h.fs)).bind ?_
  rintro l l' e e' ⟨⟨hR', -, -, hfind, -⟩, hfaults⟩
  dsimp only
  rw [hfind]
  generalize l.find? (·.addr = addr) = found
  rcases found with - | held
  · exact Disk.matches_throw ⟨hR', hfaults⟩
  dsimp only
  have hnode : ∀ s t, R s t → t.node (pathOf C addr held.protected_) =
      s.node (pathOf C addr held.protected_) := fun s t hst => (hR s t hst).own _
  refine (openFile_alike hR' hfaults hnode held.protected_ password).bind ?_
  rintro key - e e' ⟨⟨rfl, hR⟩, hfaults⟩
  split
  · exact Disk.matches_throw ⟨hR, hfaults⟩
  · next haddr => exact Disk.matches_pure ⟨⟨⟨rfl, hR⟩, not_not.mp haddr⟩, hfaults⟩

/-! ### Programs that change the account's files -/

/-- The account files once one is put in, under the name of an account there was none of. -/
theorem rename_entries (hV : C.VaultLaws) {src : Addr} {p : Bool} {v : Unit}
    (h : fs.Step 0 (.rename (.staged (stageName C src)) (pathOf C addr p)) (.ok v) fs') :
    entries C fs' = ⟨addr, p⟩ :: (entries C fs).erase ⟨addr, p⟩ := by
  obtain ⟨file, hfile, rfl⟩ := h.rename_ok
  have hstaged : fs.staged (stageName C src) = some file := hfile
  have hdir := Fs.dir_isSome_of_node (Fs.node_eq_of_staged hstaged)
  show entries C ((fs.insert (stageName C src) (.dir none)).insert _ _) = _
  rw [entries_insert_own hV (by rwa [Fs.isSome_dir_insert]),
    entries_insert_other (accountOf_stageName hV src)]

theorem Single.rename (hV : C.VaultLaws) {src : Addr} {p : Bool} {v : Unit} (hs : Single C fs)
    (habsent : ¬Present C fs addr)
    (h : fs.Step 0 (.rename (.staged (stageName C src)) (pathOf C addr p)) (.ok v) fs') :
    Single C fs' := by
  unfold Single
  have hentries := rename_entries hV h
  rw [hentries, List.map_cons, List.nodup_cons]
  refine ⟨fun hmem => ?_, hs.sublist ((List.erase_sublist).map _)⟩
  obtain ⟨account, hmem, rfl⟩ := List.mem_map.mp hmem
  exact habsent ⟨account.protected_, (mem_entries hV).mp (List.mem_of_mem_erase hmem)⟩

/-- The account files once one is taken away. -/
theorem removeFile_entries (hV : C.VaultLaws) {p : Bool} {v : Unit}
    (h : fs.Step 0 (.removeFile (pathOf C addr p)) (.ok v) fs') :
    entries C fs' = (entries C fs).erase ⟨addr, p⟩ := by
  obtain ⟨-, rfl⟩ := h.removeFile_ok
  exact entries_erase_own hV addr p

theorem Single.removeFile (hV : C.VaultLaws) {p : Bool} {v : Unit} (hs : Single C fs)
    (h : fs.Step 0 (.removeFile (pathOf C addr p)) (.ok v) fs') : Single C fs' := by
  unfold Single
  rw [removeFile_entries hV h]
  exact hs.sublist ((List.erase_sublist).map _)

/-- Giving the staged file the account's name, where there is no file of it. -/
theorem Founded.rename (hV : C.VaultLaws) (h : Founded C addr fs fs')
    (habsent : ¬Present C fs addr) (hs : Single C fs) (p : Bool) (fault : Option Fault) :
    Matched (Founded C addr) (Same (Founded C addr))
      (fs.exec 0 (.rename (.staged (stageName C addr)) (pathOf C addr p)) fault)
      (fs'.exec 0 (.rename (.staged (stageName C addr)) (pathOf C addr p)) fault) := by
  have hsingle : ∀ fs : Fs, Single C fs → ¬Present C fs addr → Single C
      (fs.exec 0 (.rename (.staged (stageName C addr)) (pathOf C addr p)) fault).2 := by
    intro fs hs habsent
    have hstep := fs.exec_step 0 (.rename (.staged (stageName C addr)) (pathOf C addr p)) fault
    generalize fs.exec 0 (.rename (.staged (stageName C addr)) (pathOf C addr p)) fault =
      x at hstep ⊢
    obtain ⟨e | v, fs₁⟩ := x
    · rw [hstep.error_eq (by simp) (by simp)]
      exact hs
    · exact hs.rename hV habsent hstep
  refine h.matched (by simp) (fun name hname => ?_) (by simp [OnlyStages]) fault (.inr ⟨?_, ?_⟩)
  · have hname' : name = pathOf C addr p ∨ name = stageName C addr := by
      simpa [FsCall.sees, FsCall.changes, Path.name] using hname
    exact hname'.symm.imp_right fun heq => ⟨p, heq⟩
  · exact hsingle fs hs habsent
  · exact hsingle fs' (h.listed.single.mpr hs) (mt h.present.mp habsent)

/-- What removing a key file leaves of the files listed. -/
theorem entries_removeFile (hV : C.VaultLaws) (p : Bool) (fault : Option Fault) (fs : Fs) :
    entries C (fs.exec 0 (.removeFile (pathOf C addr p)) fault).2 =
      match (fs.exec 0 (.removeFile (pathOf C addr p)) fault).1 with
      | .ok _ => (entries C fs).erase ⟨addr, p⟩
      | .error _ => entries C fs := by
  have hstep := fs.exec_step 0 (.removeFile (pathOf C addr p)) fault
  generalize fs.exec 0 (.removeFile (pathOf C addr p)) fault = x at hstep ⊢
  obtain ⟨e | v, fs₁⟩ := x
  · rw [hstep.error_eq (by simp) (by simp)]
  · exact removeFile_entries hV hstep

/-- Taking a file of the account's away. -/
theorem Founded.removeFile (hV : C.VaultLaws) (h : Founded C addr fs fs') (p : Bool)
    (fault : Option Fault) :
    Matched (Founded C addr) (Same (Founded C addr))
      (fs.exec 0 (.removeFile (pathOf C addr p)) fault)
      (fs'.exec 0 (.removeFile (pathOf C addr p)) fault) := by
  have hsees : ∀ name ∈ (FsCall.removeFile (pathOf C addr p)).sees, Own C addr name := by
    intro name hname
    exact .inr ⟨p, by simpa [FsCall.sees, FsCall.changes] using hname⟩
  have hanswer := (h.sameOn.matched 0 (c := .removeFile (pathOf C addr p)) (by simp) hsees
    fault).fst_eq
  refine h.matched (by simp) hsees (by simp [OnlyStages]) fault ?_
  unfold ListedAlike Single
  rw [entries_removeFile hV, entries_removeFile hV, hanswer]
  rcases (fs.exec 0 (.removeFile (pathOf C addr p)) fault).1 with e | v
  · exact h.listed
  · rcases h.listed with heq | ⟨hs, hs'⟩
    · rw [heq]
      exact .inl rfl
    · exact .inr ⟨hs.sublist ((List.erase_sublist).map _), hs'.sublist ((List.erase_sublist).map _)⟩

theorem promote_alike (hV : C.VaultLaws) {d d' : Disk} (h : d.Related (Vacant C addr) d')
    (p : Bool) : Disk.Matches (Founded C addr) (Same (Founded C addr))
      (promote (stageName C addr) (pathOf C addr p) : FsM (VaultError Addr) Unit)
      (promote (stageName C addr) (pathOf C addr p)) d d' := by
  have hfounded : ∀ fs fs', Vacant C addr fs fs' → Founded C addr fs fs' := fun _ _ h => h.toFounded
  unfold promote
  refine Disk.Matches.bind ((Vacant.io_stage hV h (.setMode (.staged (stageName C addr)) 0o600)
    (by simp) (by simp [FsCall.sees, Path.name])).weaken hfounded fun _ _ h => h) ?_
  rintro u - e e' ⟨⟨rfl, hR⟩, hfaults⟩
  refine Disk.Matches.bind ((Vacant.io_stage hV ⟨hR, hfaults⟩
    (.syncAll (.staged (stageName C addr))) (by simp)
    (by simp [FsCall.sees, FsCall.changes, Path.name])).weaken hfounded fun _ _ h => h) ?_
  rintro u - e e' ⟨⟨rfl, hR⟩, hfaults⟩
  refine Disk.Matches.bind (Disk.matches_io hfaults fun fault =>
    hR.toFounded.rename hV hR.absent hR.single p fault) ?_
  rintro u - e e' ⟨⟨rfl, hR⟩, hfaults⟩
  refine Disk.matches_quiet hfaults fun fault => ?_
  refine (hR.matched_stage hV (c := .syncDir) (by simp) (by simp [FsCall.sees, FsCall.changes])
    fault).mono (fun _ _ h => ⟨rfl, h⟩) fun _ _ _ _ h => ⟨rfl, h.2⟩

/-- The part of a create made under the lock. -/
theorem create_locked_alike (hV : C.VaultLaws) {d d' : Disk} (h : d.Related (Founded C addr) d')
    (p : Bool) {body : FsM (VaultError Addr) Addr} (hbody : body = (do
      let held ← accounts C
      if held.any (·.addr = addr) then throw (.accountExists addr)
      promote (stageName C addr) (pathOf C addr p)
      return addr)) :
    Disk.Matches (Founded C addr) (Same (Founded C addr)) body body d d' := by
  rw [hbody]
  refine (accounts_alike hV h h.fs.toAlikeFor).bind ?_
  rintro l l' e e' ⟨⟨hR, -, -, hfind, hl, -⟩, hfaults⟩
  dsimp only
  rw [← List.isSome_find?, ← List.isSome_find?, hfind]
  generalize hfound : l.find? (·.addr = addr) = found
  rcases found with - | held
  · -- The listing shows no file of the account.
    have habsent : ¬Present C e.fs addr := by
      rintro ⟨q, hq⟩
      have hsome : l.find? (·.addr = addr) = some ⟨addr, q⟩ := (find?_listing hV hl).mpr ⟨rfl, hq⟩
      rw [hfound] at hsome
      cases hsome
    refine Disk.Matches.bind
      (promote_alike hV ⟨⟨hR, habsent, single_iff.mpr ⟨l, hl⟩⟩, hfaults⟩ p) ?_
    rintro u - e e' ⟨⟨rfl, hR⟩, hfaults⟩
    exact Disk.matches_pure ⟨⟨rfl, hR⟩, hfaults⟩
  · exact Disk.matches_throw ⟨hR, hfaults⟩

/-- Taking a key of the account's into the vault. -/
theorem create_alike (hV : C.VaultLaws) {key : Ed25519SigningKey} {d d' : Disk}
    (h : d.Related (AlikeFor C (C.addrOf key)) d') (password : Option String) (seed : ℕ) :
    Disk.Matches (AlikeFor C (C.addrOf key)) (Same (AlikeFor C (C.addrOf key)))
      (create C key password seed) (create C key password seed) d d' := by
  unfold create
  split
  · exact Disk.matches_throw h
  dsimp only
  refine Disk.Matches.bind (Disk.matches_io h.faults fun fault => h.fs.createDirAll hV fault) ?_
  rintro u - e e' ⟨⟨rfl, hR⟩, hfaults⟩
  refine Disk.Matches.weaken ?_ (fun _ _ => Founded.toAlikeFor) fun _ _ => Founded.toAlikeFor
  refine Disk.Matches.bind (Founded.io_stage hV ⟨hR, hfaults⟩ (.setMode .root 0o700)
    (by simp) (by simp [FsCall.sees, Path.name])) ?_
  rintro u - e e' ⟨⟨rfl, hR⟩, hfaults⟩
  refine Disk.Matches.bind (Founded.quiet_stage hV ⟨hR, hfaults⟩
    (.removeDirAll (stageName C (C.addrOf key))) (by simp)
      (by simp [FsCall.sees, FsCall.changes])) ?_
  rintro u - e e' ⟨⟨rfl, hR⟩, hfaults⟩
  refine Disk.Matches.bind (Founded.io_stage hV ⟨hR, hfaults⟩
    (.createDir (stageName C (C.addrOf key))) (by simp) (by simp [FsCall.sees, FsCall.changes])) ?_
  rintro u - e e' ⟨⟨rfl, hR⟩, hfaults⟩
  refine Founded.dropping_stage hV ?_ _ (by simp) (by simp [FsCall.sees, FsCall.changes])
  refine Disk.Matches.bind (Founded.io_stage hV ⟨hR, hfaults⟩
    (.setMode (.top (stageName C (C.addrOf key))) 0o700) (by simp)
    (by simp [FsCall.sees, Path.name])) ?_
  rintro u - e e' ⟨⟨rfl, hR⟩, hfaults⟩
  refine Disk.Matches.bind (Founded.io_stage hV ⟨hR, hfaults⟩
    (.write (.staged (stageName C (C.addrOf key))) (keyFile C key password seed)) (by simp)
    (by simp [FsCall.sees, FsCall.changes, Path.name])) ?_
  rintro u - e e' ⟨⟨rfl, hR⟩, hfaults⟩
  refine Disk.Matches.bind (lock_alike hV ⟨hR, hfaults⟩) ?_
  rintro u - e e' ⟨⟨rfl, hR⟩, hfaults⟩
  refine Founded.dropping_stage hV ?_ _ (by simp) (by simp [FsCall.sees, FsCall.changes])
  exact create_locked_alike hV ⟨hR, hfaults⟩ _ rfl

/-- Dropping the account from the vault. -/
theorem forget_alike (hV : C.VaultLaws) {d d' : Disk} (h : d.Related (AlikeFor C addr) d') :
    Disk.Matches (AlikeFor C addr) (Same (AlikeFor C addr)) (forget C addr) (forget C addr)
      d d' := by
  unfold forget
  refine (accounts_alike hV h h.fs).bind ?_
  rintro l l' e e' ⟨⟨hR, -, -, hfind, hl, hl'⟩, hfaults⟩
  rw [hfind]
  generalize hfound : l.find? (·.addr = addr) = found
  rcases found with - | held
  · exact Disk.matches_throw ⟨hR, hfaults⟩
  have hdir : e'.fs.dir.isSome = e.fs.dir.isSome := by
    have hnode := ((find?_listing hV hl).mp hfound).2
    have hnode' := ((find?_listing hV hl').mp (hfind.trans hfound)).2
    obtain ⟨x, hx⟩ := Option.isSome_iff_exists.mp hnode
    obtain ⟨x', hx'⟩ := Option.isSome_iff_exists.mp hnode'
    rw [Fs.dir_isSome_of_node hx, Fs.dir_isSome_of_node hx']
  refine Disk.Matches.weaken ?_ (fun _ _ => Founded.toAlikeFor) fun _ _ => Founded.toAlikeFor
  have hfounded : e.Related (Founded C addr) e' := ⟨⟨hR, hdir⟩, hfaults⟩
  refine Disk.Matches.bind (lock_alike hV hfounded) ?_
  rintro u - e e' ⟨⟨rfl, hR⟩, hfaults⟩
  refine Founded.dropping_stage hV ?_ _ (by simp) (by simp [FsCall.sees, FsCall.changes])
  exact Disk.matches_io hfaults fun fault => hR.removeFile hV held.protected_ fault

end AccountLogUi.Vault
