import AccountLogUi.Fs.Equiv.Calls

/-!
# Changes to a directory

What a call did to the directory is some `Edits` of the entries it may change (`Fs.Step.edits`): an
invariant of the directory is shown kept by one entry put in, and by one taken out.  Whether a name
is a directory's only making one and taking one away change (`Fs.Step.isDir_eq`), and where there is
no file only three calls make one (`Fs.Step.file_eq_none`).
-/

namespace AccountLogUi

namespace Fs

/-- A directory has that name. -/
def isDir (fs : Fs) (name : List Char) : Bool :=
  match fs.node name with
  | some (.dir _) => true
  | _ => false

theorem isDir_congr {fs fs' : Fs} {name : List Char} (h : fs'.node name = fs.node name) :
    fs'.isDir name = fs.isDir name := by
  unfold isDir
  rw [h]

theorem node_insert (fs : Fs) (name other : List Char) (x : Node) :
    (fs.insert name x).node other =
      if other = name then (if fs.dir.isSome then some x else none) else fs.node other := by
  split
  · next heq =>
    subst heq
    split
    · next hdir => exact node_insert_self hdir _ x
    · next hdir =>
      have hnone : fs.dir = none := by simpa using hdir
      simp [node, insert, hnone]
  · next hne => exact node_insert_ne fs hne x

/-- What was put under a name goes when the name is taken away. -/
theorem erase_insert (fs : Fs) (name : List Char) (x : Node) :
    (fs.insert name x).erase name = fs.erase name := by
  obtain ⟨dir, lock⟩ := fs
  rcases dir with - | dir
  · rfl
  · have hentries : (dir.insert (.utf8 name) x).erase (.utf8 name) = dir.erase (.utf8 name) :=
      AList.ext (List.kerase_cons_eq rfl)
    unfold insert erase
    dsimp only [Option.map_some]
    rw [hentries]

theorem node_erase (fs : Fs) (name other : List Char) :
    (fs.erase name).node other = if other = name then none else fs.node other := by
  split
  · next heq =>
    subst heq
    exact node_erase_self fs _
  · next hne => exact node_erase_ne fs hne

/-! ### Changes to a directory -/

/-- One change: to who holds the lock, or to an entry of one of those names. -/
inductive Edit (N : List Char → Prop) (fs : Fs) : Fs → Prop
  | lock (lock : Option ℕ) : Edit N fs { fs with lock := lock }
  | founded : Edit N fs { fs with dir := some (fs.dir.getD ∅) }
  | insert {name : List Char} (hname : N name) (x : Node) : Edit N fs (fs.insert name x)
  | erase {name : List Char} (hname : N name) : Edit N fs (fs.erase name)

/-- Any number of them. -/
abbrev Edits (N : List Char → Prop) : Fs → Fs → Prop := Relation.ReflTransGen (Edit N)

/-- No change takes the directory itself away. -/
theorem Edits.dir_isSome {N : List Char → Prop} {fs fs' : Fs} (h : Edits N fs fs')
    (hdir : fs.dir.isSome) : fs'.dir.isSome := by
  induction h with
  | refl => exact hdir
  | tail _ hedit ih =>
    cases hedit with
    | lock lock => exact ih
    | founded => rfl
    | insert hname x => rwa [isSome_dir_insert]
    | erase hname => rwa [isSome_dir_erase]

theorem putFile_edits {N : List Char → Prop} (fs : Fs) {path : Path}
    (h : ∀ name ∈ path.name.toList, N name) (file : File) : Edits N fs (fs.putFile path file) := by
  rcases path with - | name | name
  · exact .refl
  · exact .single (.insert (h name (by simp [Path.name])) _)
  · exact .single (.insert (h name (by simp [Path.name])) _)

theorem writeFile_edits {N : List Char → Prop} (fs : Fs) {path : Path}
    (h : ∀ name ∈ path.name.toList, N name) (content : Content) :
    Edits N fs (fs.writeFile path content).2 := by
  have hput := putFile_edits fs h ⟨content, false⟩
  unfold writeFile
  split
  · exact .refl
  · split
    · exact .refl
    · exact .refl
    · exact hput
  · split
    · exact .refl
    · exact .refl
    · exact hput

theorem takeFile_edits {N : List Char → Prop} (fs : Fs) {path : Path}
    (h : ∀ name ∈ path.name.toList, N name) : Edits N fs (fs.takeFile path) := by
  rcases path with - | name | name
  · exact .refl
  · exact .single (.erase (h name (by simp [Path.name])))
  · exact .single (.insert (h name (by simp [Path.name])) _)

/-- A call given a fault, or none, is one way it can go. -/
theorem exec_step (pid : ℕ) (fs : Fs) (c : FsCall) (fault : Option Fault) :
    fs.Step pid c (fs.exec pid c fault).1 (fs.exec pid c fault).2 := ⟨fault, rfl⟩

/-- A call makes changes to the entries it may change, and no others. -/
theorem Step.edits {pid : ℕ} {fs fs' : Fs} {c : FsCall} {r : Except IoError c.Value}
    (h : fs.Step pid c r fs') : Edits (· ∈ c.changes) fs fs' := by
  obtain ⟨fault, he⟩ := h
  obtain rfl : (fs.exec pid c fault).2 = fs' := by rw [he]
  unfold exec
  split
  · cases c with
    | createDirAll => exact .single .founded
    | write path content => exact writeFile_edits fs (fun _ hname => hname) content
    | unlock =>
      dsimp only [perform]
      split
      · exact .single (.lock _)
      · exact .refl
    | tryLock =>
      dsimp only [perform]
      split
      · exact .single (.lock _)
      · exact .refl
    | rename src dest =>
      dsimp only [perform, renameFile]
      split
      · exact .refl
      · exact .refl
      · refine (takeFile_edits fs fun name hname => ?_).tail (.insert ?_ _)
        · exact List.mem_cons_of_mem _ hname
        · exact List.mem_cons_self
    | syncAll path =>
      dsimp only [perform]
      split
      · exact .refl
      · exact putFile_edits fs (fun _ hname => hname) _
    | removeDirAll name | removeFile name =>
      dsimp only [perform]
      split
      · exact .refl
      · exact .refl
      · exact .single (.erase (by simp [FsCall.changes]))
    | createDir name =>
      dsimp only [perform]
      split
      · exact .refl
      · exact .refl
      · exact .single (.insert (by simp [FsCall.changes]) _)
    | openLock name =>
      dsimp only [perform]
      split
      · exact .refl
      · exact .refl
      · exact .refl
      · exact .single (.insert (by simp [FsCall.changes]) _)
    | readDir | readToString name =>
      dsimp only [perform]
      split <;> exact .refl
    | setMode path mode | syncDir => exact .refl
  · dsimp only [perform]
    split
    · exact .single (.lock _)
    · exact .refl
  · dsimp only [spoil]
    split
    · split
      · exact .refl
      · exact writeFile_edits fs (fun _ hname => hname) _
    · split
      · exact .single (.insert (by simp [FsCall.changes]) _)
      · exact .refl
    · exact .refl

/-! ### Directories among the entries -/

theorem isDir_eq_true {fs : Fs} {name : List Char} :
    fs.isDir name = true ↔ ∃ staged, fs.node name = some (.dir staged) := by
  unfold isDir
  split
  · next staged h => simp [h]
  · next h => simpa using fun staged hstaged => h staged hstaged

theorem not_dir_of_isDir {fs : Fs} {name : List Char} (h : fs.isDir name = false)
    (d : Option File) : fs.node name ≠ some (.dir d) := by
  intro hd
  rw [isDir_eq_true.mpr ⟨d, hd⟩] at h
  cases h

theorem isDir_insert_file (fs : Fs) {name : List Char} (hname : fs.isDir name = false) (file : File)
    (other : List Char) : (fs.insert name (.file file)).isDir other = fs.isDir other := by
  by_cases heq : other = name
  · subst heq
    rw [hname]
    unfold isDir
    rw [node_insert, if_pos rfl]
    split
    · next h =>
      split at h
      · cases h
      · cases h
    · rfl
  · exact isDir_congr (node_insert_ne fs heq _)

theorem isDir_insert_dir (fs : Fs) {name : List Char} {staged : Option File}
    (hname : fs.node name = some (.dir staged)) (staged' : Option File) (other : List Char) :
    (fs.insert name (.dir staged')).isDir other = fs.isDir other := by
  by_cases heq : other = name
  · subst heq
    rw [isDir_eq_true.mpr ⟨_, hname⟩]
    exact isDir_eq_true.mpr ⟨_, node_insert_self (dir_isSome_of_node hname) _ _⟩
  · exact isDir_congr (node_insert_ne fs heq _)

theorem isDir_erase (fs : Fs) {name : List Char} (hname : fs.isDir name = false)
    (other : List Char) : (fs.erase name).isDir other = fs.isDir other := by
  by_cases heq : other = name
  · subst heq
    rw [hname]
    unfold isDir
    rw [node_erase_self]
  · exact isDir_congr (node_erase_ne fs heq)

theorem isDir_of_file {fs : Fs} {name : List Char} {file : File} (h : fs.file name = some file) :
    fs.isDir name = false := by
  unfold isDir
  rw [node_eq_of_file h]

theorem isDir_putFile (fs : Fs) {path : Path} {file : File} (h : fs.fileAt path = some file)
    (file' : File) (other : List Char) : (fs.putFile path file').isDir other = fs.isDir other := by
  rcases path with - | name | name
  · rfl
  · exact isDir_insert_file fs (isDir_of_file h) file' other
  · exact isDir_insert_dir fs (node_eq_of_staged h) _ other

theorem isDir_takeFile (fs : Fs) {path : Path} {file : File} (h : fs.fileAt path = some file)
    (other : List Char) : (fs.takeFile path).isDir other = fs.isDir other := by
  rcases path with - | name | name
  · rfl
  · exact isDir_erase fs (isDir_of_file h) other
  · exact isDir_insert_dir fs (node_eq_of_staged h) _ other

theorem isDir_writeFile (fs : Fs) (path : Path) (content : Content) (other : List Char) :
    (fs.writeFile path content).2.isDir other = fs.isDir other := by
  unfold writeFile
  split
  · rfl
  · next name =>
    split
    · rfl
    · rfl
    · next hdir hnode =>
      refine isDir_insert_file fs ?_ _ other
      by_contra hisDir
      obtain ⟨staged, hstaged⟩ := isDir_eq_true.mp (by simpa using hisDir)
      exact hnode _ hstaged
  · next name =>
    split
    · rfl
    · rfl
    · next staged hnode => exact isDir_insert_dir fs hnode _ other

/-- Only making a directory and taking one away change whether there is one. -/
theorem Step.isDir_eq {pid : ℕ} {fs fs' : Fs} {c : FsCall} {r : Except IoError c.Value}
    (h : fs.Step pid c r fs') {name : List Char} (hmake : c ≠ .createDir name)
    (hremove : c ≠ .removeDirAll name) : fs'.isDir name = fs.isDir name := by
  by_cases hname : name ∉ c.changes
  · exact isDir_congr (h.node_eq hname)
  obtain ⟨fault, he⟩ := h
  obtain rfl : (fs.exec pid c fault).2 = fs' := by rw [he]
  unfold exec
  split
  · cases c with
    | createDir other | removeDirAll other => simp_all [FsCall.changes]
    | write path content => exact isDir_writeFile fs path content name
    | rename src dest =>
      dsimp only [perform, renameFile]
      split
      · rfl
      · rfl
      · next file hfile hnode =>
        -- A file does not take the place of a directory.
        have hdest : fs.isDir dest = false := by
          by_contra hisDir
          obtain ⟨staged, hstaged⟩ := isDir_eq_true.mp (by simpa using hisDir)
          exact hnode _ hstaged
        rw [isDir_insert_file _ ((isDir_takeFile fs ‹_› dest).trans hdest)]
        exact isDir_takeFile fs ‹_› name
    | syncAll path =>
      dsimp only [perform]
      split
      · rfl
      · next file hfile => exact isDir_putFile fs hfile _ name
    | removeFile other =>
      dsimp only [perform]
      split
      · rfl
      · rfl
      · next file hfile => exact isDir_erase fs (isDir_of_file (file_eq hfile)) name
    | openLock other =>
      dsimp only [perform]
      split
      · rfl
      · rfl
      · rfl
      · next hnode =>
        refine isDir_insert_file fs ?_ _ name
        unfold isDir
        rw [hnode]
    | _ => simp [FsCall.changes] at hname
  · simp [FsCall.changes] at hname
  · dsimp only [spoil]
    split
    · split
      · rfl
      · exact isDir_writeFile fs _ _ name
    · split
      · simp_all [FsCall.changes]
      · rfl
    · rfl

/-! ### Files among the entries -/

theorem file_insert_dir (fs : Fs) (name : List Char) (staged : Option File) {other : List Char}
    (h : fs.file other = none) : (fs.insert name (.dir staged)).file other = none := by
  unfold file at h ⊢
  rw [node_insert]
  by_cases hname : other = name
  · rw [if_pos hname]
    split
    · next file hnode =>
      split at hnode
      · cases hnode
      · cases hnode
    · rfl
  · rwa [if_neg hname]

theorem file_insert_ne (fs : Fs) {name other : List Char} (h : other ≠ name) (x : Node) :
    (fs.insert name x).file other = fs.file other := file_congr (node_insert_ne fs h x)

theorem file_erase (fs : Fs) (name : List Char) {other : List Char} (h : fs.file other = none) :
    (fs.erase name).file other = none := by
  by_cases hname : other = name
  · unfold file
    rw [hname, node_erase_self]
  · rwa [file_congr (node_erase_ne fs hname)]

/-- A path other than the file's own, that something is put at. -/
theorem file_putFile (fs : Fs) {path : Path} {other : List Char} (hpath : path ≠ .top other)
    (h : fs.file other = none) (file : File) : (fs.putFile path file).file other = none := by
  rcases path with - | name | name
  · exact h
  · rwa [putFile, file_insert_ne fs (fun heq => hpath (congrArg Path.top heq.symm))]
  · exact file_insert_dir fs name _ h

theorem file_takeFile (fs : Fs) (path : Path) {other : List Char} (h : fs.file other = none) :
    (fs.takeFile path).file other = none := by
  rcases path with - | name | name
  · exact h
  · exact file_erase fs name h
  · exact file_insert_dir fs name none h

theorem file_writeFile (fs : Fs) {path : Path} {other : List Char} (hpath : path ≠ .top other)
    (h : fs.file other = none) (content : Content) :
    (fs.writeFile path content).2.file other = none := by
  unfold writeFile
  split
  · exact h
  · split
    · exact h
    · exact h
    · exact file_putFile fs hpath h _
  · split
    · exact h
    · exact h
    · exact file_putFile fs hpath h _

/-- Where there is no file, only writing one there, moving one there and opening the lock there
make one. -/
theorem Step.file_eq_none {pid : ℕ} {fs fs' : Fs} {c : FsCall} {r : Except IoError c.Value}
    (h : fs.Step pid c r fs') {name : List Char} (hnone : fs.file name = none)
    (hlock : c ≠ .openLock name) (hwrite : ∀ content, c ≠ .write (.top name) content)
    (hrename : ∀ src, c ≠ .rename src name) : fs'.file name = none := by
  by_cases hname : name ∉ c.changes
  · rwa [file_congr (h.node_eq hname)]
  obtain ⟨fault, he⟩ := h
  obtain rfl : (fs.exec pid c fault).2 = fs' := by rw [he]
  have hput : ∀ {path : Path} {content : Content}, c = .write path content → path ≠ .top name := by
    rintro path content rfl heq
    exact hwrite content (by rw [heq])
  unfold exec
  split
  · cases c with
    | removeDirAll other =>
      dsimp only [perform]
      split
      · exact hnone
      · exact hnone
      · exact file_erase fs other hnone
    | createDir other =>
      dsimp only [perform]
      split
      · exact hnone
      · exact hnone
      · exact file_insert_dir fs other none hnone
    | write path content => exact file_writeFile fs (hput rfl) hnone content
    | openLock other =>
      have hother : other ≠ name := fun heq => hlock (congrArg FsCall.openLock heq)
      simp [FsCall.changes, hother.symm] at hname
    | syncAll path =>
      dsimp only [perform]
      split
      · exact hnone
      · next file hfile =>
        refine file_putFile fs ?_ hnone _
        rintro rfl
        have hsome : fs.file name = some file := hfile
        rw [hnone] at hsome
        cases hsome
    | rename src dest =>
      have hdest : name ≠ dest := fun heq => hrename src (congrArg (FsCall.rename src) heq.symm)
      dsimp only [perform, renameFile]
      split
      · exact hnone
      · exact hnone
      · rw [file_insert_ne _ hdest]
        exact file_takeFile fs src hnone
    | removeFile other =>
      dsimp only [perform]
      split
      · exact hnone
      · exact hnone
      · exact file_erase fs other hnone
    | _ => simp [FsCall.changes] at hname
  · simp [FsCall.changes] at hname
  · dsimp only [spoil]
    split
    · split
      · exact hnone
      · exact file_writeFile fs (hput rfl) hnone _
    · split
      · exact file_insert_dir fs _ none hnone
      · exact hnone
    · exact hnone

end Fs

end AccountLogUi
