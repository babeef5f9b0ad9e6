import AccountLogUi.Fs.Basic

/-!
# What a filesystem call can do

`FsCall.changes` lists the names whose entry a call may change; `Fs.Step.node_eq` is the frame: no
other entry changes, whatever fault the call is given.  The lemmas after it say what each call that
matters leaves when it answers `ok`, and `Fs.Step.error_eq` that a call that fails leaves
everything, unless it was writing a file or taking a directory away.
-/

namespace AccountLogUi

/-- The entry of the directory a path goes through. -/
def Path.name : Path → Option (List Char)
  | .root => none
  | .top name => some name
  | .staged name => some name

/-- The names whose entry a call may change. -/
def FsCall.changes : FsCall → List (List Char)
  | .removeDirAll name => [name]
  | .createDir name => [name]
  | .write path _ => path.name.toList
  | .openLock name => [name]
  | .syncAll path => path.name.toList
  | .rename src dest => dest :: src.name.toList
  | .removeFile name => [name]
  | _ => []

theorem FsCall.not_mem_changes_rename {name src dest : List Char} (hd : name ≠ dest)
    (hs : name ≠ src) : name ∉ (FsCall.rename (.staged src) dest).changes := by
  simp [FsCall.changes, Path.name, hd, hs]

namespace Fs

/-! ### Entries -/

theorem node_insert_self {fs : Fs} (h : fs.dir.isSome) (name : List Char) (x : Node) :
    (fs.insert name x).node name = some x := by
  obtain ⟨dir, hdir⟩ := Option.isSome_iff_exists.mp h
  simp [node, insert, hdir]

theorem node_insert_ne (fs : Fs) {name other : List Char} (h : other ≠ name) (x : Node) :
    (fs.insert name x).node other = fs.node other := by
  cases hdir : fs.dir with
  | none => simp [node, insert, hdir]
  | some dir =>
    simp only [node, insert, hdir, Option.map_some, Option.bind_some]
    exact AList.lookup_insert_ne (by simpa using h)

@[simp] theorem node_erase_self (fs : Fs) (name : List Char) :
    (fs.erase name).node name = none := by
  cases hdir : fs.dir with
  | none => simp [node, erase, hdir]
  | some dir => simp [node, erase, hdir]

theorem node_erase_ne (fs : Fs) {name other : List Char} (h : other ≠ name) :
    (fs.erase name).node other = fs.node other := by
  cases hdir : fs.dir with
  | none => simp [node, erase, hdir]
  | some dir =>
    simp only [node, erase, hdir, Option.map_some, Option.bind_some]
    exact AList.lookup_erase_ne (by simpa using h)

@[simp] theorem lock_insert (fs : Fs) (name : List Char) (x : Node) :
    (fs.insert name x).lock = fs.lock := rfl

@[simp] theorem isSome_dir_insert (fs : Fs) (name : List Char) (x : Node) :
    (fs.insert name x).dir.isSome = fs.dir.isSome := by simp [insert]

@[simp] theorem isSome_dir_erase (fs : Fs) (name : List Char) :
    (fs.erase name).dir.isSome = fs.dir.isSome := by simp [erase]

/-- Something can only be in a directory that is there. -/
theorem dir_isSome_of_node {fs : Fs} {name : List Char} {x : Node} (h : fs.node name = some x) :
    fs.dir.isSome := by
  cases hdir : fs.dir with
  | none => simp [node, hdir] at h
  | some dir => rfl

theorem node_eq_of_file {fs : Fs} {name : List Char} {file : File} (h : fs.file name = some file) :
    fs.node name = some (.file file) := by
  unfold Fs.file at h
  split at h
  · next f hf => rw [hf, Option.some.inj h]
  · cases h

theorem node_eq_of_staged {fs : Fs} {name : List Char} {file : File}
    (h : fs.staged name = some file) : fs.node name = some (.dir (some file)) := by
  unfold Fs.staged at h
  split at h
  · next f hf => rw [hf, h]
  · cases h

theorem file_eq {fs : Fs} {name : List Char} {file : File}
    (h : fs.node name = some (.file file)) : fs.file name = some file := by
  rw [Fs.file, h]

theorem staged_eq {fs : Fs} {name : List Char} {staged : Option File}
    (h : fs.node name = some (.dir staged)) : fs.staged name = staged := by
  rw [Fs.staged, h]

theorem file_congr {fs fs' : Fs} {name : List Char} (h : fs'.node name = fs.node name) :
    fs'.file name = fs.file name := by
  rw [Fs.file, Fs.file, h]

theorem staged_congr {fs fs' : Fs} {name : List Char} (h : fs'.node name = fs.node name) :
    fs'.staged name = fs.staged name := by
  rw [Fs.staged, Fs.staged, h]

/-! ### The frame -/

theorem putFile_node_eq (fs : Fs) {path : Path} {name : List Char} (h : name ∉ path.name.toList)
    (file : File) : (fs.putFile path file).node name = fs.node name := by
  cases path with
  | root => rfl
  | top other => exact fs.node_insert_ne (by simpa [Path.name] using h) _
  | staged other => exact fs.node_insert_ne (by simpa [Path.name] using h) _

theorem writeFile_node_eq (fs : Fs) {path : Path} {name : List Char} (h : name ∉ path.name.toList)
    (content : Content) : (fs.writeFile path content).2.node name = fs.node name := by
  unfold writeFile
  split
  · rfl
  all_goals split <;> first | rfl | exact fs.putFile_node_eq h _

theorem takeFile_node_eq (fs : Fs) {path : Path} {name : List Char} (h : name ∉ path.name.toList) :
    (fs.takeFile path).node name = fs.node name := by
  cases path with
  | root => rfl
  | top other => exact fs.node_erase_ne (by simpa [Path.name] using h)
  | staged other => exact fs.node_insert_ne (by simpa [Path.name] using h) _

theorem renameFile_node_eq (fs : Fs) {src : Path} {dest name : List Char} (hd : name ≠ dest)
    (hs : name ∉ src.name.toList) : (fs.renameFile src dest).2.node name = fs.node name := by
  unfold renameFile
  split
  · rfl
  · rfl
  · rw [node_insert_ne _ hd, takeFile_node_eq _ hs]

@[simp] theorem node_mk_lock (fs : Fs) (lock : Option ℕ) (name : List Char) :
    node { fs with lock := lock } name = fs.node name := rfl

theorem perform_node_eq (pid : ℕ) (fs : Fs) {c : FsCall} {name : List Char}
    (h : name ∉ c.changes) : (fs.perform pid c).2.node name = fs.node name := by
  cases c with
  | createDirAll => cases hdir : fs.dir <;> simp [perform, node, hdir]
  | setMode path mode => rfl
  | removeDirAll other =>
    dsimp only [perform]
    split <;> first | rfl | exact fs.node_erase_ne (by simpa [FsCall.changes] using h)
  | createDir other =>
    dsimp only [perform]
    split <;> first | rfl | exact fs.node_insert_ne (by simpa [FsCall.changes] using h) _
  | write path content => exact fs.writeFile_node_eq h content
  | readDir => dsimp only [perform]; split <;> rfl
  | readToString other => dsimp only [perform]; split <;> rfl
  | openLock other =>
    dsimp only [perform]
    split <;> first | rfl | exact fs.node_insert_ne (by simpa [FsCall.changes] using h) _
  | tryLock => dsimp only [perform]; split <;> rfl
  | unlock => dsimp only [perform]; split <;> rfl
  | syncAll path =>
    dsimp only [perform]
    split <;> first | rfl | exact fs.putFile_node_eq h _
  | syncDir => rfl
  | rename src dest =>
    simp only [FsCall.changes, List.mem_cons, not_or] at h
    exact fs.renameFile_node_eq h.1 h.2
  | removeFile other =>
    dsimp only [perform]
    split <;> first | rfl | exact fs.node_erase_ne (by simpa [FsCall.changes] using h)

theorem spoil_node_eq (fs : Fs) (fault : Fault) {c : FsCall} {name : List Char}
    (h : name ∉ c.changes) : (fs.spoil fault c).node name = fs.node name := by
  unfold spoil
  split
  · split
    · rfl
    · exact fs.writeFile_node_eq h _
  · split
    · exact fs.node_insert_ne (by simpa [FsCall.changes] using h) _
    · rfl
  · rfl

theorem exec_node_eq (pid : ℕ) (fs : Fs) {c : FsCall} (fault : Option Fault) {name : List Char}
    (h : name ∉ c.changes) : (fs.exec pid c fault).2.node name = fs.node name := by
  unfold exec
  split
  · exact perform_node_eq pid fs h
  · exact perform_node_eq pid fs h
  · exact fs.spoil_node_eq _ h

namespace Step

variable {pid : ℕ} {fs fs' : Fs}

/-- No entry a call does not name changes. -/
theorem node_eq {c : FsCall} {r : Except IoError c.Value} (h : fs.Step pid c r fs')
    {name : List Char} (hn : name ∉ c.changes) : fs'.node name = fs.node name := by
  obtain ⟨fault, he⟩ := h
  have := fs.exec_node_eq pid fault hn
  rwa [he] at this

theorem spoil_lock (fs : Fs) (fault : Fault) (c : FsCall) : (fs.spoil fault c).lock = fs.lock := by
  unfold spoil
  split
  · split
    · rfl
    · unfold writeFile putFile
      split <;> (try split) <;> (try split) <;> rfl
  · split <;> rfl
  · rfl

/-- Only taking the lock and giving it up change who holds it. -/
theorem lock_eq {c : FsCall} {r : Except IoError c.Value} (h : fs.Step pid c r fs')
    (ht : c ≠ .tryLock) (hu : c ≠ .unlock) : fs'.lock = fs.lock := by
  obtain ⟨fault, he⟩ := h
  have hfs : fs' = (fs.exec pid c fault).2 := by rw [he]
  rw [hfs]
  unfold exec
  split
  · cases c <;> dsimp only [perform] <;> try rfl
    all_goals first
      | exact absurd rfl ht
      | exact absurd rfl hu
      | (unfold writeFile putFile; split <;> (try split) <;> (try split) <;> rfl)
      | (unfold renameFile takeFile; split <;> (try split) <;> rfl)
      | (unfold putFile; split <;> (try split) <;> rfl)
      | (split <;> rfl)
  · exact absurd rfl hu
  · exact spoil_lock fs _ _

/-- A call that fails leaves everything, unless it was writing a file or taking a directory
away. -/
theorem error_eq {c : FsCall} {e : IoError} (h : fs.Step pid c (.error e) fs')
    (hw : ∀ path content, c ≠ .write path content) (hr : ∀ name, c ≠ .removeDirAll name) :
    fs' = fs := by
  obtain ⟨fault, he⟩ := h
  unfold exec at he
  split at he
  · cases c <;> dsimp only [perform] at he
    case write path content => exact absurd rfl (hw path content)
    case removeDirAll name => exact absurd rfl (hr name)
    case rename =>
      dsimp only [renameFile] at he
      split at he <;> cases he <;> rfl
    case setMode => exact (Prod.mk.inj he).2.symm
    case createDirAll => cases he
    case unlock => cases he
    case syncDir => cases he
    all_goals (split at he <;> cases he) <;> rfl
  · cases he
  · rw [← (Prod.mk.inj he).2]
    cases c with
    | write path content => exact absurd rfl (hw path content)
    | removeDirAll name => exact absurd rfl (hr name)
    | _ => rfl

/-- A call that answers `ok` was given no fault that matters. -/
theorem ok_perform {c : FsCall} {v : c.Value} (h : fs.Step pid c (.ok v) fs') :
    fs.perform pid c = (.ok v, fs') := by
  obtain ⟨fault, he⟩ := h
  unfold exec at he
  split at he
  · exact he
  · exact he
  · cases he

/-- Listing names each entry once. -/
theorem readDir_ok {names : List OsString} (h : fs.Step pid .readDir (.ok names) fs') :
    fs' = fs ∧ names.Nodup ∧ ∀ name, .utf8 name ∈ names ↔ (fs.node name).isSome := by
  have he := ok_perform h
  dsimp only [perform] at he
  split at he
  · cases he
  · next dir hdir =>
    cases he
    refine ⟨rfl, dir.keys_nodup, fun name => ?_⟩
    simp [node, hdir, AList.lookup_isSome, AList.mem_keys]

/-- No directory is found only where there is none. -/
theorem readDir_notFound (h : fs.Step pid .readDir (.error .notFound) fs') : fs.dir = none := by
  obtain ⟨fault, he⟩ := h
  cases fault with
  | some fault => cases he
  | none =>
    dsimp only [exec, perform] at he
    split at he
    · assumption
    · cases he

theorem tryLock_ok {v : Unit} (h : fs.Step pid .tryLock (.ok v) fs') :
    fs.lock = none ∧ fs' = { fs with lock := some pid } := by
  have he := ok_perform h
  dsimp only [perform] at he
  split at he
  · next hlock => cases he; exact ⟨hlock, rfl⟩
  · cases he

theorem unlock_eq {r : Except IoError Unit} (h : fs.Step pid .unlock r fs') :
    fs' = if fs.lock = some pid then { fs with lock := none } else fs := by
  obtain ⟨fault, he⟩ := h
  cases fault <;> cases he <;> rfl

/-- What a rename that answers `ok` did. -/
theorem rename_ok {src : Path} {dest : List Char} {v : Unit}
    (h : fs.Step pid (.rename src dest) (.ok v) fs') :
    ∃ file, fs.fileAt src = some file ∧ fs' = (fs.takeFile src).insert dest (.file file) := by
  have he := ok_perform h
  dsimp only [perform, renameFile] at he
  split at he
  · cases he
  · cases he
  · next file hfile _ => cases he; exact ⟨file, hfile, rfl⟩

theorem removeFile_ok {name : List Char} {v : Unit}
    (h : fs.Step pid (.removeFile name) (.ok v) fs') :
    (∃ file, fs.node name = some (.file file)) ∧ fs' = fs.erase name := by
  have he := ok_perform h
  dsimp only [perform] at he
  split at he
  · cases he
  · cases he
  · next file hfile => cases he; exact ⟨⟨file, hfile⟩, rfl⟩

/-- A staged write that answers `ok` leaves the file, unsynced. -/
theorem write_staged_ok {name : List Char} {content : Content} {v : Unit}
    (h : fs.Step pid (.write (.staged name) content) (.ok v) fs') :
    fs'.staged name = some ⟨content, false⟩ := by
  have he := ok_perform h
  dsimp only [perform, writeFile] at he
  split at he
  · cases he
  · cases he
  · next s hnode =>
    cases he
    exact staged_eq (node_insert_self (dir_isSome_of_node hnode) _ _)

/-- Syncing changes nothing of the file it is asked for, but that it is synced. -/
theorem syncAll_staged_ok {name : List Char} {v : Unit}
    (h : fs.Step pid (.syncAll (.staged name)) (.ok v) fs') :
    ∃ file, fs.staged name = some file ∧ fs'.staged name = some { file with synced := true } := by
  have he := ok_perform h
  dsimp only [perform] at he
  split at he
  · cases he
  · next file hfile =>
    cases he
    have hnode := node_eq_of_staged (show fs.staged name = some file from hfile)
    exact ⟨file, hfile, staged_eq (node_insert_self (dir_isSome_of_node hnode) _ _)⟩

/-- A rename of a staged file leaves the file under its new name, and the stage empty. -/
theorem rename_staged_ok {name dest : List Char} {v : Unit} (hne : dest ≠ name)
    (h : fs.Step pid (.rename (.staged name) dest) (.ok v) fs') :
    ∃ file, fs.staged name = some file ∧ fs'.node dest = some (.file file) ∧
      fs'.node name = some (.dir none) := by
  obtain ⟨file, hfile, rfl⟩ := rename_ok h
  have hnode := node_eq_of_staged (show fs.staged name = some file from hfile)
  have hdir : (fs.takeFile (.staged name)).dir.isSome := by
    simpa [takeFile] using dir_isSome_of_node hnode
  refine ⟨file, hfile, node_insert_self hdir _ _, ?_⟩
  rw [node_insert_ne _ hne.symm]
  exact node_insert_self (dir_isSome_of_node hnode) _ _

/-- The same of a file in the directory itself. -/
theorem write_top_ok {name : List Char} {content : Content} {v : Unit}
    (h : fs.Step pid (.write (.top name) content) (.ok v) fs') :
    fs'.node name = some (.file ⟨content, false⟩) := by
  have he := ok_perform h
  dsimp only [perform, writeFile] at he
  split at he
  · cases he
  · cases he
  · next dir hdir _ =>
    cases he
    exact node_insert_self (by rw [hdir]; rfl) _ _

theorem syncAll_top_ok {name : List Char} {v : Unit}
    (h : fs.Step pid (.syncAll (.top name)) (.ok v) fs') :
    ∃ file, fs.node name = some (.file file) ∧
      fs'.node name = some (.file { file with synced := true }) := by
  have he := ok_perform h
  dsimp only [perform] at he
  split at he
  · cases he
  · next file hfile =>
    cases he
    have hnode := node_eq_of_file (show fs.file name = some file from hfile)
    exact ⟨file, hnode, node_insert_self (dir_isSome_of_node hnode) _ _⟩

theorem rename_top_ok {name dest : List Char} {v : Unit}
    (h : fs.Step pid (.rename (.top name) dest) (.ok v) fs') :
    ∃ file, fs.node name = some (.file file) ∧ fs'.node dest = some (.file file) := by
  obtain ⟨file, hfile, rfl⟩ := rename_ok h
  have hnode := node_eq_of_file (show fs.file name = some file from hfile)
  have hdir : (fs.takeFile (.top name)).dir.isSome := by
    simpa [takeFile] using dir_isSome_of_node hnode
  exact ⟨file, hnode, node_insert_self hdir _ _⟩

theorem readToString_ok {name : List Char} {text : Text}
    (h : fs.Step pid (.readToString name) (.ok text) fs') :
    fs' = fs ∧ ∃ synced, fs.node name = some (.file ⟨.text text, synced⟩) := by
  have he := ok_perform h
  dsimp only [perform] at he
  split at he
  · cases he
  · cases he
  · cases he
  · next text' synced hnode =>
    obtain ⟨htext, hfs⟩ := Prod.mk.inj he
    obtain rfl := Except.ok.inj htext
    exact ⟨hfs.symm, synced, hnode⟩

/-- A file is answered to be missing only where nothing is there. -/
theorem readToString_notFound {name : List Char}
    (h : fs.Step pid (.readToString name) (.error .notFound) fs') : fs.node name = none := by
  obtain ⟨fault, he⟩ := h
  rcases fault with - | fault
  · dsimp only [exec, perform] at he
    split at he
    · assumption
    all_goals cases he
  · cases he

/-- Where something is already, no directory is created. -/
theorem createDir_eq {name : List Char} {r : Except IoError Unit}
    (h : fs.Step pid (.createDir name) r fs') (hn : (fs.node name).isSome) : fs' = fs := by
  cases r with
  | error e => exact error_eq h (by simp) (by simp)
  | ok v =>
    have he := ok_perform h
    dsimp only [perform] at he
    obtain ⟨x, hx⟩ := Option.isSome_iff_exists.mp hn
    rw [hx] at he
    split at he
    · cases he
    · cases he
    · next hnone => cases hnone

end Step

/-! ### Calls that do not fail -/

section

variable (pid : ℕ) {fs : Fs} {name dest : List Char} {file : File}

/-- Only a directory in its place keeps a file from being written. -/
theorem perform_write_top (hdir : fs.dir.isSome) (h : ∀ d, fs.node name ≠ some (.dir d))
    (content : Content) : fs.perform pid (.write (.top name) content) =
      (.ok (), fs.insert name (.file ⟨content, false⟩)) := by
  obtain ⟨dir, hsome⟩ := Option.isSome_iff_exists.mp hdir
  rcases hnode : fs.node name with - | file | d
  · simp [perform, writeFile, putFile, hsome, hnode]
  · simp [perform, writeFile, putFile, hsome, hnode]
  · exact absurd hnode (h d)

theorem perform_syncAll_top (h : fs.node name = some (.file file)) :
    fs.perform pid (.syncAll (.top name)) =
      (.ok (), fs.insert name (.file { file with synced := true })) := by
  have hfile : fs.fileAt (.top name) = some file := file_eq h
  simp [perform, putFile, hfile]

theorem perform_rename_top (h : fs.node name = some (.file file))
    (hdest : ∀ d, fs.node dest ≠ some (.dir d)) : fs.perform pid (.rename (.top name) dest) =
      (.ok (), (fs.erase name).insert dest (.file file)) := by
  have hfile : fs.fileAt (.top name) = some file := file_eq h
  rcases hnode : fs.node dest with - | file' | d
  · simp [perform, renameFile, takeFile, hfile, hnode]
  · simp [perform, renameFile, takeFile, hfile, hnode]
  · exact absurd hnode (hdest d)

/-- Creating the directory leaves what is in it. -/
theorem node_createDirAll (name : List Char) :
    ({ fs with dir := some (fs.dir.getD ∅) } : Fs).node name = fs.node name := by
  unfold node
  cases fs.dir with
  | none => rfl
  | some dir => rfl

end

end Fs

end AccountLogUi
