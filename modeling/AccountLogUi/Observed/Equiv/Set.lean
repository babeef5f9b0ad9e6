import AccountLogUi.Library.Increasing
import AccountLogUi.Observed.Equiv.List
import AccountLogUi.Reference.Equiv.Laws
import Mathlib.Data.Finset.Basic

/-!
# The observed list is a set

A document the reader accepts means a set of addresses, whatever their order and repeats (`Means`).
Adding, removing and listing are what they are on that set, over any run of them
(`observed_list_is_a_set`).
-/

namespace AccountLogUi.Observed

variable {Addr : Type} {C : Crates Addr} {text : Text} {S : Finset Addr} {fs : Fs} {disk : Disk}

/-! ### Documents -/

/-- The set a document names: it is of this version, each of its lines is an address, and these are
the addresses. -/
def Means (C : Crates Addr) (text : Text) (S : Finset Addr) : Prop :=
  ∃ document, Document.fromStr text = .ok document ∧ document.logosAccountObserved = version ∧
    (∀ address ∈ document.addresses, ∃ addr ∈ S, C.parseAddr address.toList = some addr) ∧
    ∀ addr ∈ S, ∃ address ∈ document.addresses, C.parseAddr address.toList = some addr

/-- A line of the list. -/
def readLine (C : Crates Addr) (address : String) : Except ObservedError Addr :=
  match C.parseAddr address.toList with
  | some addr => .ok addr
  | none => .error (.corrupt (address ++ " is not an address"))

theorem readLine_eq_ok {address : String} {addr : Addr} :
    readLine C address = .ok addr ↔ C.parseAddr address.toList = some addr := by
  unfold readLine
  cases C.parseAddr address.toList with
  | none => simp
  | some addr' => simp

theorem mapM_readLine_ok {addresses : List String} {lines : List Addr}
    (h : addresses.mapM (readLine C) = .ok lines) :
    (∀ address ∈ addresses, ∃ addr ∈ lines, C.parseAddr address.toList = some addr) ∧
      ∀ addr ∈ lines, ∃ address ∈ addresses, C.parseAddr address.toList = some addr := by
  induction addresses generalizing lines with
  | nil =>
    obtain rfl := Except.ok.inj h
    simp
  | cons address addresses ih =>
    rw [List.mapM_cons] at h
    rcases hline : readLine C address with e | addr
    · rw [hline] at h
      cases h
    rcases hrest : addresses.mapM (readLine C) with e | rest
    · rw [hline, hrest] at h
      cases h
    · rw [hline, hrest] at h
      obtain rfl := Except.ok.inj h
      obtain ⟨hsome, hfrom⟩ := ih hrest
      have hparse := readLine_eq_ok.mp hline
      constructor
      · intro address' hmem
        rcases List.mem_cons.mp hmem with rfl | hmem
        · exact ⟨addr, List.mem_cons_self, hparse⟩
        · obtain ⟨addr', hin, hparse'⟩ := hsome address' hmem
          exact ⟨addr', List.mem_cons_of_mem _ hin, hparse'⟩
      · intro addr' hmem
        rcases List.mem_cons.mp hmem with rfl | hmem
        · exact ⟨address, List.mem_cons_self, hparse⟩
        · obtain ⟨address', hin, hparse'⟩ := hfrom addr' hmem
          exact ⟨address', List.mem_cons_of_mem _ hin, hparse'⟩

theorem mapM_readLine_of_all {addresses : List String}
    (h : ∀ address ∈ addresses, ∃ addr, C.parseAddr address.toList = some addr) :
    ∃ lines, addresses.mapM (readLine C) = .ok lines := by
  induction addresses with
  | nil => exact ⟨[], rfl⟩
  | cons address addresses ih =>
    obtain ⟨addr, hparse⟩ := h address List.mem_cons_self
    obtain ⟨rest, hrest⟩ := ih fun address hmem => h address (List.mem_cons_of_mem _ hmem)
    refine ⟨addr :: rest, ?_⟩
    rw [List.mapM_cons, readLine_eq_ok.mpr hparse, hrest]
    rfl

/-- The directory holds the set: no file is no accounts. -/
def Holds (C : Crates Addr) (fs : Fs) (S : Finset Addr) : Prop :=
  fs.node observedFile = none ∧ S = ∅ ∨
    ∃ text synced, fs.node observedFile = some (.file ⟨.text text, synced⟩) ∧ Means C text S

theorem Holds.congr {fs' : Fs} (h : Holds C fs S)
    (hnode : fs'.node observedFile = fs.node observedFile) : Holds C fs' S := by
  unfold Holds
  rwa [hnode]

/-! ### Writing, where no call fails -/

/-- Nothing is in the way of writing the list. -/
structure Clear (fs : Fs) : Prop where
  observed : ∀ d, fs.node observedFile ≠ some (.dir d)
  staged : ∀ d, fs.node stagedFile ≠ some (.dir d)

theorem Holds.clear (h : Holds C fs S) (hstaged : ∀ d, fs.node stagedFile ≠ some (.dir d)) :
    Clear fs := by
  refine ⟨fun d hd => ?_, hstaged⟩
  rcases h with ⟨hnode, -⟩ | ⟨text, synced, hnode, -⟩
  · rw [hnode] at hd
    cases hd
  · rw [hnode] at hd
    cases hd

/-- What writing the list over does, call after call. -/
theorem Clear.performs (h : Clear fs) (content : Content) : ∃ fs₁ fs₂ fs₃ fs₄,
    fs.perform 0 .createDirAll = (.ok (), fs₁) ∧
    fs₁.perform 0 (.setMode .root 0o700) = (.ok (), fs₁) ∧
    fs₁.perform 0 (.write (.top stagedFile) content) = (.ok (), fs₂) ∧
    fs₂.perform 0 (.setMode (.top stagedFile) 0o600) = (.ok (), fs₂) ∧
    fs₂.perform 0 (.syncAll (.top stagedFile)) = (.ok (), fs₃) ∧
    fs₃.perform 0 (.rename (.top stagedFile) observedFile) = (.ok (), fs₄) ∧ Clear fs₄ := by
  obtain ⟨fs₁, hfs₁⟩ : ∃ fs₁ : Fs, fs₁ = { fs with dir := some (fs.dir.getD ∅) } := ⟨_, rfl⟩
  have hdir : fs₁.dir.isSome := by rw [hfs₁]; rfl
  have hnode : ∀ name, fs₁.node name = fs.node name := by
    rw [hfs₁]
    exact Fs.node_createDirAll
  have hcreate : fs.perform 0 .createDirAll = (.ok (), fs₁) := by rw [hfs₁]; rfl
  have hmode : fs₁.perform 0 (.setMode .root 0o700) = (.ok (), fs₁) := by
    simp [Fs.perform, Fs.has, hdir]
  -- The list is written beside its place, synced there, and renamed into it.
  have hwrite := Fs.perform_write_top 0 hdir (by rw [hnode]; exact h.staged) content
  generalize hfs₂ : fs₁.insert stagedFile (.file ⟨content, false⟩) = fs₂ at hwrite
  have hstaged₂ : fs₂.node stagedFile = some (.file ⟨content, false⟩) := by
    rw [← hfs₂]
    exact Fs.node_insert_self hdir _ _
  have hmode₂ : fs₂.perform 0 (.setMode (.top stagedFile) 0o600) = (.ok (), fs₂) := by
    simp [Fs.perform, Fs.has, hstaged₂]
  have hsync := Fs.perform_syncAll_top 0 hstaged₂
  generalize hfs₃ : fs₂.insert stagedFile (.file ⟨content, true⟩) = fs₃ at hsync
  have hdir₃ : fs₃.dir.isSome := by
    rw [← hfs₃, Fs.isSome_dir_insert, ← hfs₂, Fs.isSome_dir_insert]
    exact hdir
  have hstaged₃ : fs₃.node stagedFile = some (.file ⟨content, true⟩) := by
    rw [← hfs₃]
    exact Fs.node_insert_self (Fs.dir_isSome_of_node hstaged₂) _ _
  have hobserved₃ : fs₃.node observedFile = fs.node observedFile := by
    rw [← hfs₃, Fs.node_insert_ne _ observedFile_ne_stagedFile, ← hfs₂,
      Fs.node_insert_ne _ observedFile_ne_stagedFile, hnode]
  have hrename := Fs.perform_rename_top 0 hstaged₃ (by rw [hobserved₃]; exact h.observed)
  refine ⟨fs₁, fs₂, fs₃, _, hcreate, hmode, hwrite, hmode₂, hsync, hrename,
    ⟨fun d hd => ?_, fun d hd => ?_⟩⟩
  · rw [Fs.node_insert_self (by rw [Fs.isSome_dir_erase]; exact hdir₃)] at hd
    cases hd
  · rw [Fs.node_insert_ne _ observedFile_ne_stagedFile.symm, Fs.node_erase_self] at hd
    cases hd

theorem write_alone (h : Clear fs) (observed : List Addr) :
    ((write C observed).alone 0 fs).1 = .ok () ∧ Clear ((write C observed).alone 0 fs).2 := by
  obtain ⟨fs₁, fs₂, fs₃, fs₄, hcreate, hmode, hwrite, hmode₂, hsync, hrename, hclear⟩ :=
    h.performs (.text (.json (documentOf C observed)))
  have hall : (write C observed).alone 0 fs = (.ok (), fs₄) := by
    unfold write
    rw [FsM.alone_io_bind hcreate, FsM.alone_io_bind hmode, FsM.alone_io_bind hwrite,
      FsM.alone_io_bind hmode₂, FsM.alone_io_bind hsync, FsM.alone_io_bind hrename]
    rfl
  rw [hall]
  exact ⟨rfl, hclear⟩

variable [DecidableEq Addr]

theorem ofText_eq (C : Crates Addr) (text : Text) : ofText C text =
    ((Document.fromStr text).mapError .corrupt).bind fun document =>
      if document.logosAccountObserved ≠ version then
        .error (.corrupt "not a list this version writes")
      else (document.addresses.mapM (readLine C)).bind fun lines =>
        .ok ((lines.insertionSort fun a b => C.addrText a ≤ C.addrText b).destutter (· ≠ ·)) := by
  unfold ofText
  cases Document.fromStr text with
  | error e => rfl
  | ok document =>
    simp only [Except.mapError, bind, Except.bind]
    split
    · rfl
    · rfl

/-- What is read of a document that means a set. -/
theorem ofText_of_means (h : Means C text S) :
    ∃ listed, ofText C text = .ok listed ∧ ∀ addr, addr ∈ listed ↔ addr ∈ S := by
  obtain ⟨document, hdocument, hversion, hsome, hfrom⟩ := h
  have hall : ∀ address ∈ document.addresses,
      ∃ addr, C.parseAddr address.toList = some addr :=
    fun address hmem => (hsome address hmem).imp fun addr h => h.2
  obtain ⟨lines, hlines⟩ := mapM_readLine_of_all hall
  obtain ⟨hlines_some, hlines_from⟩ := mapM_readLine_ok hlines
  have hmem : ∀ addr, addr ∈ lines ↔ addr ∈ S := by
    intro addr
    constructor
    · intro hin
      obtain ⟨address, haddress, hparse⟩ := hlines_from addr hin
      obtain ⟨addr', hin', hparse'⟩ := hsome address haddress
      rw [hparse] at hparse'
      rwa [Option.some.inj hparse']
    · intro hin
      obtain ⟨address, haddress, hparse⟩ := hfrom addr hin
      obtain ⟨addr', hin', hparse'⟩ := hlines_some address haddress
      rw [hparse] at hparse'
      rwa [Option.some.inj hparse']
  refine ⟨(lines.insertionSort fun a b => C.addrText a ≤ C.addrText b).destutter (· ≠ ·), ?_, ?_⟩
  · rw [ofText_eq, hdocument]
    change (if document.logosAccountObserved ≠ version then _ else _) = _
    rw [if_neg (not_not.mpr hversion), hlines]
    rfl
  · intro addr
    rw [mem_destutter_ne, List.mem_insertionSort]
    exact hmem addr

/-- A document the reader accepts means the set of what is read of it. -/
theorem means_of_ofText {listed : List Addr} (h : ofText C text = .ok listed) :
    Means C text listed.toFinset := by
  rw [ofText_eq] at h
  rcases hdocument : Document.fromStr text with e | document
  · rw [hdocument] at h
    cases h
  rw [hdocument] at h
  change (if document.logosAccountObserved ≠ version then _ else _) = _ at h
  split at h
  · cases h
  next hversion =>
  rcases hlines : document.addresses.mapM (readLine C) with e | lines
  · rw [hlines] at h
    cases h
  rw [hlines] at h
  obtain rfl := Except.ok.inj h
  obtain ⟨hsome, hfrom⟩ := mapM_readLine_ok hlines
  have hmem : ∀ addr, addr ∈ ((lines.insertionSort fun a b =>
      C.addrText a ≤ C.addrText b).destutter (· ≠ ·)).toFinset ↔ addr ∈ lines := by
    intro addr
    rw [List.mem_toFinset, mem_destutter_ne, List.mem_insertionSort]
  refine ⟨document, hdocument, not_not.mp hversion, fun address hin => ?_, fun addr hin => ?_⟩
  · obtain ⟨addr, haddr, hparse⟩ := hsome address hin
    exact ⟨addr, (hmem addr).mpr haddr, hparse⟩
  · exact hfrom addr ((hmem addr).mp hin)

theorem Holds.lists (h : Holds C fs S) :
    ∃ listed, Lists C fs listed ∧ ∀ addr, addr ∈ listed ↔ addr ∈ S := by
  rcases h with ⟨hnode, rfl⟩ | ⟨text, synced, hnode, hmeans⟩
  · exact ⟨[], .inl ⟨hnode, rfl⟩, fun addr => by simp⟩
  · obtain ⟨listed, htext, hmem⟩ := ofText_of_means hmeans
    exact ⟨listed, .inr ⟨text, synced, hnode, htext⟩, hmem⟩

theorem Lists.holds {listed : List Addr} (h : Lists C fs listed) : Holds C fs listed.toFinset := by
  rcases h with ⟨hnode, rfl⟩ | ⟨text, synced, hnode, htext⟩
  · exact .inl ⟨hnode, rfl⟩
  · exact .inr ⟨text, synced, hnode, means_of_ofText htext⟩

/-- A directory holds one set at most. -/
theorem Lists.of_holds {listed : List Addr} (h : Lists C fs listed) (hholds : Holds C fs S) :
    ∀ addr, addr ∈ listed ↔ addr ∈ S := by
  obtain ⟨listed', h', hmem⟩ := hholds.lists
  rw [h'.unique h]
  exact hmem

/-! ### Operations -/

/-- What the process does with the list. -/
inductive Op (Addr : Type)
  | list
  | change (change : Change Addr)

inductive Answer (Addr : Type)
  | listed (observed : List Addr)
  | changed (b : Bool)

namespace Op

def body (C : Crates Addr) : Op Addr → FsM ObservedError (Answer Addr)
  | .list => do return .listed (← Observed.list C)
  | .change made => do return .changed (← made.body C)

/-- The set once the operation is done. -/
def after : Op Addr → Finset Addr → Finset Addr
  | .list, S => S
  | .change (.add addr), S => insert addr S
  | .change (.remove addr), S => S.erase addr

/-- What is right to answer where the set is that. -/
def Right (C : Crates Addr) (S : Finset Addr) : Op Addr → Answer Addr → Prop
  | .list, .listed observed => Increasing C.addrText observed ∧ ∀ addr, addr ∈ observed ↔ addr ∈ S
  | .change (.add addr), .changed b => b = true ↔ addr ∉ S
  | .change (.remove addr), .changed b => b = true ↔ addr ∈ S
  | _, _ => False

/-- One operation after another. -/
def run (C : Crates Addr) (op : Op Addr) (disk : Disk) :
    Except ObservedError (Answer Addr) × Disk := disk.run (op.body C).run

def runs (C : Crates Addr) : List (Op Addr) → Disk →
    List (Except ObservedError (Answer Addr)) × Disk
  | [], disk => ([], disk)
  | op :: ops, disk =>
    let (answer, disk) := op.run C disk
    let (answers, disk) := runs C ops disk
    (answer :: answers, disk)

end Op

/-- The run is one on the set: every operation that answers, answers what is right, and leaves the
set as it should be; one that answers `false` leaves the directory as it is, and one that is refused
leaves the document. -/
def OnSet (C : Crates Addr) : List (Op Addr) → Disk → Finset Addr → Prop
  | [], _, _ => True
  | op :: ops, disk, S =>
    match op.run C disk with
    | (.ok answer, disk') => op.Right C S answer ∧ Holds C disk'.fs (op.after S) ∧
      (answer = .changed false → disk'.fs = disk.fs) ∧ OnSet C ops disk' (op.after S)
    | (.error _, disk') => disk'.fs.node observedFile = disk.fs.node observedFile ∧
      OnSet C ops disk' S

/-! ### One operation -/

/-- What answers `false` only read. -/
theorem change_false (made : Change Addr) (h : (disk.run (made.body C).run).1 = .ok false) :
    (disk.run (made.body C).run).2.fs = disk.fs := by
  obtain ⟨disk', hdisk'⟩ : ∃ disk', disk' = (disk.run (made.body C).run).2 := ⟨_, rfl⟩
  have hrun : disk.run (made.body C).run = (.ok false, disk') := Prod.ext h hdisk'.symm
  rw [← hdisk']
  rw [Change.body_eq] at hrun
  obtain ⟨observed, disk₁, hlist, hrest⟩ := Disk.run_bind_ok hrun
  have hread : disk₁.fs = disk.fs := by
    have hfs := (list_readOnly (C := C)).run_fs disk
    rwa [hlist] at hfs
  split at hrest
  · obtain ⟨-, disk₂, -, hdone⟩ := Disk.run_bind_ok hrest
    cases (Disk.run_mk_ret_ok hdone).1
  · rw [(Disk.run_mk_ret_ok hrest).2, hread]

theorem Change.right (made : Change Addr) {before : List Addr}
    (hmem : ∀ addr, addr ∈ before ↔ addr ∈ S) :
    Op.Right C S (.change made) (.changed (made.needed before)) := by
  cases made with
  | add addr =>
    show (!before.contains addr) = true ↔ addr ∉ S
    rw [← hmem]
    simp
  | remove addr =>
    show before.contains addr = true ↔ addr ∈ S
    rw [← hmem]
    simp

theorem Change.after {made : Change Addr} {before : List Addr}
    (hmem : ∀ addr, addr ∈ before ↔ addr ∈ S) (addr : Addr) :
    addr ∈ made.apply before ↔ addr ∈ Op.after (.change made) S := by
  cases made with
  | add addr' =>
    show addr ∈ before ++ [addr'] ↔ addr ∈ insert addr' S
    rw [List.mem_append, List.mem_singleton, Finset.mem_insert, hmem]
    exact or_comm
  | remove addr' =>
    show addr ∈ before.filter (· ≠ addr') ↔ addr ∈ S.erase addr'
    rw [List.mem_filter, Finset.mem_erase, hmem, decide_eq_true_iff]
    exact and_comm

/-- What an operation answers, and what it leaves. -/
theorem Op.run_onSet (hV : C.VaultLaws) (hholds : Holds C disk.fs S) (op : Op Addr) :
    match op.run C disk with
    | (.ok answer, disk') => op.Right C S answer ∧ Holds C disk'.fs (op.after S) ∧
      (answer = .changed false → disk'.fs = disk.fs)
    | (.error _, disk') => disk'.fs.node observedFile = disk.fs.node observedFile := by
  unfold Op.run
  cases op with
  | list =>
    have hfs := (list_readOnly (C := C)).run_fs disk
    unfold Op.body
    rw [Disk.run_return]
    rcases hlist : (disk.run (Observed.list C).run).1 with e | observed
    · show (disk.run (Observed.list C).run).2.fs.node observedFile = _
      rw [hfs]
    · have hlists := list_run hlist
      refine ⟨⟨hlists.ordered hV, hlists.of_holds hholds⟩, ?_, fun h => by cases h⟩
      show Holds C (disk.run (Observed.list C).run).2.fs S
      rwa [hfs]
  | change made =>
    obtain ⟨-, hleaves⟩ := change_run (C := C) made disk
    unfold Op.body
    rw [Disk.run_return]
    rcases hmade : (disk.run (made.body C).run).1 with e | b
    · rw [hmade] at hleaves
      exact hleaves
    · obtain ⟨before, after, hbefore, hafter, rfl, hmem⟩ := lists_changed hV hmade
      have hbefore' := hbefore.of_holds hholds
      refine ⟨Change.right made hbefore', ?_, fun h => ?_⟩
      · have hset : Op.after (.change made) S = after.toFinset := by
          ext addr
          rw [List.mem_toFinset, hmem, Change.after hbefore']
        show Holds C (disk.run (made.body C).run).2.fs _
        rw [hset]
        exact hafter.holds
      · refine change_false made ?_
        rw [hmade, Answer.changed.inj h]

/-- A run of operations is one on the set. -/
theorem Op.runs_onSet (hV : C.VaultLaws) (ops : List (Op Addr)) (hholds : Holds C disk.fs S) :
    OnSet C ops disk S := by
  induction ops generalizing disk S with
  | nil => trivial
  | cons op ops ih =>
    have hop := op.run_onSet hV hholds
    unfold OnSet
    rcases hrun : op.run C disk with ⟨e | answer, disk'⟩
    · rw [hrun] at hop
      exact ⟨hop, ih (hholds.congr hop)⟩
    · rw [hrun] at hop
      obtain ⟨hright, hafter, hfalse⟩ := hop
      exact ⟨hright, hafter, hfalse, ih hafter⟩

/-! ### A document that is refused -/

/-- Where the directory holds no set, every operation is refused, and leaves the document. -/
theorem Op.refused (hV : C.VaultLaws) (h : ∀ S, ¬Holds C disk.fs S) (op : Op Addr) :
    (∃ e, (op.run C disk).1 = .error e) ∧
      (op.run C disk).2.fs.node observedFile = disk.fs.node observedFile := by
  unfold Op.run
  cases op with
  | list =>
    have hfs := (list_readOnly (C := C)).run_fs disk
    unfold Op.body
    rw [Disk.run_return]
    refine ⟨?_, by rw [hfs]⟩
    rcases hlist : (disk.run (Observed.list C).run).1 with e | observed
    · exact ⟨e, rfl⟩
    · exact absurd (list_run hlist).holds (h _)
  | change made =>
    obtain ⟨-, hleaves⟩ := change_run (C := C) made disk
    unfold Op.body
    rw [Disk.run_return]
    rcases hmade : (disk.run (made.body C).run).1 with e | b
    · rw [hmade] at hleaves
      exact ⟨⟨e, rfl⟩, hleaves⟩
    · obtain ⟨before, -, hbefore, -⟩ := lists_changed hV hmade
      exact absurd hbefore.holds (h _)

theorem Op.runs_refused (hV : C.VaultLaws) (ops : List (Op Addr))
    (h : ∀ S, ¬Holds C disk.fs S) :
    (∀ answer ∈ (Op.runs C ops disk).1, ∃ e, answer = .error e) ∧
      (Op.runs C ops disk).2.fs.node observedFile = disk.fs.node observedFile := by
  induction ops generalizing disk with
  | nil =>
    refine ⟨fun answer hmem => ?_, rfl⟩
    cases hmem
  | cons op ops ih =>
    obtain ⟨hrefused, hnode⟩ := op.refused hV h
    have hnone : ∀ S, ¬Holds C (op.run C disk).2.fs S :=
      fun S hholds => h S (hholds.congr hnode.symm)
    obtain ⟨hall, hrest⟩ := ih hnone
    refine ⟨fun answer hmem => ?_, hrest.trans hnode⟩
    rcases List.mem_cons.mp hmem with rfl | hmem
    · exact hrefused
    · exact hall answer hmem

/-! ### Where no call fails -/

/-- Every operation answers where no call fails. -/
theorem Op.answers (hholds : Holds C fs S) (hclear : Clear fs) (op : Op Addr) :
    ∃ answer fs', op.run C ⟨fs, []⟩ = (.ok answer, ⟨fs', []⟩) ∧ Clear fs' := by
  obtain ⟨listed, hlists, -⟩ := hholds.lists
  have hlist := list_alone hlists 0
  unfold Op.run
  cases op with
  | list =>
    refine ⟨.listed listed, fs, ?_, hclear⟩
    unfold Op.body
    rw [Disk.run_return, Disk.run_alone, hlist]
    rfl
  | change made =>
    unfold Op.body
    rw [Disk.run_return, Disk.run_alone, Change.body_eq, FsM.alone_bind, hlist]
    dsimp only
    split
    · obtain ⟨hok, hclear'⟩ := write_alone (C := C) hclear (made.apply listed)
      rw [FsM.alone_bind]
      generalize (write C (made.apply listed)).alone 0 fs = written at hok hclear'
      obtain ⟨r, fs'⟩ := written
      obtain rfl : r = .ok () := hok
      exact ⟨.changed true, fs', rfl, hclear'⟩
    · exact ⟨.changed false, fs, rfl, hclear⟩

theorem Op.runs_answer (hV : C.VaultLaws) (ops : List (Op Addr)) (hholds : Holds C fs S)
    (hclear : Clear fs) : ∀ answer ∈ (Op.runs C ops ⟨fs, []⟩).1, ∃ a, answer = .ok a := by
  induction ops generalizing fs S with
  | nil =>
    intro answer hmem
    cases hmem
  | cons op ops ih =>
    obtain ⟨a, fs', hrun, hclear'⟩ := op.answers hholds hclear
    have hholds' : Holds C (⟨fs, []⟩ : Disk).fs S := hholds
    have hop := op.run_onSet hV hholds'
    unfold Op.runs
    rw [hrun] at hop ⊢
    intro answer hmem
    rcases List.mem_cons.mp hmem with rfl | hmem
    · exact ⟨a, rfl⟩
    · exact ih hop.2.1 hclear' answer hmem

/-! ### The list is a set -/

/-- Started on any document the reader accepts, or none, listing, adding and removing are what they
are on the set it means, through any run of them; a run no call of which fails answers throughout.
What is written reads back as the set written, and a document that is refused stays as it is, and
refuses every operation. -/
theorem observed_list_is_a_set (hV : C.VaultLaws) :
    (∀ ops disk S, Holds C disk.fs S → OnSet C ops disk S) ∧
      (∀ ops fs S, Holds C fs S → (∀ d, fs.node stagedFile ≠ some (.dir d)) →
        ∀ answer ∈ (Op.runs C ops ⟨fs, []⟩).1, ∃ a, answer = .ok a) ∧
      (∀ observed, ∃ listed, ofText C (.json (documentOf C observed)) = .ok listed ∧
        Increasing C.addrText listed ∧ ∀ addr, addr ∈ listed ↔ addr ∈ observed) ∧
      ∀ ops disk, (∀ S, ¬Holds C disk.fs S) →
        (∀ answer ∈ (Op.runs C ops disk).1, ∃ e, answer = .error e) ∧
          (Op.runs C ops disk).2.fs.node observedFile = disk.fs.node observedFile := by
  refine ⟨fun ops disk S => Op.runs_onSet hV ops, fun ops fs S hholds hstaged =>
    Op.runs_answer hV ops hholds (hholds.clear hstaged), fun observed => ?_,
    fun ops disk => Op.runs_refused hV ops⟩
  obtain ⟨listed, htext, hmem⟩ := ofText_documentOf hV observed
  exact ⟨listed, htext, ofText_ordered hV htext, hmem⟩

/-- A document put together by hand, that names one of two addresses twice. -/
def editedByHand : Fs :=
  ⟨some ⟨[⟨.utf8 observedFile, .file ⟨.text (.json (.obj [
    ("addresses", .arr [
      .str (String.ofList (Hex.encode (Reference.someKey 2).bytes.toList)),
      .str (String.ofList (Hex.encode (Reference.someKey 1).bytes.toList)),
      .str (String.ofList (Hex.encode (Reference.someKey 2).bytes.toList))]),
    ("logos_account_observed", .num 1)])), true⟩⟩], by simp⟩, none⟩

theorem observed_list_is_a_set_edited :
    OnSet Crates.reference [.list, .change (.remove ⟨(Reference.someKey 2).bytes⟩), .list]
      ⟨editedByHand, []⟩ {⟨(Reference.someKey 1).bytes⟩, ⟨(Reference.someKey 2).bytes⟩} := by
  obtain ⟨honSet, -⟩ := observed_list_is_a_set Reference.vaultLaws
  refine honSet _ _ _ (.inr ⟨_, true, rfl, _, rfl, rfl, ?_, ?_⟩)
  · decide +kernel
  · decide +kernel

end AccountLogUi.Observed
