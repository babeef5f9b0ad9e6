import AccountLogUi.Fs.Equiv.Answers
import AccountLogUi.Fs.Equiv.Edits
import AccountLogUi.Observed.Equiv.Alike
import AccountLogUi.Observed.Equiv.Set

/-!
# When an account is taken off the list

`Removable` says of a directory, and of the calls that are to fail, what it takes for a removal to
answer: the list can be read, and where it names the account, it can be written over.
-/

namespace AccountLogUi.Observed

variable {Addr : Type} {C : Crates Addr} (disk : Disk) (n : ℕ) {fs : Fs}

open Disk (Answers answers_bind answers_io not_answers_io answers_quiet)

/-- The list is written over where nothing is in the way, unless a call before the last fails. -/
theorem answers_write {Q : Unit → Disk → Prop}
    (hobserved : ∀ d, fs.node observedFile ≠ some (.dir d))
    (observed : List Addr) : ∃ fs', Answers Q (write C observed) (disk.after n fs) ↔
      fs.isDir stagedFile = false ∧ disk.Calm n 6 ∧ Q () (disk.after (n + 7) fs') := by
  unfold write
  by_cases hstaged : fs.isDir stagedFile = false
  · have hclear : Clear fs := ⟨hobserved, Fs.not_dir_of_isDir hstaged⟩
    obtain ⟨fs₁, fs₂, fs₃, fs₄, hcreate, hmode, hwrite, hmode₂, hsync, hrename, -⟩ :=
      hclear.performs (.text (.json (documentOf C observed)))
    refine ⟨(fs₄.exec 0 .syncDir (disk.fault (n + 6))).2, ?_⟩
    rw [answers_bind, answers_io (by simp) hcreate, answers_bind, answers_io (by simp) hmode,
      answers_bind, answers_io (by simp) hwrite, answers_bind, answers_io (by simp) hmode₂,
      answers_bind, answers_io (by simp) hsync, answers_bind, answers_io (by simp) hrename,
      answers_quiet, Disk.calm_add 1 5, Disk.calm_add 1 4, Disk.calm_add 1 3, Disk.calm_add 1 2,
      Disk.calm_add 1 1]
    simp only [Disk.calm_one, and_assoc]
    exact (and_iff_right hstaged).symm
  · refine ⟨fs, iff_of_false ?_ fun h => hstaged h.1⟩
    obtain ⟨d, hnode⟩ := Fs.isDir_eq_true.mp ((Bool.not_eq_false _).mp hstaged)
    obtain ⟨fs₁, hfs₁⟩ : ∃ fs₁ : Fs, fs₁ = { fs with dir := some (fs.dir.getD ∅) } := ⟨_, rfl⟩
    have hnode₁ : fs₁.node stagedFile = some (.dir d) := by
      rw [hfs₁, Fs.node_createDirAll, hnode]
    obtain ⟨dir, hdir⟩ := Option.isSome_iff_exists.mp (Fs.dir_isSome_of_node hnode₁)
    have hcreate : fs.perform 0 .createDirAll = (.ok (), fs₁) := by rw [hfs₁]; rfl
    have hmode : fs₁.perform 0 (.setMode .root 0o700) = (.ok (), fs₁) := by
      simp [Fs.perform, Fs.has, hdir]
    have hwrite : (fs₁.perform 0 (.write (.top stagedFile)
        (.text (.json (documentOf C observed))))).1 = .error (.other 21) := by
      simp [Fs.perform, Fs.writeFile, hdir, hnode₁]
    rw [answers_bind, answers_io (by simp) hcreate, answers_bind, answers_io (by simp) hmode,
      answers_bind]
    exact fun h => not_answers_io hwrite h.2.2

variable [DecidableEq Addr]

/-- The list is read where it is one, unless the call fails. -/
theorem answers_list {Q : List Addr → Disk → Prop} : Answers Q (list C) (disk.after n fs) ↔
    disk.fault n = none ∧ ∃ observed, Lists C fs observed ∧ Q observed (disk.after (n + 1) fs) := by
  by_cases hlists : ∃ observed, Lists C fs observed
  · obtain ⟨observed, hobserved⟩ := hlists
    have hrun := (show Lists C (disk.after n fs).fs observed from hobserved).run
    have hnext : (disk.after n fs).faults.head?.join = disk.fault n := by
      rw [Disk.faults_after, List.head?_drop]
      rfl
    rw [hnext] at hrun
    rcases hfault : disk.fault n with - | fault
    · rw [hfault, Disk.faults_after, List.tail_drop] at hrun
      rw [Disk.answers_of_run hrun]
      constructor
      · intro hQ
        exact ⟨rfl, observed, hobserved, hQ⟩
      · rintro ⟨-, observed', hobserved', hQ⟩
        obtain rfl := hobserved.unique hobserved'
        exact hQ
    · rw [hfault] at hrun
      exact iff_of_false (Disk.not_answers_of_run hrun) fun h => by cases h.1
  · refine iff_of_false ?_ fun h => hlists ⟨_, h.2.choose_spec.1⟩
    rintro ⟨observed, disk', hrun, -⟩
    have hread : ((disk.after n fs).run (list C).run).1 = .ok observed := by rw [hrun]
    exact hlists ⟨observed, list_run hread⟩

/-- Nothing keeps `addr` from being taken off the list, once `n` calls were made. -/
structure Removable (C : Crates Addr) (disk : Disk) (n : ℕ) (fs : Fs) (addr : Addr) : Prop where
  read : disk.fault n = none
  listed : ∃ observed, Lists C fs observed ∧
    (addr ∈ observed → fs.isDir stagedFile = false ∧ disk.Calm (n + 1) 6)

variable {disk n} in
theorem Removable.congr {fs' : Fs} {addr : Addr} (h : Removable C disk n fs addr)
    (hobserved : fs.node observedFile = fs'.node observedFile)
    (hstaged : fs.node stagedFile = fs'.node stagedFile) : Removable C disk n fs' addr := by
  obtain ⟨observed, hlists, hmem⟩ := h.listed
  refine ⟨h.read, observed, hlists.congr hobserved.symm, fun haddr => ?_⟩
  rw [Fs.isDir_congr hstaged.symm]
  exact hmem haddr

theorem remove_answers_iff (addr : Addr) :
    Answers (fun _ _ => True) (remove C addr) (disk.after n fs) ↔ Removable C disk n fs addr := by
  have hneeded : ∀ observed, (Change.remove addr).needed observed = true ↔ addr ∈ observed := by
    intro observed
    simp [Change.needed]
  have hbody : remove C addr = _ := Change.body_eq (.remove addr)
  rw [hbody, answers_bind, answers_list]
  have hwritten : ∀ observed, Lists C fs observed →
      (Answers (fun _ _ => True) (if (Change.remove addr).needed observed = true then do
        write C ((Change.remove addr).apply observed)
        return true
      else return false) (disk.after (n + 1) fs) ↔
        (addr ∈ observed → fs.isDir stagedFile = false ∧ disk.Calm (n + 1) 6)) := by
    intro observed hobserved
    by_cases hmem : addr ∈ observed
    · have hreal : ∀ d, fs.node observedFile ≠ some (.dir d) :=
        Fs.not_dir_of_isDir hobserved.isDir
      obtain ⟨fs', hwrite⟩ := answers_write disk (n + 1) hreal ((Change.remove addr).apply observed)
      rw [if_pos ((hneeded observed).mpr hmem), answers_bind, hwrite]
      simp [hmem]
    · rw [if_neg fun h => hmem ((hneeded observed).mp h)]
      simp [hmem]
  constructor
  · rintro ⟨hread, observed, hobserved, hanswers⟩
    exact ⟨hread, observed, hobserved, (hwritten observed hobserved).mp hanswers⟩
  · rintro ⟨hread, observed, hobserved, hmem⟩
    exact ⟨hread, observed, hobserved, (hwritten observed hobserved).mpr hmem⟩

end AccountLogUi.Observed
