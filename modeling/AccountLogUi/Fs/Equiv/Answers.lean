import AccountLogUi.Fs.Programs

/-!
# What it takes for a program to answer

`Disk.Answers Q p disk`: on `disk`, whatever of its calls are to fail, the program `p` answers, and
`Q` holds of the answer and of the disk it leaves.  A chain is taken apart link by link
(`answers_bind`), so that what it takes can be said of the directory it starts in and of the faults
alone: a call that would answer does where no fault is in its place (`answers_io`).
-/

namespace AccountLogUi.Disk

variable {ε α β : Type} {disk : Disk} {n : ℕ} {fs fs' : Fs} {c : FsCall}

/-- What will go wrong with the call that comes after `n` others. -/
def fault (disk : Disk) (n : ℕ) : Option Fault := disk.faults[n]?.join

/-- Nothing goes wrong with the `k` calls that come after `n` others. -/
def Calm (disk : Disk) (n k : ℕ) : Prop := ∀ m < k, disk.fault (n + m) = none

theorem calm_one : disk.Calm n 1 ↔ disk.fault n = none := by
  constructor
  · intro h
    exact h 0 Nat.one_pos
  · intro h m hm
    rw [Nat.lt_one_iff.mp hm]
    exact h

theorem calm_add (k l : ℕ) : disk.Calm n (k + l) ↔ disk.Calm n k ∧ disk.Calm (n + k) l := by
  constructor
  · intro h
    refine ⟨fun m hm => h m (by omega), fun m hm => ?_⟩
    rw [Nat.add_assoc]
    exact h (k + m) (by omega)
  · rintro ⟨hk, hl⟩ m hm
    by_cases hlt : m < k
    · exact hk m hlt
    · have hrest := hl (m - k) (by omega)
      rwa [show n + k + (m - k) = n + m by omega] at hrest

/-- The disk once `n` calls were made, with the directory as they left it. -/
def after (disk : Disk) (n : ℕ) (fs : Fs) : Disk := ⟨fs, disk.faults.drop n⟩

@[simp] theorem faults_after (disk : Disk) (n : ℕ) (fs : Fs) :
    (disk.after n fs).faults = disk.faults.drop n := rfl

theorem exec_after (disk : Disk) (n : ℕ) (fs : Fs) (c : FsCall) : (disk.after n fs).exec c =
    ((fs.exec 0 c (disk.fault n)).1, disk.after (n + 1) (fs.exec 0 c (disk.fault n)).2) := by
  unfold exec after fault
  rw [List.head?_drop, List.tail_drop]

/-- The program answers, and `Q` holds of the answer and of what it leaves. -/
def Answers (Q : α → Disk → Prop) (p : FsM ε α) (disk : Disk) : Prop :=
  ∃ a disk', disk.run p.run = (.ok a, disk') ∧ Q a disk'

section

variable {Q : α → Disk → Prop}

theorem answers_of_run {p : FsM ε α} {a : α} {disk' : Disk} (h : disk.run p.run = (.ok a, disk')) :
    Answers Q p disk ↔ Q a disk' := by
  unfold Answers
  rw [h]
  constructor
  · rintro ⟨a', disk₁, heq, hQ⟩
    cases heq
    exact hQ
  · intro hQ
    exact ⟨a, disk', rfl, hQ⟩

theorem not_answers_of_run {p : FsM ε α} {e : ε} {disk' : Disk}
    (h : disk.run p.run = (.error e, disk')) : ¬Answers Q p disk := by
  rintro ⟨a, disk₁, heq, -⟩
  rw [h] at heq
  cases heq

@[simp] theorem answers_pure (a : α) : Answers Q (pure a : FsM ε α) disk ↔ Q a disk :=
  answers_of_run rfl

theorem not_answers_throw (e : ε) : ¬Answers Q (throw e : FsM ε α) disk := not_answers_of_run rfl

end

/-- The sequencing rule. -/
theorem answers_bind {Q : β → Disk → Prop} (p : FsM ε α) (f : α → FsM ε β) :
    Answers Q (p >>= f) disk ↔ Answers (fun a disk' => Answers Q (f a) disk') p disk := by
  rcases hran : disk.run p.run with ⟨e | a, disk₁⟩
  · have hbind : disk.run (p >>= f).run = (.error e, disk₁) := by
      unfold run at hran ⊢
      rw [FsM.run_bind, hran]
    exact iff_of_false (not_answers_of_run hbind) (not_answers_of_run hran)
  · have hbind : disk.run (p >>= f).run = disk₁.run (f a).run := by
      unfold run at hran ⊢
      rw [FsM.run_bind, hran]
    rw [answers_of_run hran]
    unfold Answers
    rw [hbind]

/-- A call that would answer does, unless it is given a fault. -/
theorem answers_io {wrap : IoError → ε} {Q : c.Value → Disk → Prop} (hc : c ≠ .unlock) {v : c.Value}
    (h : fs.perform 0 c = (.ok v, fs')) : Answers Q (FsM.io wrap c) (disk.after n fs) ↔
      disk.fault n = none ∧ Q v (disk.after (n + 1) fs') := by
  have hrun : (disk.after n fs).run (FsM.io wrap c).run =
      (((disk.after n fs).exec c).1.mapError wrap, ((disk.after n fs).exec c).2) := rfl
  rw [exec_after] at hrun
  rcases hfault : disk.fault n with - | fault
  · have hexec : fs.exec 0 c none = (.ok v, fs') := h
    rw [hfault, hexec] at hrun
    rw [answers_of_run hrun]
    simp
  · have hexec : fs.exec 0 c (some fault) = (.error (.other fault.code), fs.spoil fault c) := by
      cases c <;> first | rfl | exact absurd rfl hc
    rw [hfault, hexec] at hrun
    exact iff_of_false (not_answers_of_run hrun) fun h => by cases h.1

/-- One that would not, does not. -/
theorem not_answers_io {wrap : IoError → ε} {Q : c.Value → Disk → Prop} {e : IoError}
    (h : (fs.perform 0 c).1 = .error e) : ¬Answers Q (FsM.io wrap c) (disk.after n fs) := by
  rintro ⟨v, disk', hrun, -⟩
  have hstep := (disk.after n fs).exec_step c
  rw [run_io_ok hrun] at hstep
  have hperform : fs.perform 0 c = (.ok v, disk'.fs) := hstep.ok_perform
  rw [hperform] at h
  cases h

theorem answers_quiet {Q : Unit → Disk → Prop} :
    Answers Q (FsM.quiet c : FsM ε Unit) (disk.after n fs) ↔
      Q () (disk.after (n + 1) (fs.exec 0 c (disk.fault n)).2) := by
  have hrun : (disk.after n fs).run (FsM.quiet c : FsM ε Unit).run =
      (.ok (), ((disk.after n fs).exec c).2) := rfl
  rw [exec_after] at hrun
  exact answers_of_run hrun

theorem answers_dropping {Q : α → Disk → Prop} (c : FsCall) (body : FsM ε α) :
    Answers Q (FsM.dropping c body) disk ↔
      Answers (fun a disk' => Q a (disk'.exec c).2) body disk := by
  have hdropping : disk.run (FsM.dropping c body).run =
      ((disk.run body.run).1, ((disk.run body.run).2.exec c).2) :=
    FsM.run_dropping exec disk c body
  rcases hran : disk.run body.run with ⟨e | a, disk₁⟩
  · rw [hran] at hdropping
    exact iff_of_false (not_answers_of_run hdropping) (not_answers_of_run hran)
  · rw [hran] at hdropping
    rw [answers_of_run hdropping, answers_of_run hran]

end AccountLogUi.Disk
