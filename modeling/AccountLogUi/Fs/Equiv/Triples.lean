import AccountLogUi.Fs.Programs

/-!
# What a program leaves

`Disk.Ends E Q p fs`: from `fs`, whatever faults are to come, the program `p` ends where `Q` holds
of its answer and the directory, or fails where `E` holds of the directory.  A chain is followed
link by link (`Ends.bind`), and a call by what its `Fs.Step` can be.
-/

namespace AccountLogUi

namespace Disk

variable {ε α β : Type} {E E' : Fs → Prop} {Q Q' : α → Fs → Prop} {fs : Fs}

/-- Where a program can end that starts in `fs`. -/
def Ends (E : Fs → Prop) (Q : α → Fs → Prop) (p : FsM ε α) (fs : Fs) : Prop :=
  ∀ faults, match (⟨fs, faults⟩ : Disk).run p.run with
    | (.ok a, disk) => Q a disk.fs
    | (.error _, disk) => E disk.fs

/-- What holds of the directory however the program ended. -/
theorem Ends.left {p : FsM ε α} {disk : Disk} (h : Ends E (fun _ => E) p disk.fs) :
    E (disk.run p.run).2.fs := by
  have hends := h disk.faults
  rw [show (⟨disk.fs, disk.faults⟩ : Disk) = disk from rfl] at hends
  generalize disk.run p.run = x at hends ⊢
  obtain ⟨e | a, disk'⟩ := x
  · exact hends
  · exact hends

/-- The sequencing rule. -/
theorem Ends.bind {p : FsM ε α} {f : α → FsM ε β} {Q' : β → Fs → Prop} (h : Ends E Q p fs)
    (hnext : ∀ a fs', Q a fs' → Ends E Q' (f a) fs') : Ends E Q' (p >>= f) fs := by
  intro faults
  have hends := h faults
  unfold run at hends ⊢
  rw [FsM.run_bind]
  generalize p.run.run (S := fsSig) exec ⟨fs, faults⟩ = x at hends ⊢
  obtain ⟨e | a, ⟨fs', faults'⟩⟩ := x
  · exact hends
  · exact hnext a fs' hends faults'

theorem ends_pure {a : α} (h : Q a fs) : Ends E Q (pure a : FsM ε α) fs := fun _ => h

theorem ends_throw {e : ε} (h : E fs) : Ends E Q (throw e : FsM ε α) fs := fun _ => h

/-- One call, with its failure passed on. -/
theorem ends_io {wrap : IoError → ε} {c : FsCall} {Q : c.Value → Fs → Prop}
    (hok : ∀ v fs', fs.Step 0 c (.ok v) fs' → Q v fs')
    (herror : ∀ e fs', fs.Step 0 c (.error e) fs' → E fs') :
    Ends E Q (FsM.io wrap c) fs := by
  intro faults
  have hstep := (⟨fs, faults⟩ : Disk).exec_step c
  have hrun : (⟨fs, faults⟩ : Disk).run (FsM.io wrap c).run =
      ((exec ⟨fs, faults⟩ c).1.mapError wrap, (exec ⟨fs, faults⟩ c).2) := rfl
  rw [hrun]
  generalize exec ⟨fs, faults⟩ c = x at hstep ⊢
  obtain ⟨e | v, disk⟩ := x
  · exact herror e _ hstep
  · exact hok v _ hstep

/-- One call, with its failure ignored. -/
theorem ends_quiet {c : FsCall} {Q : Unit → Fs → Prop}
    (h : ∀ r fs', fs.Step 0 c r fs' → Q () fs') : Ends E Q (FsM.quiet c : FsM ε Unit) fs :=
  fun faults => h _ _ ((⟨fs, faults⟩ : Disk).exec_step c)

/-- A call made at the end of a block, whatever the block came to. -/
theorem Ends.dropping {c : FsCall} {p : FsM ε α} (h : Ends E Q p fs)
    (hok : ∀ a fs₁ r fs₂, Q a fs₁ → fs₁.Step 0 c r fs₂ → Q' a fs₂)
    (herror : ∀ fs₁ r fs₂, E fs₁ → fs₁.Step 0 c r fs₂ → E' fs₂) :
    Ends E' Q' (FsM.dropping c p) fs := by
  intro faults
  have hends := h faults
  unfold run at hends ⊢
  rw [FsM.run_dropping]
  generalize p.run.run (S := fsSig) exec ⟨fs, faults⟩ = x at hends ⊢
  obtain ⟨e | a, disk⟩ := x
  · exact herror _ _ _ hends (disk.exec_step c)
  · exact hok _ _ _ _ hends (disk.exec_step c)

end Disk

end AccountLogUi
