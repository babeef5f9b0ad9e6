import AccountLogUi.Fs.Equiv.Calls

/-!
# Programs of filesystem calls that can fail

`FsM ε` is what a function answering `Result<_, ε>` is modelled in: `io` is a call with `?` after
it, `quiet` one whose result is thrown away, and `dropping` a value dropped at the end of a block,
such as the lock or a stage.

Each has its rule for keeping to a protocol, and its equation for running alone.  A program that
gives up where a call fails answers on a disk what it answers alone, if it answers
(`GivesUp.run_alone`).
-/

namespace AccountLogUi

/-- A program of filesystem calls that can fail. -/
abbrev FsM (ε : Type) := ExceptT ε (Prog fsSig)

/-- A call whose failure is passed on. -/
def FsM.io {ε : Type} (wrap : IoError → ε) (c : FsCall) : FsM ε c.Value :=
  ExceptT.mk (.call c fun r => .ret (r.mapError wrap))

/-- A call whose failure is ignored. -/
def FsM.quiet {ε : Type} (c : FsCall) : FsM ε Unit :=
  ExceptT.mk (.call c fun _ => .ret (.ok ()))

/-- Run `body`, then make the call `c` whatever `body` came to. -/
def FsM.dropping {ε α : Type} (c : FsCall) (body : FsM ε α) : FsM ε α :=
  ExceptT.mk (body.run.bind fun r => .call c fun _ => .ret r)

namespace FsM

variable {ε α β γ : Type}

/-- What a program comes to when process `pid` runs it alone and no call fails. -/
def alone (p : FsM ε α) (pid : ℕ) (fs : Fs) : Except ε α × Fs :=
  p.run.run (S := fsSig) (Fs.perform pid) fs

/-! ### Keeping to a protocol -/

section

variable {π : Protocol fsSig γ} {g : γ}

@[simp] theorem keeps_bind (p : FsM ε α) (f : α → FsM ε β) (post : Except ε β → γ → Prop) :
    (p >>= f).run.Keeps π post g ↔ p.run.Keeps π (fun r g' => match r with
      | .ok a => (f a).run.Keeps π post g'
      | .error e => post (.error e) g') g := by
  rw [ExceptT.run_bind]
  refine (Prog.keeps_bind _ _ _ _).trans ?_
  have hpost : (fun (r : Except ε α) g' =>
      (match r with
        | .ok a => (f a).run
        | .error e => pure (Except.error e) : Prog fsSig (Except ε β)).Keeps π post g') =
      fun r g' => match r with
        | .ok a => (f a).run.Keeps π post g'
        | .error e => post (.error e) g' := by
    funext r g'
    cases r <;> rfl
  rw [← hpost]
  exact Iff.rfl

@[simp] theorem keeps_pure (a : α) (post : Except ε α → γ → Prop) :
    (pure a : FsM ε α).run.Keeps π post g ↔ post (.ok a) g := Iff.rfl

@[simp] theorem keeps_throw (e : ε) (post : Except ε α → γ → Prop) :
    (throw e : FsM ε α).run.Keeps π post g ↔ post (.error e) g := Iff.rfl

@[simp] theorem keeps_io (wrap : IoError → ε) (c : FsCall) (post : Except ε c.Value → γ → Prop) :
    (io wrap c).run.Keeps π post g ↔
      π.allowed g c ∧ ∀ r, post (r.mapError wrap) (π.next g c r) := Iff.rfl

@[simp] theorem keeps_quiet (c : FsCall) (post : Except ε Unit → γ → Prop) :
    (quiet c : FsM ε Unit).run.Keeps π post g ↔
      π.allowed g c ∧ ∀ r, post (.ok ()) (π.next g c r) := Iff.rfl

@[simp] theorem keeps_dropping (c : FsCall) (body : FsM ε α) (post : Except ε α → γ → Prop) :
    (dropping c body).run.Keeps π post g ↔ body.run.Keeps π (fun r g' =>
      π.allowed g' c ∧ ∀ a, post r (π.next g' c a)) g :=
  Prog.keeps_bind _ _ _ _

end

/-! ### Running alone -/

section

variable {σ : Type} (exec : σ → (c : FsCall) → Except IoError c.Value × σ) (s : σ)

theorem run_bind (p : FsM ε α) (f : α → FsM ε β) :
    (p >>= f).run.run (S := fsSig) exec s = match p.run.run (S := fsSig) exec s with
      | (.ok a, s') => (f a).run.run (S := fsSig) exec s'
      | (.error e, s') => (.error e, s') := by
  rw [ExceptT.run_bind]
  refine (Prog.run_bind _ _ _ _).trans ?_
  rcases p.run.run (S := fsSig) exec s with ⟨r, s'⟩
  cases r <;> rfl

theorem run_dropping (c : FsCall) (body : FsM ε α) :
    (dropping c body).run.run (S := fsSig) exec s =
      ((body.run.run (S := fsSig) exec s).1,
        (exec (body.run.run (S := fsSig) exec s).2 c).2) :=
  Prog.run_bind _ _ _ _

end

section

variable (pid : ℕ) (fs : Fs)

theorem alone_bind (p : FsM ε α) (f : α → FsM ε β) :
    (p >>= f).alone pid fs = match p.alone pid fs with
      | (.ok a, fs') => (f a).alone pid fs'
      | (.error e, fs') => (.error e, fs') := by
  unfold alone
  rw [run_bind]
  rcases p.run.run (S := fsSig) (Fs.perform pid) fs with ⟨r, fs'⟩
  cases r <;> rfl

@[simp] theorem alone_pure (a : α) : (pure a : FsM ε α).alone pid fs = (.ok a, fs) := rfl

@[simp] theorem alone_throw (e : ε) : (throw e : FsM ε α).alone pid fs = (.error e, fs) := rfl

@[simp] theorem alone_mk_ret (r : Except ε α) :
    alone (ExceptT.mk (.ret r) : FsM ε α) pid fs = (r, fs) := rfl

@[simp] theorem alone_io (wrap : IoError → ε) (c : FsCall) :
    (io wrap c).alone pid fs = ((fs.perform pid c).1.mapError wrap, (fs.perform pid c).2) := rfl

variable {pid fs} in
/-- A call that answers, with what comes after it. -/
theorem alone_io_bind {wrap : IoError → ε} {c : FsCall} {v : c.Value} {fs' : Fs}
    (h : fs.perform pid c = (.ok v, fs')) (f : c.Value → FsM ε β) :
    (io wrap c >>= f).alone pid fs = (f v).alone pid fs' := by
  rw [alone_bind, alone_io, h]
  rfl

theorem alone_quiet_bind (c : FsCall) (f : Unit → FsM ε β) :
    (quiet c >>= f).alone pid fs = (f ()).alone pid (fs.perform pid c).2 := by
  rw [alone_bind]
  rfl

theorem alone_dropping (c : FsCall) (body : FsM ε α) :
    (dropping c body).alone pid fs =
      ((body.alone pid fs).1, ((body.alone pid fs).2.perform pid c).2) :=
  run_dropping (Fs.perform pid) fs c body

end

/-! ### Programs that only look -/

/-- Listing the directory and reading a file is all that is allowed. -/
def looking : Protocol fsSig Unit where
  allowed _ c := c = FsCall.readDir ∨ ∃ name, c = FsCall.readToString name
  next _ _ _ := ()

/-- Makes no call but to list the directory and to read a file. -/
def ReadOnly (p : FsM ε α) : Prop := p.run.Keeps looking (fun _ _ => True) ()

theorem readOnly_pure (a : α) : (pure a : FsM ε α).ReadOnly := trivial

theorem readOnly_throw (e : ε) : (throw e : FsM ε α).ReadOnly := trivial

theorem readOnly_mk_ret (r : Except ε α) : ReadOnly (ExceptT.mk (.ret r) : FsM ε α) := trivial

theorem readOnly_readToString (wrap : IoError → ε) (name : List Char) :
    (io wrap (.readToString name)).ReadOnly :=
  ⟨.inr ⟨name, rfl⟩, fun _ => trivial⟩

theorem ReadOnly.bind {p : FsM ε α} {f : α → FsM ε β} (hp : p.ReadOnly)
    (hf : ∀ a, (f a).ReadOnly) : (p >>= f).ReadOnly := by
  refine (keeps_bind p f _).mpr (hp.mono fun r _ _ => ?_)
  rcases r with e | a
  · trivial
  · exact hf a

end FsM

/-! ### Running on a disk -/

/-- Where no call is to fail, a disk runs a program as a process alone does. -/
theorem Disk.run_alone {ε α : Type} (p : FsM ε α) (fs : Fs) :
    (⟨fs, []⟩ : Disk).run p.run = ((p.alone 0 fs).1, ⟨(p.alone 0 fs).2, []⟩) := by
  unfold Disk.run FsM.alone
  generalize p.run = prog
  induction prog generalizing fs with
  | ret a => rfl
  | call c k ih => exact ih _ _

/-- What is made of what a program answers. -/
theorem FsM.run_return {ε α β : Type} (p : FsM ε α) (f : α → β) :
    (do return f (← p) : FsM ε β).run = p.run.bind fun r => .ret (r.map f) :=
  congrArg (Prog.bind p.run) (funext fun r => by cases r <;> rfl)

theorem Disk.run_bind_ret {α β : Type} (disk : Disk) (p : Prog fsSig α) (f : α → β) :
    disk.run (p.bind fun a => .ret (f a)) = (f (disk.run p).1, (disk.run p).2) :=
  Prog.run_bind (S := fsSig) Disk.exec p _ disk

theorem Disk.run_return {ε α β : Type} (disk : Disk) (p : FsM ε α) (f : α → β) :
    disk.run (do return f (← p) : FsM ε β).run =
      ((disk.run p.run).1.map f, (disk.run p.run).2) := by
  rw [FsM.run_return, Disk.run_bind_ret]

/-- One of the calls made on the way to `disk'` was to fail. -/
def Disk.Faulted (disk disk' : Disk) : Prop :=
  ∃ used fault, disk.faults = used ++ disk'.faults ∧ some fault ∈ used

theorem Disk.not_faulted {disk disk' : Disk} (h : disk.faults = []) : ¬disk.Faulted disk' := by
  rintro ⟨used, fault, hfaults, hmem⟩
  rw [h] at hfaults
  rw [(List.append_eq_nil_iff.mp hfaults.symm).1] at hmem
  cases hmem

/-- A program uses up the faults that come first. -/
theorem Disk.run_faults {α : Type} (p : Prog fsSig α) (disk : Disk) :
    ∃ used, disk.faults = used ++ (disk.run p).2.faults := by
  unfold Disk.run
  induction p generalizing disk with
  | ret a => exact ⟨[], rfl⟩
  | call c k ih =>
    obtain ⟨used, hused⟩ := ih (disk.exec c).1 (disk.exec c).2
    have htail : (disk.exec c).2.faults = disk.faults.tail := rfl
    rw [Prog.run_call]
    rcases hfaults : disk.faults with - | ⟨fault, faults⟩
    · rw [htail, hfaults] at hused
      exact ⟨used, hused⟩
    · rw [htail, hfaults] at hused
      exact ⟨fault :: used, congrArg (fault :: ·) hused⟩

/-- Where no call of it is to fail, it runs as a process alone does. -/
theorem Disk.run_calm {α : Type} (p : Prog fsSig α) {disk : Disk}
    (hcalm : ¬disk.Faulted (disk.run p).2) :
    ((disk.run p).1, (disk.run p).2.fs) = p.run (S := fsSig) (Fs.perform 0) disk.fs := by
  unfold Disk.run at hcalm ⊢
  induction p generalizing disk with
  | ret a => rfl
  | call c k ih =>
    obtain ⟨fs, faults⟩ := disk
    obtain ⟨used, hused⟩ :=
      Disk.run_faults (k (Disk.exec ⟨fs, faults⟩ c).1) (Disk.exec ⟨fs, faults⟩ c).2
    have hnone : faults.head?.join = none := by
      rcases faults with - | ⟨- | fault, faults⟩
      · rfl
      · rfl
      · exact absurd ⟨some fault :: used, fault, congrArg (some fault :: ·) hused,
          List.mem_cons_self⟩ hcalm
    have hexec : Disk.exec ⟨fs, faults⟩ c =
        ((fs.perform 0 c).1, ⟨(fs.perform 0 c).2, faults.tail⟩) := by
      unfold Disk.exec
      rw [hnone]
      rfl
    rw [Prog.run_call, hexec] at hcalm ⊢
    rw [Prog.run_call]
    refine ih _ ?_
    rintro ⟨used, fault, hfaults, hmem⟩
    rcases faults with - | ⟨first, faults⟩
    · exact hcalm ⟨used, fault, hfaults, hmem⟩
    · exact hcalm ⟨first :: used, fault, congrArg (first :: ·) hfaults,
        List.mem_cons_of_mem _ hmem⟩

/-- A call on a disk is one a process can make, whatever fault is next. -/
theorem Disk.exec_step (disk : Disk) (c : FsCall) :
    disk.fs.Step 0 c (disk.exec c).1 (disk.exec c).2.fs := ⟨disk.faults.head?.join, rfl⟩

/-- An invariant that every allowed call preserves holds at the end of a run. -/
theorem Disk.run_keeps {α γ : Type} {π : Protocol fsSig γ} {post : α → γ → Prop}
    {J : Fs → γ → Prop} (hcall : ∀ fs g c r fs', J fs g → π.allowed g c → fs.Step 0 c r fs' →
      J fs' (π.next g c r)) {p : Prog fsSig α} {disk : Disk} {g : γ} (h : p.Keeps π post g)
    (hJ : J disk.fs g) : ∃ g', J (disk.run p).2.fs g' ∧ post (disk.run p).1 g' :=
  Prog.Keeps.run (S := fsSig) (J := fun disk g => J disk.fs g) Disk.exec
    (fun disk _ c hJ hallowed => hcall _ _ c _ _ hJ hallowed (disk.exec_step c)) h hJ

/-- A run on a disk is one a process can have come to the end of. -/
theorem Disk.run_partway {α : Type} (disk : Disk) (p : Prog fsSig α) :
    p.Partway (S := fsSig) (Fs.Step 0) disk.fs (disk.run p).2.fs := by
  unfold Disk.run
  induction p generalizing disk with
  | ret a => exact .here _ _
  | call c k ih => exact .call (disk.exec_step c) (ih _ _)

/-- A program that answers went through its first part. -/
theorem Disk.run_bind_ok {ε α β : Type} {p : FsM ε α} {f : α → FsM ε β} {disk disk' : Disk} {b : β}
    (h : disk.run (p >>= f).run = (.ok b, disk')) :
    ∃ a disk₁, disk.run p.run = (.ok a, disk₁) ∧ disk₁.run (f a).run = (.ok b, disk') := by
  unfold Disk.run at h ⊢
  rw [FsM.run_bind] at h
  generalize p.run.run (S := fsSig) Disk.exec disk = ran at h ⊢
  obtain ⟨e | a, disk₁⟩ := ran
  · cases h
  · exact ⟨a, disk₁, rfl, h⟩

theorem Disk.run_io_ok {ε : Type} {wrap : IoError → ε} {c : FsCall} {disk disk' : Disk}
    {v : c.Value} (h : disk.run (FsM.io wrap c).run = (.ok v, disk')) :
    disk.exec c = (.ok v, disk') := by
  have h' : ((disk.exec c).1.mapError wrap, (disk.exec c).2) = (Except.ok v, disk') := h
  generalize disk.exec c = x at h' ⊢
  obtain ⟨e | a, d⟩ := x
  · cases h'
  · cases h'
    rfl

theorem Disk.run_mk_ret_ok {ε α : Type} {r : Except ε α} {disk disk' : Disk} {a : α}
    (h : disk.run (ExceptT.mk (.ret r) : FsM ε α).run = (.ok a, disk')) :
    r = .ok a ∧ disk' = disk := by
  have h' : (r, disk) = (Except.ok a, disk') := h
  cases h'
  exact ⟨rfl, rfl⟩

theorem Disk.run_throw_ok {ε α : Type} {e : ε} {disk disk' : Disk} {a : α}
    (h : disk.run (throw e : FsM ε α).run = (.ok a, disk')) : False := by
  cases (Disk.run_mk_ret_ok h).1

/-- What a file that could be read holds. -/
theorem Disk.exec_readToString_ok {disk disk' : Disk} {name : List Char} {text : Text}
    (h : disk.exec (.readToString name) = (.ok text, disk')) :
    disk'.fs = disk.fs ∧ ∃ synced, disk.fs.node name = some (.file ⟨.text text, synced⟩) := by
  have hstep := disk.exec_step (.readToString name)
  rw [h] at hstep
  exact hstep.readToString_ok

/-- Listing and reading leave the directory, whether or not they fail. -/
theorem looking_step {i : ℕ} {fs fs' : Fs} {u : Unit} {c : FsCall} {r : Except IoError c.Value}
    (hallowed : FsM.looking.allowed u c) (hstep : fs.Step i c r fs') : fs' = fs := by
  rcases hallowed with rfl | ⟨name, rfl⟩
  · rcases r with e | names
    · exact hstep.error_eq (by simp) (by simp)
    · exact hstep.readDir_ok.1
  · rcases r with e | text
    · exact hstep.error_eq (by simp) (by simp)
    · exact hstep.readToString_ok.1

theorem FsM.ReadOnly.run_fs {ε α : Type} {p : FsM ε α} (h : p.ReadOnly) (disk : Disk) :
    (disk.run p.run).2.fs = disk.fs := by
  obtain ⟨-, hfs, -⟩ := Disk.run_keeps (J := fun fs _ => fs = disk.fs)
    (fun fs g c r fs' hJ hallowed hstep => (looking_step hallowed hstep).trans hJ) h rfl
  exact hfs

namespace FsM

variable {ε α β : Type}

/-! ### Programs that give up where a call fails -/

/-- Everything is allowed. -/
def anything : Protocol fsSig Unit := ⟨fun _ _ => True, fun _ _ _ => ()⟩

/-- Answers an error, whatever its calls are answered. -/
def Refused (p : Prog fsSig (Except ε α)) : Prop :=
  p.Keeps anything (fun r _ => ∃ e, r = .error e) ()

/-- Answers an error once a call is given a fault. -/
def GivesUp : Prog fsSig (Except ε α) → Prop
  | .ret _ => True
  | .call _ k => (∀ code, Refused (k (.error (.other code)) : Prog fsSig (Except ε α))) ∧
      ∀ r, GivesUp (k r)

theorem Refused.run {σ : Type} {p : Prog fsSig (Except ε α)} (h : Refused p)
    (exec : σ → (c : FsCall) → Except IoError c.Value × σ) (s : σ) :
    ∃ e, (p.run (S := fsSig) exec s).1 = .error e := by
  obtain ⟨-, -, herror⟩ := Prog.Keeps.run (S := fsSig) (J := fun _ _ => True) exec
    (fun _ _ _ _ _ => trivial) h (s := s) trivial
  exact herror

theorem Refused.bind {p : FsM ε α} (h : Refused p.run) (f : α → FsM ε β) :
    Refused (p >>= f).run := by
  refine (keeps_bind p f _).mpr (Prog.Keeps.mono ?_ h)
  rintro r - ⟨e, rfl⟩
  exact ⟨e, rfl⟩

theorem givesUp_pure (a : α) : GivesUp (pure a : FsM ε α).run := trivial

theorem givesUp_throw (e : ε) : GivesUp (throw e : FsM ε α).run := trivial

theorem givesUp_mk_ret (r : Except ε α) : GivesUp (ExceptT.mk (.ret r) : FsM ε α).run := trivial

theorem givesUp_io (wrap : IoError → ε) (c : FsCall) : GivesUp (io wrap c).run :=
  ⟨fun _ => ⟨_, rfl⟩, fun _ => trivial⟩

theorem GivesUp.bind {p : FsM ε α} {f : α → FsM ε β} (hp : GivesUp p.run)
    (hf : ∀ a, GivesUp (f a).run) : GivesUp (p >>= f).run := by
  change GivesUp (Prog.bind p.run _)
  generalize p.run = prog at hp
  induction prog with
  | ret r =>
    rcases r with e | a
    · exact givesUp_throw e
    · exact hf a
  | call c k ih =>
    refine ⟨fun code => ?_, fun r => ih r (hp.2 r)⟩
    exact Refused.bind (p := ExceptT.mk (k (.error (.other code)))) (hp.1 code) f

/-- What it answers where calls may fail, it answers where none does. -/
theorem GivesUp.run_alone {p : Prog fsSig (Except ε α)} (h : GivesUp p) {disk : Disk} {a : α}
    (hok : (disk.run p).1 = .ok a) :
    p.run (S := fsSig) (Fs.perform 0) disk.fs = (.ok a, (disk.run p).2.fs) := by
  unfold Disk.run at hok ⊢
  induction p generalizing disk with
  | ret r =>
    obtain rfl : r = .ok a := hok
    rfl
  | call c k ih =>
    rw [Prog.run_call] at hok ⊢
    have hperform : disk.exec c =
        ((disk.fs.perform 0 c).1, ⟨(disk.fs.perform 0 c).2, disk.faults.tail⟩) := by
      unfold Disk.exec
      rcases hfault : disk.faults.head?.join with - | fault
      · rfl
      by_cases hunlock : c = .unlock
      · subst hunlock
        rfl
      -- A call that fails has the program answer an error.
      have hexec : disk.exec c =
          (.error (.other fault.code), ⟨disk.fs.spoil fault c, disk.faults.tail⟩) := by
        unfold Disk.exec Fs.exec
        rw [hfault]
        cases c <;> first | rfl | exact absurd rfl hunlock
      rw [hexec] at hok
      obtain ⟨e, he⟩ := (h.1 fault.code).run Disk.exec ⟨disk.fs.spoil fault c, disk.faults.tail⟩
      rw [he] at hok
      cases hok
    rw [hperform] at hok
    rw [Prog.run_call, hperform]
    exact ih _ (h.2 _) hok

/-- It answers what it answers alone, or a call of it was to fail and it answers an error. -/
theorem GivesUp.run_cases {p : Prog fsSig (Except ε α)} (h : GivesUp p) (disk : Disk) :
    (disk.run p).1 = (p.run (S := fsSig) (Fs.perform 0) disk.fs).1 ∨
      disk.Faulted (disk.run p).2 ∧ ∃ e, (disk.run p).1 = .error e := by
  rcases hrun : (disk.run p).1 with e | a
  · by_cases hfaulted : disk.Faulted (disk.run p).2
    · exact .inr ⟨hfaulted, e, rfl⟩
    · left
      rw [← hrun]
      exact congrArg Prod.fst (Disk.run_calm p hfaulted)
  · left
    rw [h.run_alone hrun]

end FsM

end AccountLogUi
