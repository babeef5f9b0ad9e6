import AccountLogUi.DataDir.Basic
import AccountLogUi.Vault.Equiv.Map

/-!
# A crash is atomic

`Stands` says the directory holds keys and a set of observed accounts, as synced files, with nothing
in the way of an operation.  What is lost when the machine goes down keeps that (`Stands.lost`), and
so does every operation, wherever it is cut short: what it was to do is then done, or was not begun.

A directory answers as what it holds says (`Stands.answers_eq`), so after a crash everything asked
of it is answered as if the operation had not been started, or as if it had been completed
(`crash_is_atomic`).
-/

namespace AccountLogUi.DataDir

open Vault

variable {Addr : Type} {C : Crates Addr} {fs fs' fs₀ : Fs}

/-! ### One call -/

/-- What a running operation of the vault keeps beside its effect. -/
structure Works (C : Crates Addr) (fs₀ : Fs) (op : VaultOp Addr) (g : Progress Addr) (fs : Fs) :
    Prop where
  underway : Underway C fs₀ g fs
  op : g.op = op
  staged : fs.isDir Observed.stagedFile = false

theorem Works.step (hV : C.VaultLaws) {op : VaultOp Addr} {g : Progress Addr} {c : FsCall}
    {r : Except IoError c.Value} (h : Works C fs₀ op g fs) (hallowed : Progress.allowed C g c)
    (hstep : fs.Step 0 c r fs') : Works C fs₀ op (Progress.next C g c r) fs' where
  underway := h.underway.step hV hallowed hstep
  op := by rw [Progress.next_op, h.op]
  staged := by
    rw [step_isDir hallowed hstep fun addr => (stageName_ne_stagedFile C addr).symm]
    exact h.staged

theorem right_unique {S : Finset Addr} {op : Observed.Op Addr} {a₁ a₂ : Observed.Answer Addr}
    (h₁ : op.Right C S a₁) (h₂ : op.Right C S a₂) : a₁ = a₂ := by
  rcases op with - | addr | addr <;> rcases a₁ with l₁ | b₁ <;> rcases a₂ with l₂ | b₂
  all_goals first
    | exact h₁.elim
    | exact h₂.elim
    | exact congrArg Observed.Answer.listed
        (h₁.1.ext h₂.1 fun addr => (h₁.2 addr).trans (h₂.2 addr).symm)
    | exact congrArg Observed.Answer.changed (Bool.eq_iff_iff.mpr (h₁.trans h₂.symm))

/-! ### What the directory holds -/

/-- Under the names the app reads, files are synced. -/
def Whole (C : Crates Addr) (fs : Fs) : Prop :=
  ∀ name file, Real C name → fs.node name = some (.file file) → file.synced = true

theorem Whole.congr (h : Whole C fs) (hreal : ∀ name, Real C name → fs'.node name = fs.node name) :
    Whole C fs' := by
  intro name file hname hfile
  rw [hreal name hname] at hfile
  exact h name file hname hfile

variable [DecidableEq Addr]

/-- The keys, and the accounts observed. -/
structure Data (Addr : Type) where
  keys : KeyMap Addr
  observed : Finset Addr

/-- What an operation answers of them, and makes of them. -/
def Data.Does (C : Crates Addr) (d : Data Addr) : DataOp Addr → DataAnswer Addr → Data Addr → Prop
  | .vault op, .vault answer, d' => d.keys.Does C op answer d'.keys ∧ d'.observed = d.observed
  | .observed op, .observed (.ok answer), d' => op.Right C d.observed answer ∧
      d'.observed = op.after d.observed ∧ d'.keys = d.keys
  | _, _, _ => False

/-- The directory holds them, and is ready for an operation. -/
structure Stands (C : Crates Addr) (fs : Fs) (d : Data Addr) : Prop where
  keys : Represents C fs d.keys
  observed : Observed.Holds C fs d.observed
  staged : fs.isDir Observed.stagedFile = false
  whole : Whole C fs

/-! ### What is lost -/

theorem isDir_survives {name : List Char} (h : Node.Survives (fs.node name) (fs'.node name))
    (hdir : fs.isDir name = false) : fs'.isDir name = false := by
  by_contra hdir'
  obtain ⟨staged', hstaged'⟩ := Fs.isDir_eq_true.mp (by simpa using hdir')
  rw [hstaged'] at h
  generalize hnode : fs.node name = node at h
  cases h with
  | stage staged staged' => exact Fs.not_dir_of_isDir hdir _ hnode

theorem file_survives {name : List Char} (h : Node.Survives (fs.node name) (fs'.node name))
    (hfile : fs.file name = none) : fs'.file name = none := by
  by_contra hfile'
  obtain ⟨file, hsome⟩ := Option.ne_none_iff_exists'.mp hfile'
  have hnode' := Fs.node_eq_of_file hsome
  rw [hnode'] at h
  generalize hnode : fs.node name = node at h
  cases h with
  | synced content | torn content left =>
    rw [Fs.file_eq hnode] at hfile
    cases hfile

namespace Stands

variable {d : Data Addr}

theorem isDir_real (h : Stands C fs d) {name : List Char} (hname : Real C name) :
    fs.isDir name = false := by
  rcases hname with ⟨addr, protected_, rfl⟩ | rfl
  · exact h.keys.settled.real addr protected_
  · unfold Fs.isDir
    rcases h.observed with ⟨hnone, -⟩ | ⟨text, synced, hfile, -⟩
    · rw [hnone]
    · rw [hfile]

theorem lost (h : Stands C fs d) (hlost : fs.Lost fs') : Stands C fs' d := by
  -- What the app reads was synced, and is what it was.
  have hreal : ∀ name, Real C name → fs'.node name = fs.node name := by
    intro name hname
    have hsurvives := hlost.survives name
    generalize hnode : fs.node name = node at hsurvives
    generalize fs'.node name = node' at hsurvives
    cases hsurvives with
    | nothing => rfl
    | synced content => rfl
    | torn content left | gone content => cases h.whole name _ hname hnode
    | stage staged _ | noStage staged =>
      exact absurd hnode (Fs.not_dir_of_isDir (h.isDir_real hname) staged)
  have hsame : SameFiles C fs fs' := fun addr protected_ => hreal _ (.inl ⟨addr, protected_, rfl⟩)
  have hsettled : Settled C fs' := {
    lock := isDir_survives (hlost.survives _) h.keys.settled.lock
    stage := fun addr => file_survives (hlost.survives _) (h.keys.settled.stage addr)
    real := fun addr protected_ =>
      isDir_survives (hlost.survives _) (h.keys.settled.real addr protected_)
    free := hlost.free
    single := hsame.single h.keys.settled.single }
  exact ⟨h.keys.same hsame hsettled, h.observed.congr (hreal _ (.inr rfl)),
    isDir_survives (hlost.survives _) h.staged, h.whole.congr hreal⟩

/-- The lock is free already. -/
theorem unlock (h : Stands C fs d) : Stands C { fs with lock := none } d := by
  have hfree : ({ fs with lock := none } : Fs) = fs := by rw [← h.keys.settled.free]
  rwa [hfree]

/-! ### An operation of the vault -/

theorem whole_of_effect {g : Progress Addr} (h : Effect C fs₀ g fs) (hwhole : Whole C fs₀) :
    Whole C fs := by
  have hkept : ∀ name, Real C name → fs.node name = none ∨ fs.node name = fs₀.node name ∨
      ∃ content, fs.node name = some (.file ⟨content, true⟩) := by
    rintro name (⟨addr, protected_, rfl⟩ | rfl)
    -- The one file promoted was synced before its rename.
    · by_cases hpromoted : g.promoted = true
      · obtain ⟨key, password, seed, -, hstored⟩ := h.promoted hpromoted
        by_cases hpath : addr = C.addrOf key ∧ protected_ = password.isSome
        · obtain ⟨rfl, rfl⟩ := hpath
          exact .inr (.inr ⟨_, hstored.file⟩)
        · exact .inr (.inl (hstored.other _ _ hpath))
      by_cases hremoved : g.removed = true
      · obtain ⟨addr', -, hdropped⟩ := h.removed hremoved
        by_cases haddr : addr = addr'
        · subst haddr
          exact (hdropped.left protected_).imp_right .inl
        · exact .inr (.inl (hdropped.other _ _ haddr))
      exact .inr (.inl (h.untouched (by simpa using hpromoted) (by simpa using hremoved) _ _))
    · exact .inr (.inl h.observed)
  intro name file hname hfile
  rcases hkept name hname with hnone | hsame | ⟨content, hnew⟩
  · rw [hnone] at hfile
    cases hfile
  · rw [hsame] at hfile
    exact hwhole name file hname hfile
  · rw [hnew] at hfile
    cases hfile
    rfl

/-- Cut short, an operation has been done or was not begun, once the lock is free. -/
theorem underway {g : Progress Addr} (h : Stands C fs₀ d) (hunderway : Underway C fs₀ g fs)
    (hstaged : fs.isDir Observed.stagedFile = false)
    (hpassword : ∀ key seed, g.op ≠ .create key (some "") seed) :
    Stands C { fs with lock := none } d ∨ ∃ answer keys, d.keys.Does C g.op answer keys ∧
      Stands C { fs with lock := none } ⟨keys, d.observed⟩ := by
  have heffect := hunderway.toEffect
  have hunlocked : SameFiles C fs { fs with lock := none } := fun _ _ => rfl
  have hsettled : Settled C { fs with lock := none } := {
    toTidy := hunderway.tidy.congr fun _ => rfl
    free := rfl
    single := hunlocked.single (heffect.single h.keys.settled.single) }
  have hobserved : Observed.Holds C { fs with lock := none } d.observed :=
    h.observed.congr heffect.observed
  have hwhole : Whole C { fs with lock := none } := (whole_of_effect heffect h.whole).congr
    fun _ _ => rfl
  -- A create is over in effect with its rename, a forget with its unlink.
  by_cases hpromoted : g.promoted = true
  · obtain ⟨key, password, seed, hop, hstored⟩ := heffect.promoted hpromoted
    right
    rw [hop]
    refine ⟨.ok (.created (C.addrOf key)), d.keys.insert (C.addrOf key) (key, password), ?_, ?_⟩
    · dsimp only [KeyMap.Does]
      have hempty : password ≠ some "" := by
        rintro rfl
        exact hpassword _ _ hop
      rw [if_neg hempty, if_neg fun hmem => hstored.absent (h.keys.present_iff.mpr hmem)]
      exact ⟨rfl, rfl⟩
    · exact ⟨h.keys.insert (hstored.congr hunlocked) hsettled, hobserved, hstaged, hwhole⟩
  by_cases hremoved : g.removed = true
  · obtain ⟨addr, hop, hdropped⟩ := heffect.removed hremoved
    have hpresent : Present C fs₀ addr := hdropped.gone.imp fun _ hp => hp.1
    right
    rw [hop]
    refine ⟨.ok .forgotten, d.keys.erase addr, ?_, ?_⟩
    · dsimp only [KeyMap.Does]
      rw [if_pos (h.keys.present_iff.mp hpresent)]
      exact ⟨rfl, rfl⟩
    · have hgone := (hdropped.congr hunlocked).not_present (h.keys.settled.single addr)
      exact ⟨h.keys.erase (hdropped.congr hunlocked) hgone hsettled, hobserved, hstaged, hwhole⟩
  -- Neither its rename nor its unlink was reached.
  have hsame := heffect.untouched (by simpa using hpromoted) (by simpa using hremoved)
  exact .inl ⟨h.keys.same (hsame.trans hunlocked) hsettled, hobserved, hstaged, hwhole⟩

/-! ### A change to the list -/

/-- A change leaves everything but the list and the document beside it. -/
theorem beside {g : Observed.Rewriting Addr} (hV : C.VaultLaws) (h : Stands C fs₀ d)
    (heffect : Observed.Effect C fs₀ g fs) (hlock : fs.lock = fs₀.lock) :
    Represents C fs d.keys := by
  have hsame : SameFiles C fs₀ fs := fun addr protected_ =>
    heffect.other _ (pathOf_ne_observedFile hV addr protected_)
      (pathOf_ne_stagedFile hV addr protected_)
  refine h.keys.same hsame ⟨⟨?_, fun addr => ?_, fun addr protected_ => ?_⟩, ?_,
    hsame.single h.keys.settled.single⟩
  · rw [Fs.isDir_congr (heffect.other _ lockFile_ne_observedFile lockFile_ne_stagedFile)]
    exact h.keys.settled.lock
  · rw [Fs.file_congr (heffect.other _ (stageName_ne_observedFile C addr)
      (stageName_ne_stagedFile C addr))]
    exact h.keys.settled.stage addr
  · rw [Fs.isDir_congr (hsame addr protected_)]
    exact h.keys.settled.real addr protected_
  · rw [hlock]
    exact h.keys.settled.free

theorem whole_of_rewriting {g : Observed.Rewriting Addr} (hV : C.VaultLaws)
    (heffect : Observed.Effect C fs₀ g fs) (hwhole : Whole C fs₀) : Whole C fs := by
  rintro name file (⟨addr, protected_, rfl⟩ | rfl) hfile
  · rw [heffect.other _ (pathOf_ne_observedFile hV addr protected_)
      (pathOf_ne_stagedFile hV addr protected_)] at hfile
    exact hwhole _ file (.inl ⟨addr, protected_, rfl⟩) hfile
  · by_cases hrenamed : g.renamed = true
    · obtain ⟨observed, -, -, hnew⟩ := heffect.renamed hrenamed
      rw [hnew] at hfile
      cases hfile
      rfl
    · rw [heffect.untouched (by simpa using hrenamed)] at hfile
      exact hwhole _ file (.inr rfl) hfile

theorem rewriting {g : Observed.Rewriting Addr} (hV : C.VaultLaws) (h : Stands C fs₀ d)
    (heffect : Observed.Effect C fs₀ g fs) (hlock : fs.lock = fs₀.lock)
    (hstaged : fs.isDir Observed.stagedFile = false) :
    Stands C fs d ∨ (Observed.Op.change g.change).Right C d.observed (.changed true) ∧
      Stands C fs ⟨d.keys, (Observed.Op.change g.change).after d.observed⟩ := by
  have hkeys := h.beside hV heffect hlock
  have hwhole := whole_of_rewriting hV heffect h.whole
  by_cases hrenamed : g.renamed = true
  · obtain ⟨before, hbefore, hneeded, hnew⟩ := heffect.renamed hrenamed
    obtain ⟨after, hafter, hmem⟩ := Observed.lists_written hV hnew
    have hset := hbefore.of_holds h.observed
    right
    refine ⟨?_, hkeys, ?_, hstaged, hwhole⟩
    · have hright := Observed.Change.right (C := C) g.change hset
      rwa [hneeded] at hright
    · have hset' : (Observed.Op.change g.change).after d.observed = after.toFinset := by
        ext addr
        rw [List.mem_toFinset, hmem, Observed.Change.after hset]
      rw [hset']
      exact hafter.holds
  · left
    exact ⟨hkeys, h.observed.congr (heffect.untouched (by simpa using hrenamed)), hstaged, hwhole⟩

end Stands

/-- What a running change keeps beside its effect. -/
structure Rewrites (C : Crates Addr) (fs₀ : Fs) (made : Observed.Change Addr)
    (g : Observed.Rewriting Addr) (fs : Fs) : Prop where
  effect : Observed.Effect C fs₀ g fs
  change : g.change = made
  lock : fs.lock = fs₀.lock
  staged : fs.isDir Observed.stagedFile = false

theorem Rewrites.step {made : Observed.Change Addr} {g : Observed.Rewriting Addr} {c : FsCall}
    {r : Except IoError c.Value} (h : Rewrites C fs₀ made g fs)
    (hallowed : Observed.Rewriting.allowed C g c) (hstep : fs.Step 0 c r fs') :
    Rewrites C fs₀ made (Observed.Rewriting.next C g c r) fs' where
  effect := h.effect.step hallowed hstep
  change := by
    rw [← h.change]
    cases c with
    | readToString name =>
      rcases r with e | text
      · cases e <;> rfl
      · rfl
    | rename src dest =>
      dsimp only [Observed.Rewriting.next]
      split <;> rfl
    | _ => rfl
  lock := by
    rw [← h.lock]
    apply hstep.lock_eq
    · rintro rfl
      exact hallowed
    · rintro rfl
      exact hallowed
  staged := by
    rw [← h.staged]
    apply hstep.isDir_eq
    · rintro rfl
      exact hallowed
    · rintro rfl
      exact hallowed

/-! ### One operation -/

namespace Stands

variable {d : Data Addr} (hV : C.VaultLaws)
include hV

theorem partway_vault (h : Stands C fs₀ d) (op : VaultOp Addr)
    (hpartway : (op.body C).Partway (S := fsSig) (Fs.Step 0) fs₀ fs) :
    Stands C { fs with lock := none } d ∨ ∃ answer keys, d.keys.Does C op answer keys ∧
      Stands C { fs with lock := none } ⟨keys, d.observed⟩ := by
  by_cases hempty : ∃ key seed, op = .create key (some "") seed
  · -- It is refused before its first call.
    obtain ⟨key, seed, rfl⟩ := hempty
    have hbody : (VaultOp.create key (some "") seed).body C = .ret (.error .emptyPassword) := rfl
    rw [hbody] at hpartway
    cases hpartway
    exact .inl h.unlock
  · obtain ⟨g, hunderway, rfl, hstaged⟩ := Prog.Keeps.partway
      (J := fun fs g => Works C fs₀ op g fs)
      (fun fs g c r fs' hJ hallowed hstep => hJ.step hV hallowed hstep) hpartway (op.keeps hV)
      ⟨.start h.keys.settled op, rfl, h.staged⟩
    exact h.underway hunderway hstaged fun key seed hop => hempty ⟨key, seed, hop⟩

theorem partway_observed (h : Stands C fs₀ d) (op : Observed.Op Addr)
    (hpartway : (op.body C).run.Partway (S := fsSig) (Fs.Step 0) fs₀ fs) :
    Stands C fs d ∨ ∃ answer, op.Right C d.observed answer ∧
      Stands C fs ⟨d.keys, op.after d.observed⟩ := by
  cases op with
  | list =>
    have hlook : ((Observed.Op.list : Observed.Op Addr).body C).ReadOnly :=
      Observed.list_readOnly.bind fun _ => FsM.readOnly_pure _
    obtain ⟨-, rfl⟩ := Prog.Keeps.partway (J := fun fs _ => fs = fs₀)
      (fun fs g c r fs' hJ hallowed hstep => (looking_step hallowed hstep).trans hJ) hpartway
      hlook rfl
    exact .inl h
  | change made =>
    have hbody : (Observed.Op.change made).body C =
        (do return .changed (← made.body C) : FsM ObservedError (Observed.Answer Addr)) := rfl
    rw [hbody, FsM.run_return] at hpartway
    obtain ⟨g, heffect, rfl, hlock, hstaged⟩ := Prog.Keeps.partway
      (J := fun fs g => Rewrites C fs₀ made g fs)
      (fun fs g c r fs' hJ hallowed hstep => hJ.step hallowed hstep) hpartway.of_bind_ret
      (made.keeps (C := C)) ⟨.refl fs₀ made, rfl, rfl, h.staged⟩
    exact (h.rewriting hV heffect hlock hstaged).imp_right fun hdone => ⟨_, hdone⟩

/-- Wherever an operation is cut short, it was not begun, or it was done, once the lock is free. -/
theorem partway (h : Stands C fs₀ d) (op : DataOp Addr)
    (hpartway : (op.body C).Partway (S := fsSig) (Fs.Step 0) fs₀ fs) :
    Stands C { fs with lock := none } d ∨ ∃ answer d', d.Does C op answer d' ∧
      Stands C { fs with lock := none } d' := by
  cases op with
  | vault op =>
    rcases h.partway_vault hV op (Prog.Partway.of_bind_ret hpartway) with
      hbefore | ⟨answer, keys, hdoes, hafter⟩
    · exact .inl hbefore
    · exact .inr ⟨.vault answer, ⟨keys, d.observed⟩, ⟨hdoes, rfl⟩, hafter⟩
  | observed op =>
    rcases h.partway_observed hV op (Prog.Partway.of_bind_ret hpartway) with
      hbefore | ⟨answer, hright, hafter⟩
    · exact .inl hbefore.unlock
    · exact .inr ⟨.observed (.ok answer), ⟨d.keys, op.after d.observed⟩, ⟨hright, rfl, rfl⟩,
        hafter.unlock⟩

/-- Run to its end, whatever its calls answer. -/
theorem run {disk : Disk} (h : Stands C disk.fs d) (op : DataOp Addr) :
    Stands C (disk.run (op.body C)).2.fs d ∨ ∃ answer d', d.Does C op answer d' ∧
      Stands C (disk.run (op.body C)).2.fs d' := by
  have hpartway := disk.run_partway (op.body C)
  have hfree : (disk.run (op.body C)).2.fs.lock = none := by
    cases op with
    | vault op =>
      unfold DataOp.body
      rw [Disk.run_bind_ret]
      exact (h.keys.settled.run hV op).free
    | observed op =>
      rcases h.partway_observed hV op (Prog.Partway.of_bind_ret hpartway) with
        hstands | ⟨-, -, hstands⟩
      · exact hstands.keys.settled.free
      · exact hstands.keys.settled.free
  have hstands := h.partway hV op hpartway
  generalize (disk.run (op.body C)).2.fs = fs at hfree hstands ⊢
  have hfs : ({ fs with lock := none } : Fs) = fs := by rw [← hfree]
  rwa [hfs] at hstands

/-- Where no call fails, an operation does what it does on what the directory holds. -/
theorem alone (h : Stands C fs d) (op : DataOp Addr) :
    ∃ d', d.Does C op (op.alone C fs).1 d' ∧ Stands C (op.alone C fs).2 d' := by
  -- A disk that fails no call.
  obtain ⟨disk, rfl, hfaults⟩ : ∃ disk : Disk, disk.fs = fs ∧ disk.faults = [] :=
    ⟨⟨fs, []⟩, rfl, rfl⟩
  have hrun := Disk.run_calm (op.body C) (Disk.not_faulted hfaults)
  have hstands := run hV h op
  unfold DataOp.alone
  rw [← hrun]
  dsimp only at hstands ⊢
  cases op with
  | vault op =>
    -- With no call to fail, the operation on the keys is the whole of what happens.
    obtain ⟨keys, hbehaves, hkeys⟩ := Represents.op hV h.keys op
    have hdoes := hbehaves.resolve_right fun hfaulted => Disk.not_faulted hfaults hfaulted.1
    unfold DataOp.body at hstands ⊢
    rw [Disk.run_bind_ret] at hstands ⊢
    refine ⟨⟨keys, d.observed⟩, ⟨hdoes, rfl⟩, ?_⟩
    rcases hstands with hstands | ⟨answer, d', hdoes', hstands⟩
    · exact ⟨hkeys, hstands.observed, hstands.staged, hstands.whole⟩
    · have hobserved : d'.observed = d.observed := by
        cases answer with
        | vault answer => exact hdoes'.2
        | observed answer => exact hdoes'.elim
      exact ⟨hkeys, hobserved ▸ hstands.observed, hstands.staged, hstands.whole⟩
  | observed op =>
    obtain ⟨answer, fs', hanswers, -⟩ := op.answers h.observed
      (h.observed.clear (Fs.not_dir_of_isDir h.staged))
    have hdisk : (⟨disk.fs, []⟩ : Disk) = disk := by rw [← hfaults]
    rw [hdisk] at hanswers
    have honSet := op.run_onSet hV h.observed
    unfold Observed.Op.run at hanswers honSet
    unfold DataOp.body at hstands ⊢
    rw [Disk.run_bind_ret] at hstands ⊢
    rw [hanswers] at hstands honSet ⊢
    obtain ⟨hright, hafter, -⟩ := honSet
    refine ⟨⟨d.keys, op.after d.observed⟩, ⟨hright, rfl, rfl⟩, ?_⟩
    rcases hstands with hstands | ⟨answer', d', hdoes', hstands⟩
    · exact ⟨hstands.keys, hafter, hstands.staged, hstands.whole⟩
    · have hkeys : d'.keys = d.keys := by
        rcases answer' with answer' | e | answer'
        · exact hdoes'.elim
        · exact hdoes'.elim
        · exact hdoes'.2.2
      exact ⟨hkeys ▸ hstands.keys, hafter, hstands.staged, hstands.whole⟩

end Stands

/-! ### What is asked of a directory -/

theorem listed_unique {m : KeyMap Addr} {l l' : List (StoredAccount Addr)} (h : m.Listed C l)
    (h' : m.Listed C l') : l = l' := by
  have hincreasing : ∀ {l : List (StoredAccount Addr)}, m.Listed C l →
      Increasing (fun account : StoredAccount Addr => C.addrText account.addr) l := by
    intro l h
    have hincreasing := h.1
    unfold Increasing at hincreasing ⊢
    rwa [List.pairwise_map] at hincreasing
  exact (hincreasing h).ext (hincreasing h') fun account => (h.2 account).trans (h'.2 account).symm

/-- An operation does one thing on a map. -/
theorem keys_does_unique {m m₁ m₂ : KeyMap Addr} {op : VaultOp Addr} {a₁ a₂ : VaultResult Addr}
    (h₁ : m.Does C op a₁ m₁) (h₂ : m.Does C op a₂ m₂) : a₁ = a₂ ∧ m₁ = m₂ := by
  cases op with
  | create key password seed =>
    dsimp only [KeyMap.Does] at h₁ h₂
    split_ifs at h₁ h₂ <;> exact ⟨h₁.1.trans h₂.1.symm, h₁.2.trans h₂.2.symm⟩
  | openKey addr password =>
    dsimp only [KeyMap.Does] at h₁ h₂
    obtain ⟨rfl, hanswer₁⟩ := h₁
    obtain ⟨rfl, hanswer₂⟩ := h₂
    refine ⟨?_, rfl⟩
    generalize Finmap.lookup addr _ = found at hanswer₁ hanswer₂
    rcases found with - | ⟨key, chosen⟩
    · exact hanswer₁.trans hanswer₂.symm
    · exact hanswer₁.trans hanswer₂.symm
  | forget addr =>
    dsimp only [KeyMap.Does] at h₁ h₂
    split_ifs at h₁ h₂ <;> exact ⟨h₁.1.trans h₂.1.symm, h₁.2.trans h₂.2.symm⟩
  | accounts =>
    obtain ⟨rfl, l₁, hl₁, rfl⟩ := h₁
    obtain ⟨rfl, l₂, hl₂, rfl⟩ := h₂
    rw [listed_unique hl₁ hl₂]
    exact ⟨rfl, rfl⟩

theorem Data.Does.unique {d d₁ d₂ : Data Addr} {op : DataOp Addr} {a₁ a₂ : DataAnswer Addr}
    (h₁ : d.Does C op a₁ d₁) (h₂ : d.Does C op a₂ d₂) : a₁ = a₂ ∧ d₁ = d₂ := by
  obtain ⟨keys₁, observed₁⟩ := d₁
  obtain ⟨keys₂, observed₂⟩ := d₂
  cases op with
  | vault op =>
    rcases a₁ with a₁ | a₁
    · rcases a₂ with a₂ | a₂
      · obtain ⟨rfl, hkeys⟩ := keys_does_unique h₁.1 h₂.1
        obtain rfl : keys₁ = keys₂ := hkeys
        obtain rfl : observed₁ = observed₂ := h₁.2.trans h₂.2.symm
        exact ⟨rfl, rfl⟩
      · exact h₂.elim
    · exact h₁.elim
  | observed op =>
    rcases a₁ with a₁ | e₁ | a₁
    · exact h₁.elim
    · exact h₁.elim
    rcases a₂ with a₂ | e₂ | a₂
    · exact h₂.elim
    · exact h₂.elim
    obtain rfl := right_unique h₁.1 h₂.1
    obtain rfl : observed₁ = observed₂ := h₁.2.1.trans h₂.2.1.symm
    obtain rfl : keys₁ = keys₂ := h₁.2.2.trans h₂.2.2.symm
    exact ⟨rfl, rfl⟩

/-- Directories that hold the same answer the same, whatever else is in them. -/
theorem Stands.answers_eq (hV : C.VaultLaws) {d : Data Addr} (h : Stands C fs d)
    (h' : Stands C fs' d) (ops : List (DataOp Addr)) :
    DataOp.answers C ops fs = DataOp.answers C ops fs' := by
  induction ops generalizing fs fs' d with
  | nil => rfl
  | cons op ops ih =>
    obtain ⟨d₁, hdoes, hstands⟩ := h.alone hV op
    obtain ⟨d₁', hdoes', hstands'⟩ := h'.alone hV op
    obtain ⟨hanswer, rfl⟩ := hdoes.unique hdoes'
    unfold DataOp.answers
    rw [hanswer, ih hstands hstands']

/-! ### A crash -/

theorem lost_unlocked (h : fs.Lost fs') : ({ fs with lock := none } : Fs).Lost fs' where
  free := h.free
  survives := h.survives

theorem stands_empty (hempty : ∀ name, fs.node name = none) (hfree : fs.lock = none) :
    Stands C fs ⟨∅, ∅⟩ where
  keys := represents_empty hempty hfree
  observed := .inl ⟨hempty _, rfl⟩
  staged := by simp [Fs.isDir, hempty]
  whole name file _ hfile := by
    rw [hempty] at hfile
    cases hfile

theorem Reachable.stands (hV : C.VaultLaws) (h : Reachable C fs) : ∃ d, Stands C fs d := by
  induction h with
  | empty hempty hfree => exact ⟨_, stands_empty hempty hfree⟩
  | run _ op ih =>
    obtain ⟨d, hstands⟩ := ih
    rcases hstands.run hV op with hbefore | ⟨-, d', -, hafter⟩
    · exact ⟨d, hbefore⟩
    · exact ⟨d', hafter⟩
  | crash _ hcrash ih =>
    obtain ⟨d, hstands⟩ := ih
    obtain ⟨fs₁, hpartway, hlost⟩ := hcrash
    rcases hstands.partway hV _ hpartway with hbefore | ⟨-, d', -, hafter⟩
    · exact ⟨d, hbefore.lost (lost_unlocked hlost)⟩
    · exact ⟨d', hafter.lost (lost_unlocked hlost)⟩

/-- Wherever the machine goes down in the middle of an operation, everything asked of the directory
from then on, that operation again included, is answered as if it had not been started, or as if it
had been completed; and under the names the app reads there are only files synced whole.  It rests
on a rename or a removal, once made, being there after the crash. -/
theorem crash_is_atomic (hV : C.VaultLaws) (h : Reachable C fs) {op : DataOp Addr}
    (hcrash : op.Crash C fs fs') :
    ((∀ ops, DataOp.answers C ops fs' = DataOp.answers C ops fs) ∨
      ∀ ops, DataOp.answers C ops fs' = DataOp.answers C ops (op.alone C fs).2) ∧
    ∀ name file, Real C name → fs'.node name = some (.file file) → file.synced = true := by
  obtain ⟨d, hstands⟩ := h.stands hV
  obtain ⟨fs₁, hpartway, hlost⟩ := hcrash
  rcases hstands.partway hV op hpartway with hbefore | ⟨answer, d', hdoes, hafter⟩
  · have hleft := hbefore.lost (lost_unlocked hlost)
    exact ⟨.inl (hleft.answers_eq hV hstands), hleft.whole⟩
  · have hleft := hafter.lost (lost_unlocked hlost)
    obtain ⟨d'', hdoes', hdone⟩ := hstands.alone hV op
    obtain ⟨-, rfl⟩ := hdoes.unique hdoes'
    exact ⟨.inr (hleft.answers_eq hV hdone), hleft.whole⟩

/-- A disk on which a program was stopped after so many calls. -/
def stopped {α : Type} : ℕ → Prog fsSig α → Disk → Disk
  | n + 1, .call c k, disk => stopped n (k (disk.exec c).1) (disk.exec c).2
  | _, _, disk => disk

theorem stopped_partway {α : Type} (n : ℕ) (p : Prog fsSig α) (disk : Disk) :
    p.Partway (S := fsSig) (Fs.Step 0) disk.fs (stopped n p disk).fs := by
  induction n generalizing p disk with
  | zero => exact .here _ _
  | succ n ih =>
    cases p with
    | ret a => exact .here _ _
    | call c k => exact .call (disk.exec_step c) (ih _ _)

/-- It can be that nothing was lost. -/
theorem survives_refl (node : Option Node) : Node.Survives node node := by
  rcases node with - | (⟨content, - | -⟩ | staged)
  · exact .nothing
  · exact .torn content _
  · exact .synced content
  · exact .stage staged staged

/-- The machine goes down while the first key is written beside its place. -/
theorem crash_is_atomic_torn :
    let op := DataOp.vault (.create (Reference.someKey 1) none 0)
    let faults := List.replicate 5 none ++ [some ⟨5, some (.text .other)⟩]
    let fs := { (stopped 6 (op.body Crates.reference) ⟨Fs.empty, faults⟩).fs with lock := none }
    (fs.staged (stageName Crates.reference ⟨(Reference.someKey 1).bytes⟩)).isSome = true ∧
      ((∀ ops, DataOp.answers Crates.reference ops fs =
          DataOp.answers Crates.reference ops Fs.empty) ∨
        ∀ ops, DataOp.answers Crates.reference ops fs =
          DataOp.answers Crates.reference ops (op.alone Crates.reference Fs.empty).2) ∧
      ∀ name file, Real Crates.reference name → fs.node name = some (.file file) →
        file.synced = true := by
  intro op faults fs
  have hcrash : op.Crash Crates.reference Fs.empty fs :=
    ⟨_, stopped_partway 6 (op.body Crates.reference) ⟨Fs.empty, faults⟩,
      ⟨rfl, fun name => survives_refl _⟩⟩
  exact ⟨by decide +kernel,
    crash_is_atomic Reference.vaultLaws (.empty (fun _ => rfl) rfl) hcrash⟩

end AccountLogUi.DataDir
