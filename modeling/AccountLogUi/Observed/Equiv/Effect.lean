import AccountLogUi.Observed.Protocol

/-!
# What a change does to the observed list

`Change.keeps` says the two changes keep to their protocol.  `Effect` says what a change, come as
far as it has, did to the directory it started in: nothing but to the staged document until the
rename, and after it the list is the one read with the change made.  `change_run` is what a change
answers and leaves on a disk where any call may fail.
-/

namespace AccountLogUi.Observed

variable {Addr : Type} [DecidableEq Addr] {C : Crates Addr}

/-! ### Keeping to the protocol -/

theorem list_readOnly : (list C).ReadOnly := by
  refine ⟨.inr ⟨observedFile, rfl⟩, fun r => ?_⟩
  rcases r with e | text
  · cases e <;> trivial
  · trivial

theorem keeps_write {g : Rewriting Addr} {observed : List Addr} (hread : g.read = some observed)
    (hneeded : g.change.needed observed = true) (hrenamed : g.renamed = false) :
    (write C (g.change.apply observed)).run.Keeps (protocol C) (fun res g' =>
      g'.change = g.change ∧
        (res = .ok () ∧ g'.renamed = true ∨ (∃ e, res = .error e) ∧ g'.renamed = false)) g := by
  have hfail : ∀ (e : ObservedError) (g' : Rewriting Addr), g'.change = g.change →
      g'.renamed = false → g'.change = g.change ∧
        ((Except.error e : Except ObservedError Unit) = .ok () ∧ g'.renamed = true ∨
          (∃ e', (Except.error e : Except ObservedError Unit) = .error e') ∧ g'.renamed = false) :=
    fun e g' hc hr => ⟨hc, .inr ⟨⟨e, rfl⟩, hr⟩⟩
  unfold write
  refine ⟨trivial, fun r => ?_⟩
  rcases r with e | v
  · exact hfail _ g rfl hrenamed
  refine ⟨trivial, fun r => ?_⟩
  rcases r with e | v
  · exact hfail _ g rfl hrenamed
  refine ⟨⟨rfl, hrenamed, observed, hread, hneeded, rfl⟩, fun r => ?_⟩
  rcases r with e | v
  · exact hfail _ _ rfl hrenamed
  refine ⟨trivial, fun r => ?_⟩
  rcases r with e | v
  · exact hfail _ _ rfl hrenamed
  refine ⟨rfl, fun r => ?_⟩
  rcases r with e | v
  · exact hfail _ _ rfl hrenamed
  refine ⟨⟨rfl, rfl, rfl, ?_⟩, fun r => ?_⟩
  · simp [protocol, Rewriting.next, Except.isOk, Except.toBool]
  rcases r with e | v
  · exact hfail _ _ rfl hrenamed
  exact ⟨trivial, fun r => ⟨rfl, .inl ⟨rfl, rfl⟩⟩⟩

/-- A list that was read is the one the program goes on with. -/
theorem keeps_list {g : Rewriting Addr} (hrenamed : g.renamed = false)
    {post : Except ObservedError (List Addr) → Rewriting Addr → Prop}
    (herr : ∀ e g', g'.change = g.change → g'.renamed = false → post (.error e) g')
    (hok : ∀ observed g', g'.change = g.change → g'.renamed = false →
      g'.read = some observed → post (.ok observed) g') :
    (list C).run.Keeps (protocol C) post g := by
  refine ⟨rfl, fun r => ?_⟩
  rcases r with e | text
  · rcases e with - | - | - | - | code
    · exact hok [] _ rfl hrenamed rfl
    all_goals exact herr _ g rfl hrenamed
  · show (Prog.ret (ofText C text)).Keeps (protocol C) post _
    cases htext : ofText C text with
    | error e => exact herr e _ rfl hrenamed
    | ok observed =>
      refine hok observed _ rfl hrenamed ?_
      show (ofText C text).toOption = some observed
      rw [htext]
      rfl

/-- Both changes read the list, and write it where there is something to change. -/
theorem Change.body_eq (change : Change Addr) : change.body C = (do
    let observed ← list C
    if change.needed observed = true then do
      write C (change.apply observed)
      return true
    else return false) := by
  cases change with
  | add addr =>
    refine congrArg (list C >>= ·) (funext fun observed => ?_)
    by_cases hmem : addr ∈ observed
    · rw [if_pos (by simpa using hmem), if_neg (by simpa [needed] using hmem)]
    · rw [if_neg (by simpa using hmem), if_pos (by simpa [needed] using hmem)]
      rfl
  | remove addr =>
    refine congrArg (list C >>= ·) (funext fun observed => ?_)
    have hlen : (observed.filter (· ≠ addr)).length = observed.length ↔ addr ∉ observed := by
      rw [List.length_filter_eq_length_iff]
      constructor
      · intro hall hmem
        simpa using hall addr hmem
      · rintro hmem other hother
        simpa using fun heq : other = addr => hmem (heq ▸ hother)
    dsimp only
    by_cases hmem : addr ∈ observed
    · rw [if_neg (fun h => hlen.mp h hmem), if_pos (by simpa [needed] using hmem)]
      rfl
    · rw [if_pos (hlen.mpr hmem), if_neg (by simpa [needed] using hmem)]

theorem Change.keeps (change : Change Addr) :
    (change.body C).run.Keeps (protocol C) (fun res g => g.change = change ∧ Finished g res)
      { change } := by
  rw [Change.body_eq]
  refine (FsM.keeps_bind _ _ _).mpr (keeps_list rfl (fun e g hc hr => ⟨hc, hr⟩) ?_)
  rintro observed g hchange hrenamed hread
  obtain rfl : g.change = change := hchange
  dsimp only
  split
  · next hneeded =>
    refine (FsM.keeps_bind _ _ _).mpr ((keeps_write hread hneeded hrenamed).mono ?_)
    rintro res g' ⟨hchange, ⟨rfl, hr⟩ | ⟨⟨e, rfl⟩, hr⟩⟩
    · exact ⟨hchange, hr⟩
    · exact ⟨hchange, hr⟩
  · next hneeded => exact ⟨rfl, hrenamed, observed, hread, by simpa using hneeded⟩

/-! ### What it does -/

/-- What reading the list answers. -/
def Lists (C : Crates Addr) (fs : Fs) (observed : List Addr) : Prop :=
  fs.node observedFile = none ∧ observed = [] ∨
    ∃ text synced, fs.node observedFile = some (.file ⟨.text text, synced⟩) ∧
      ofText C text = .ok observed

/-- What a change that started in `fs₀`, come as far as `g`, has done. -/
structure Effect (C : Crates Addr) (fs₀ : Fs) (g : Rewriting Addr) (fs : Fs) : Prop where
  /-- What it read is what the list was. -/
  read : g.renamed = false → ∀ observed, g.read = some observed → Lists C fs₀ observed
  /-- The document it has beside the list is the one it wrote, synced once it synced it. -/
  waiting : g.staged = true → ∃ observed synced, Lists C fs₀ observed ∧
    g.change.needed observed = true ∧
    fs.node stagedFile = some (.file ⟨contentOf C (g.change.apply observed), synced⟩) ∧
    (g.synced = true → synced = true)
  untouched : g.renamed = false → fs.node observedFile = fs₀.node observedFile
  renamed : g.renamed = true → ∃ observed, Lists C fs₀ observed ∧
    g.change.needed observed = true ∧
    fs.node observedFile = some (.file ⟨contentOf C (g.change.apply observed), true⟩)
  other : ∀ name, name ≠ observedFile → name ≠ stagedFile → fs.node name = fs₀.node name

theorem Effect.refl (fs : Fs) (change : Change Addr) : Effect C fs { change } fs where
  read _ _ h := by cases h
  waiting h := by cases h
  untouched _ := rfl
  renamed h := by cases h
  other _ _ _ := rfl

theorem observedFile_ne_stagedFile : observedFile ≠ stagedFile := by decide

/-- One call. -/
theorem Effect.step {fs₀ fs fs' : Fs} {g : Rewriting Addr} {i : ℕ} {c : FsCall}
    {r : Except IoError c.Value} (h : Effect C fs₀ g fs) (hallowed : Rewriting.allowed C g c)
    (hstep : fs.Step i c r fs') : Effect C fs₀ (Rewriting.next C g c r) fs' := by
  -- A call that changes no file.
  have hstill : fs' = fs ∨ c.changes = [] → ∀ g', g'.change = g.change → g'.staged = g.staged →
      g'.synced = g.synced → g'.renamed = g.renamed →
      (g'.renamed = false → ∀ observed, g'.read = some observed → Lists C fs₀ observed) →
      Effect C fs₀ g' fs' := by
    intro hfs g' hchange hstaged hsynced hrenamed hread
    have hnode : ∀ name, fs'.node name = fs.node name := by
      intro name
      rcases hfs with rfl | hnil
      · rfl
      · exact hstep.node_eq (by simp [hnil])
    refine ⟨hread, ?_, ?_, ?_, fun name h₁ h₂ => (hnode name).trans (h.other name h₁ h₂)⟩
    · rw [hstaged, hchange, hnode, hsynced]
      exact h.waiting
    · rw [hrenamed, hnode]
      exact h.untouched
    · rw [hrenamed, hchange, hnode]
      exact h.renamed
  cases c
  case readToString name =>
    obtain rfl : name = observedFile := hallowed
    rcases r with e | text
    · have hfs := hstep.error_eq (by simp) (by simp)
      rcases e with - | - | - | - | code
      · refine hstill (.inl hfs) _ rfl rfl rfl rfl fun hrenamed observed hread => .inl ?_
        cases hread
        exact ⟨(h.untouched hrenamed).symm.trans hstep.readToString_notFound, rfl⟩
      all_goals exact hstill (.inl hfs) _ rfl rfl rfl rfl h.read
    · obtain ⟨hfs, synced, hnode⟩ := hstep.readToString_ok
      refine hstill (.inl hfs) _ rfl rfl rfl rfl fun hrenamed observed hread => .inr ?_
      refine ⟨text, synced, (h.untouched hrenamed).symm.trans hnode, ?_⟩
      have hread' : (ofText C text).toOption = some observed := hread
      cases htext : ofText C text with
      | error e =>
        rw [htext] at hread'
        cases hread'
      | ok observed' =>
        rw [htext] at hread'
        cases hread'
        rfl
  case createDirAll => exact hstill (.inr rfl) _ rfl rfl rfl rfl h.read
  case setMode => exact hstill (.inr rfl) _ rfl rfl rfl rfl h.read
  case syncDir => exact hstill (.inr rfl) _ rfl rfl rfl rfl h.read
  case write path content =>
    obtain ⟨rfl, hrenamed, observed, hread, hneeded, rfl⟩ := hallowed
    have hnode : ∀ name, name ≠ stagedFile → fs'.node name = fs.node name := fun name hne =>
      hstep.node_eq (by simpa [FsCall.changes, Path.name] using hne)
    -- What waits to be renamed is the list that was read with the change made.
    refine ⟨h.read, fun hstaged => ?_, fun hr => ?_, fun hr => ?_, fun name h₁ h₂ => ?_⟩
    · rcases r with e | v
      · cases hstaged
      · exact ⟨observed, false, h.read hrenamed observed hread, hneeded, hstep.write_top_ok,
          fun h => by cases h⟩
    · exact (hnode _ observedFile_ne_stagedFile).trans (h.untouched hr)
    · exact absurd (hrenamed.symm.trans hr) (by simp)
    · exact (hnode name h₂).trans (h.other name h₁ h₂)
  case syncAll path =>
    obtain rfl : path = .top stagedFile := hallowed
    rcases r with e | v
    · refine hstill (.inl (hstep.error_eq (by simp) (by simp))) _ rfl rfl ?_ rfl h.read
      simp [Rewriting.next, Except.isOk, Except.toBool]
    · have hnode : ∀ name, name ≠ stagedFile → fs'.node name = fs.node name := fun name hne =>
        hstep.node_eq (by simpa [FsCall.changes, Path.name] using hne)
      refine ⟨h.read, fun hstaged => ?_, fun hr => ?_, fun hr => ?_, fun name h₁ h₂ => ?_⟩
      · obtain ⟨observed, synced, hlists, hneeded, hfile, -⟩ := h.waiting hstaged
        obtain ⟨file, hfile', hnew⟩ := hstep.syncAll_top_ok
        rw [hfile] at hfile'
        cases hfile'
        exact ⟨observed, true, hlists, hneeded, hnew, fun _ => rfl⟩
      · exact (hnode _ observedFile_ne_stagedFile).trans (h.untouched hr)
      · obtain ⟨observed, hlists, hneeded, hfile⟩ := h.renamed hr
        exact ⟨observed, hlists, hneeded, (hnode _ observedFile_ne_stagedFile).trans hfile⟩
      · exact (hnode name h₂).trans (h.other name h₁ h₂)
  case rename src dest =>
    obtain ⟨rfl, rfl, hstaged, hsynced⟩ := hallowed
    rcases r with e | v
    · exact hstill (.inl (hstep.error_eq (by simp) (by simp))) g rfl rfl rfl rfl h.read
    -- It takes the place of the list that was read.
    · obtain ⟨observed, synced, hlists, hneeded, hfile, hsync⟩ := h.waiting hstaged
      obtain rfl : synced = true := hsync hsynced
      obtain ⟨file, hfile', hnew⟩ := hstep.rename_top_ok
      rw [hfile] at hfile'
      cases hfile'
      refine ⟨fun hr => ?_, fun hs => ?_, fun hr => ?_, fun _ => ⟨observed, hlists, hneeded, hnew⟩,
        fun name h₁ h₂ => ?_⟩
      · cases hr
      · cases hs
      · cases hr
      · refine Eq.trans ?_ (h.other name h₁ h₂)
        exact hstep.node_eq (by simp [FsCall.changes, Path.name, h₁, h₂])
  all_goals exact hallowed.elim

/-! ### On a disk -/

/-- What a change answers and leaves: where it answers `true` the list is the one it read with the
change made, and otherwise it is what it was. -/
theorem change_run (change : Change Addr) (disk : Disk) :
    (∀ name, name ≠ observedFile → name ≠ stagedFile →
        (disk.run (change.body C).run).2.fs.node name = disk.fs.node name) ∧
      match (disk.run (change.body C).run).1 with
      | .ok true => ∃ observed, Lists C disk.fs observed ∧ change.needed observed = true ∧
        (disk.run (change.body C).run).2.fs.node observedFile =
          some (.file ⟨contentOf C (change.apply observed), true⟩)
      | .ok false => (∃ observed, Lists C disk.fs observed ∧ change.needed observed = false) ∧
        (disk.run (change.body C).run).2.fs.node observedFile = disk.fs.node observedFile
      | .error _ =>
        (disk.run (change.body C).run).2.fs.node observedFile = disk.fs.node observedFile := by
  obtain ⟨g, heffect, hchange, hres⟩ := Disk.run_keeps (J := fun fs g => Effect C disk.fs g fs)
    (fun fs g c r fs' hJ hallowed hstep => hJ.step hallowed hstep) (Change.keeps change)
    (.refl disk.fs _)
  refine ⟨heffect.other, ?_⟩
  subst hchange
  generalize (disk.run (g.change.body C).run).1 = res at hres
  rcases res with e | _ | _
  · exact heffect.untouched hres
  · obtain ⟨hrenamed, observed, hread, hneeded⟩ := hres
    exact ⟨⟨observed, heffect.read hrenamed observed hread, hneeded⟩, heffect.untouched hrenamed⟩
  · exact heffect.renamed hres

/-- What reading the list answers, by what reading its file does. -/
theorem list_run_eq (disk : Disk) : (disk.run (list C).run).1 =
    match (disk.exec (.readToString observedFile)).1 with
    | .error .notFound => .ok []
    | .error e => .error (.io e)
    | .ok text => ofText C text := by
  unfold Disk.run list
  rw [ExceptT.run_mk, Prog.run_call]
  rcases (disk.exec (.readToString observedFile)).1 with e | text
  · cases e <;> rfl
  · rfl

/-- What reading the list answers, when it answers. -/
theorem list_run {disk : Disk} {observed : List Addr}
    (h : (disk.run (list C).run).1 = .ok observed) : Lists C disk.fs observed := by
  have hstep := disk.exec_step (.readToString observedFile)
  rw [list_run_eq] at h
  generalize (disk.exec (.readToString observedFile)).1 = answer at h hstep
  rcases answer with e | text
  · rcases e with - | - | - | - | code <;> cases h
    exact .inl ⟨hstep.readToString_notFound, rfl⟩
  · obtain ⟨-, synced, hnode⟩ := hstep.readToString_ok
    exact .inr ⟨text, synced, hnode, h⟩

end AccountLogUi.Observed
