import AccountLogUi.Manager.Equiv.Interference

/-!
# An account that is held, and a list that cannot be read

Two apps whose directories differ in nothing but the list of observed accounts are alike for every
account, as far as the list goes.  While the key of an account is held no call about it asks for the
list, so the two answer the same, up to the call that forgets it (`broken_list_takes_nothing`).
-/

namespace AccountLogUi

open Manager Vault Observed

variable {Addr : Type} {C : Crates Addr} {addr : Addr} {w w' : World Addr}

/-- The world, with another directory. -/
def World.withFs (w : World Addr) (fs : Fs) : World Addr := { w with disk := ⟨fs, w.disk.faults⟩ }

/-- An operation names one account at most. -/
theorem CoreOp.Concerns.unique {op : CoreOp Addr} {other : Addr} (h : op.Concerns C addr)
    (h' : op.Concerns C other) : other = addr := by
  cases op with
  | importAccount secretHex password seed =>
    obtain ⟨key, hkey, rfl⟩ := h
    obtain ⟨key', hkey', rfl⟩ := h'
    rw [hkey] at hkey'
    rw [Except.ok.inj hkey']
  | accounts => exact h.elim
  | _ => exact h'.symm.trans h

/-- Directories that differ in the list alone are alike, as far as the list goes. -/
theorem alike_of_list (hV : C.VaultLaws) {fs fs' : Fs}
    (h : fs'.erase observedFile = fs.erase observedFile) : AlikeFor C addr fs fs' := by
  have hnode : ∀ name, name ≠ observedFile → fs'.node name = fs.node name := by
    intro name hname
    have hsame := congrArg (·.node name) h
    rwa [Fs.node_erase, Fs.node_erase, if_neg hname, if_neg hname] at hsame
  have hentries : entries C fs' = entries C fs := by
    have haside := accountOf_observedFile (C := C) hV
    have herased : entries C (fs'.erase observedFile) = entries C fs' := entries_erase_other haside
    rw [← herased, h, entries_erase_other haside]
  have hlock : (fs'.erase observedFile).lock = (fs.erase observedFile).lock := by rw [h]
  refine ⟨⟨?_, ?_, .inl hentries⟩, hlock, fun p => ?_, ?_⟩
  · exact Fs.isDir_congr (hnode _ lockFile_ne_observedFile)
  · exact Fs.isDir_congr (hnode _ observedFile_ne_stagedFile.symm)
  · exact hnode _ (pathOf_ne_observedFile hV addr p)
  · exact hnode _ (stageName_ne_observedFile C addr)

/-- Where no call but the last forgets the account, nothing follows one that does. -/
theorem nothing_after_last (calls : List (Call Addr)) {last : Call Addr}
    (h : ∀ call ∈ calls, call.op ≠ .forgetAccount addr) {earlier : List (Call Addr)}
    {call : Call Addr} {later : List (Call Addr)}
    (heq : calls ++ [last] = earlier ++ call :: later) (hforgets : call.op = .forgetAccount addr) :
    later = [] := by
  rcases List.eq_nil_or_concat later with hnil | ⟨between, x, rfl⟩
  · exact hnil
  · have hconcat : calls ++ [last] = (earlier ++ call :: between) ++ [x] := by
      rw [heq, List.concat_eq_append, List.append_assoc, List.cons_append]
    have hcalls : calls = earlier ++ call :: between := (List.append_inj' hconcat rfl).1
    exact absurd hforgets (h call (hcalls ▸ by simp))

variable [DecidableEq Addr]

/-- An account held stays held until a call that forgets it goes through. -/
theorem CoreOp.present (hV : C.VaultLaws) (hA : C.AccountLaws) (hwritten : w.core.written = none)
    {op : CoreOp Addr} (hpresent : Present C w.disk.fs addr)
    (hforget : op = .forgetAccount addr → ∀ answer, (op.run C w).1 ≠ .ok answer) :
    Present C (op.run C w).2.disk.fs addr := by
  by_cases hop : op = .forgetAccount addr
  · subst hop
    generalize hrun : (CoreOp.forgetAccount addr).run C w = ran at hforget ⊢
    obtain ⟨r, w'⟩ := ran
    obtain ⟨r', h, hr⟩ := Action.on_map_cases (f := fun _ => CoreAnswer.done) hrun
    rcases r' with e | u
    · exact (forgetAccount_error hV h).data.files.present.mpr hpresent
    · exact absurd hr (hforget rfl _)
  · exact (CoreOp.data hV hA hwritten rfl).present hop hpresent

/-- The app's own state, the vault's files and the logs held are the same. -/
structure SameLeft (C : Crates Addr) (w w' : World Addr) : Prop where
  core : w'.core = w.core
  files : SameFiles C w.disk.fs w'.disk.fs
  store : SameStore w w'

/-- Worlds alike for every account, as far as the list goes. -/
theorem sameLeft_of_alike (h : ∀ addr, Alike C addr ⟨true, none⟩ w w') (addr : Addr) :
    SameLeft C w w' where
  core := by
    have hresolver : w'.core.resolver = w.core.resolver := by
      funext addr
      refine (h addr).core.resolver.resolve_right ?_
      rintro ⟨record, hnone, -⟩
      cases hnone
    have hread : w'.core.read = w.core.read := funext fun addr => (h addr).core.read
    have hstaged : w'.core.staged = w.core.staged := funext fun addr => (h addr).core.staged
    have hdropped : w'.core.dropped = w.core.dropped := funext fun addr => (h addr).core.dropped
    have hunlocked : w'.core.unlocked = w.core.unlocked := funext fun addr => (h addr).core.unlocked
    have hwritten : w'.core.written = w.core.written := (h addr).core.written
    generalize w'.core = core' at hresolver hread hstaged hdropped hunlocked hwritten ⊢
    obtain ⟨resolver, written, read, staged, dropped, unlocked⟩ := core'
    dsimp only at hresolver hread hstaged hdropped hunlocked hwritten
    rw [hresolver, hread, hstaged, hdropped, hunlocked, hwritten]
  files addr p := (h addr).fs.files.own p
  store addr := (h addr).held

/-- The same calls about an account that is held, made in worlds alike for every account as far as
the list goes. -/
theorem answers_alike (hV : C.VaultLaws) (hL : C.LogLaws) (hA : C.AccountLaws)
    (halike : ∀ other, Alike C other ⟨true, none⟩ w w') (hw : Reachable C w) (hw' : Reachable C w')
    {calls : List (Call Addr)} (hpresent : calls ≠ [] → Present C w.disk.fs addr)
    (hcalls : ∀ call ∈ calls, call.op.Concerns C addr ∧ ¬call.op.AsksLists)
    (hforget : ∀ earlier call later, calls = earlier ++ call :: later →
      call.op = .forgetAccount addr → (∃ answer, (call.run C (w.after C earlier)).1 = .ok answer) →
      later = []) :
    w'.answers C calls = w.answers C calls ∧
      ∀ other, Alike C other ⟨true, none⟩ (w.after C calls) (w'.after C calls) := by
  have hnone : ∀ {P : AccountRecord → Prop},
      ∀ record ∈ (⟨true, none⟩ : Leeway).kept, P record := by
    intro P record hkept
    cases hkept
  induction calls generalizing w w' with
  | nil => exact ⟨rfl, halike⟩
  | cons call calls ih =>
    obtain ⟨⟨hop, hasks⟩, hcalls⟩ := List.forall_mem_cons.mp hcalls
    have hguard : Guarded C addr ⟨true, none⟩ w := .inr (hpresent (List.cons_ne_nil _ _))
    have hanswer := (halike addr).answer_eq hV hL hA hnone call hop hguard
      (fun h => absurd h hasks) hnone
    have hnext : ∀ other, Alike C other ⟨true, none⟩ (call.run C w).2 (call.run C w').2 := by
      intro other
      refine (halike other).call hV hL hA hnone hw hw' call fun hother => ?_
      rw [hop.unique hother]
      exact ⟨hguard, fun h => absurd h hasks, hnone⟩
    -- The account is held until a call forgets it, and none follows that.
    have hpresent' : calls ≠ [] → Present C (call.run C w).2.disk.fs addr := by
      intro hne
      refine CoreOp.present hV hA ((hw.under _).written_eq hV hA)
        (hpresent (List.cons_ne_nil _ _)) ?_
      intro hforgets answer hok
      exact hne (hforget [] call calls rfl hforgets ⟨answer, hok⟩)
    obtain ⟨hanswers, hafter⟩ := ih hnext (.op call.op (hw.under _)) (.op call.op (hw'.under _))
      hpresent' hcalls fun earlier call' later heq =>
        hforget (call :: earlier) call' later (congrArg (call :: ·) heq)
    refine ⟨?_, hafter⟩
    unfold World.answers
    rw [hanswer, hanswers]

/-- Two apps whose directories differ in the list of observed accounts alone answer the same to the
same calls about an account that is held, and are left with the same, up to the call that forgets
it. -/
theorem broken_list_takes_nothing (hV : C.VaultLaws) (hL : C.LogLaws) (hA : C.AccountLaws)
    (h : Reachable C w) (hpresent : Present C w.disk.fs addr) {fs' : Fs}
    (hlist : fs'.erase observedFile = w.disk.fs.erase observedFile) (calls : List (Call Addr))
    (hcalls : ∀ call ∈ calls, call.op.Concerns C addr ∧ ¬call.op.AsksLists)
    (hforget : ∀ earlier call later, calls = earlier ++ call :: later →
      call.op = .forgetAccount addr → (∃ answer, (call.run C (w.after C earlier)).1 = .ok answer) →
      later = []) :
    (w.withFs fs').answers C calls = w.answers C calls ∧
      SameLeft C (w.after C calls) ((w.withFs fs').after C calls) := by
  have hsound := h.sound hV hL hA
  have hstart : ∀ other, Alike C other ⟨true, none⟩ w (w.withFs fs') := fun other => {
    fs := ⟨alike_of_list hV hlist, fun hk => by cases hk⟩
    core := ⟨rfl, rfl, rfl, rfl, rfl, .inl rfl, hsound.unlocked other⟩
    kind := rfl
    held := rfl
    appended := fun record hkept => by cases hkept }
  obtain ⟨hanswers, hafter⟩ := answers_alike hV hL hA hstart h (.elsewhere h rfl)
    (fun _ => hpresent) hcalls hforget
  exact ⟨hanswers, sameLeft_of_alike hafter addr⟩

/-- A list that is none is nothing to an account that is opened, renamed and forgotten. -/
theorem broken_list_takes_nothing_garbled :
    let weather : Weather Reference.Addr := ⟨[], [], 0, []⟩
    let key := Reference.someKey 1
    let calls : List (Call Reference.Addr) := [⟨.state ⟨key.bytes⟩, weather⟩,
      ⟨.unlock ⟨key.bytes⟩ "pw", weather⟩, ⟨.stageSetDisplayName ⟨key.bytes⟩ "Saro", weather⟩,
      ⟨.forgetAccount ⟨key.bytes⟩, weather⟩]
    let broken := twoAccounts.withFs
      (twoAccounts.disk.fs.insert observedFile (.file ⟨.text .other, true⟩))
    broken.answers Crates.reference calls = twoAccounts.answers Crates.reference calls ∧
      SameLeft Crates.reference (twoAccounts.after Crates.reference calls)
        (broken.after Crates.reference calls) := by
  intro weather key calls broken
  have hreachable : Reachable Crates.reference twoAccounts := Reachable.runs (.fresh rfl) _
  have hpresent : Present Crates.reference twoAccounts.disk.fs ⟨key.bytes⟩ :=
    ⟨true, by decide +kernel⟩
  refine broken_list_takes_nothing Reference.vaultLaws Reference.logLaws Reference.accountLaws
    hreachable hpresent (Fs.erase_insert _ _ _) calls ?_ ?_
  · simp [calls, CoreOp.Concerns, CoreOp.AsksLists]
  · exact fun earlier call later heq hforgets _ => nothing_after_last
      (calls.take 3) (by simp [calls]) heq hforgets

end AccountLogUi
