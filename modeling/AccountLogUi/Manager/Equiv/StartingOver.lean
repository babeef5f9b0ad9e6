import AccountLogUi.Manager.Equiv.Agreeing
import AccountLogUi.Manager.Equiv.Interference
import AccountLogUi.Manager.Equiv.Unknown

/-!
# Starting over

Once an account is forgotten, or no longer observed, all that the app has of it is a record in the
resolver, which nothing shows (`Blank`).  So the app is alike to one just started
(`Blank.alike`), whatever is done with the account next, as long as the log only grows
(`forgotten_account_starts_over`).

To stop observing leaves what is staged and unlocked, which an account that is not held has none
of (`Untaken.homed`), unless its key was taken away by another app
(`edits_outlive_an_account_stopped`).
-/

namespace AccountLogUi

open Manager Vault Observed

variable {Addr : Type} {C : Crates Addr} {w w' : World Addr} {addr : Addr}

/-! ### An app just started -/

/-- An app just started, on the same directory and the same store. -/
def World.restarted (w : World Addr) : World Addr := { w with core := .new }

/-- Nothing of the account is left but what the resolver holds. -/
structure Blank (core : AccountCore Addr) (addr : Addr) : Prop where
  read : core.read addr = none
  staged : core.staged addr = none
  dropped : core.dropped addr = none
  unlocked : core.unlocked addr = none

/-- The pane shows an account no read of which has landed, and nothing staged. -/
structure Unread (shown : AccountState) : Prop where
  resolved : shown.resolved = false
  readAtMs : shown.readAtMs = none
  problem : shown.problem = none
  published : shown.published = false
  displayName : shown.displayName = none
  previousNames : shown.previousNames = []
  installations : shown.installations = []
  entries : shown.entries = []
  pending : shown.pending = []
  /-- No key of the account is unlocked. -/
  locked : shown.locked = shown.protected_

theorem Blank.answered {core : AccountCore Addr} (h : Blank core addr) :
    core.answered addr = false := by
  unfold AccountCore.answered AccountCore.readAt
  rw [h.read]
  rfl

theorem Blank.record {core : AccountCore Addr} (h : Blank core addr) : core.record addr = none := by
  unfold AccountCore.record
  rw [h.answered]
  cases core.resolver addr <;> rfl

theorem Blank.unread {core : AccountCore Addr} (h : Blank core addr)
    (held : Option (StoredAccount Addr)) : Unread (stateOf C core addr held) := by
  have hpending : core.plannedEntries addr = [] := by
    unfold AccountCore.plannedEntries
    rw [h.staged]
    rfl
  unfold stateOf AccountCore.readAt AccountCore.problem
  rw [h.record, h.answered, h.read, h.unlocked, hpending]
  refine ⟨rfl, rfl, rfl, rfl, rfl, rfl, rfl, rfl, rfl, ?_⟩
  exact Bool.and_true _

variable [DecidableEq Addr]

/-- An app with nothing of the account left but a record is alike to one just started. -/
theorem Blank.alike (hV : C.VaultLaws) (hL : C.LogLaws) (hA : C.AccountLaws)
    (h : Reachable C w) (hblank : Blank w.core addr)
    (happended : ∀ record ∈ w.core.resolver addr, w.store.turns = none →
      w.store.Appends addr record) :
    Alike C addr ⟨false, w.core.resolver addr⟩ w w.restarted where
  fs := ⟨.refl _, fun _ => .refl _⟩
  core := {
    read := hblank.read.symm
    staged := hblank.staged.symm
    dropped := hblank.dropped.symm
    unlocked := hblank.unlocked.symm
    written := (h.written_eq hV hA).symm
    resolver := by
      rcases hrecord : w.core.resolver addr with - | record
      · exact .inl rfl
      · exact .inr ⟨record, rfl, hrecord, rfl, hblank.answered, h.written_eq hV hA,
          hA.verify_decode ((h.sound hV hL hA).resolver addr record hrecord)⟩
    own := fun key hkey => by
      rw [hblank.unlocked] at hkey
      cases hkey }
  kind := rfl
  held := rfl
  appended := happended

/-! ### A key taken away -/

/-- The worlds a run of one app comes to where no one else takes the account's key away. -/
inductive Untaken (C : Crates Addr) (addr : Addr) : World Addr → Prop
  | fresh {w : World Addr} (hcore : w.core = .new) : Untaken C addr w
  | elsewhere {w w' : World Addr} (h : Untaken C addr w) (hcore : w'.core = w.core)
      (hkept : Present C w.disk.fs addr → Present C w'.disk.fs addr) : Untaken C addr w'
  | op {w : World Addr} (op : CoreOp Addr) (h : Untaken C addr w) : Untaken C addr (op.run C w).2

theorem Untaken.reachable (h : Untaken C addr w) : Reachable C w := by
  induction h with
  | fresh hcore => exact .fresh hcore
  | elsewhere _ hcore _ ih => exact .elsewhere ih hcore
  | op op _ ih => exact .op op ih

theorem Untaken.homed (hV : C.VaultLaws) (hL : C.LogLaws) (hA : C.AccountLaws)
    (h : Untaken C addr w) : HomedAt C w addr := by
  induction h with
  | fresh hcore =>
    intro _
    rw [hcore]
    exact ⟨rfl, rfl⟩
  | elsewhere _ hcore hkept ih =>
    intro habsent
    rw [hcore]
    exact ih fun hpresent => habsent (hkept hpresent)
  | op op h ih => exact CoreOp.homed hV hL hA h.reachable ih op

/-! ### Forgotten, or no longer observed -/

/-- An account stays gone through an operation that does not name it. -/
theorem DataSteps.gone {op : CoreOp Addr} {fs fs' : Fs} (h : DataSteps C op fs fs')
    (hop : ¬op.Concerns C addr) (hgone : Gone C addr fs) : Gone C addr fs' := by
  induction h with
  | refl => exact hgone
  | tail _ hstep ih =>
    obtain ⟨hfiles, hlist⟩ := hstep.frame hop
    refine ⟨hstep.sane ih.sane, ?_, fun listed hlists => ?_⟩
    · rintro ⟨p, hp⟩
      rw [hfiles p] at hp
      exact ih.absent ⟨p, hp⟩
    · rcases hlist with hsame | ⟨before, after, hbefore, hafter, hmem⟩
      · exact ih.unlisted listed (hlists.congr hsame.symm)
      · rw [hafter.unique hlists, hmem]
        exact ih.unlisted before hbefore

/-- And through one that names it, but for those that take it in. -/
theorem Gone.call (hV : C.VaultLaws) (hA : C.AccountLaws) (hw : Reachable C w)
    (h : Gone C addr w.disk.fs) (call : Call Addr)
    (hcall : ¬(call.op.Concerns C addr ∧ call.op.TakesIn)) :
    Gone C addr (call.run C w).2.disk.fs := by
  have hunder : Gone C addr (w.under call.weather).disk.fs := h
  by_cases hop : call.op.Concerns C addr
  · have hmisses := CoreOp.unknown hV hunder hop fun htakes => hcall ⟨hop, htakes⟩
    obtain ⟨e, w', hrun, hrefused, -⟩ := hmisses
    have hrun' : call.run C w = (.error e, w') := hrun
    rw [hrun']
    exact hunder.of_same hrefused.data
  · exact DataSteps.gone (CoreOp.data hV hA ((hw.under _).written_eq hV hA) rfl) hop hunder

theorem Gone.after (hV : C.VaultLaws) (hA : C.AccountLaws) (hw : Reachable C w)
    (h : Gone C addr w.disk.fs) (calls : List (Call Addr))
    (hcalls : ∀ call ∈ calls, ¬(call.op.Concerns C addr ∧ call.op.TakesIn)) :
    Gone C addr (w.after C calls).disk.fs := by
  induction calls generalizing w with
  | nil => exact h
  | cons call calls ih =>
    rw [List.forall_mem_cons] at hcalls
    exact ih (.op call.op (hw.under _)) (h.call hV hA hw call hcalls.1) hcalls.2

/-- The app has nothing of the account that was: every call about it is refused until it is taken in
again, and from then on it answers as an app just started. -/
structure StartsOver (C : Crates Addr) (addr : Addr) (w : World Addr) : Prop where
  /-- The account is refused, as unknown where no call to the filesystem fails. -/
  unknown : ∀ earlier : List (Call Addr),
    (∀ call ∈ earlier, ¬(call.op.Concerns C addr ∧ call.op.TakesIn)) →
    ∀ call : Call Addr, call.op.Concerns C addr → ¬call.op.TakesIn →
      ∃ e, (call.run C (w.after C earlier)).1 = .error e ∧
        (call.weather.faults = [] → e = .unknown)
  unread : ∀ held, Unread (stateOf C w.core addr held)
  uncounted : w.uncounted addr = 0
  /-- What is answered of the account, where its log in the store only grows. -/
  answers : ∀ earlier : List (Call Addr),
    (∀ call ∈ earlier, call.op.Concerns C addr →
      ∀ record ∈ w.core.resolver addr, call.weather.Appends record) →
    ∀ call : Call Addr, call.op.Concerns C addr →
      (∀ record ∈ w.core.resolver addr, call.weather.Appends record) →
      (call.run C (w.after C earlier)).1 = (call.run C (w.restarted.after C earlier)).1
  row : ∀ earlier : List (Call Addr),
    (∀ call ∈ earlier, call.op.Concerns C addr →
      ∀ record ∈ w.core.resolver addr, call.weather.Appends record) →
    ∀ weather, ((w.after C earlier).under weather).row C addr =
      ((w.restarted.after C earlier).under weather).row C addr

/-- An account that is gone, and of which nothing is left but what the resolver holds. -/
theorem Blank.startsOver (hV : C.VaultLaws) (hL : C.LogLaws) (hA : C.AccountLaws)
    (hfirst : C.ChecksFirst) (h : Reachable C w) (hblank : Blank w.core addr)
    (hgone : Gone C addr w.disk.fs)
    (happended : ∀ record ∈ w.core.resolver addr, w.store.turns = none →
      w.store.Appends addr record) : StartsOver C addr w := by
  have hrestarted : Reachable C w.restarted := .fresh rfl
  have hafter := fun earlier happends => (hblank.alike hV hL hA h happended).after hV hL hA
    (fun _ _ => hfirst) rfl h hrestarted earlier happends
  refine ⟨fun earlier hearlier call hcall htakes => ?_, hblank.unread, ?_, ?_, ?_⟩
  · obtain ⟨e, w', hrun, -, he⟩ :=
      CoreOp.unknown hV (w := (w.after C earlier).under call.weather)
        (hgone.after hV hA h earlier hearlier) hcall htakes
    exact ⟨e, congrArg Prod.fst hrun, he⟩
  · unfold World.uncounted
    rw [hblank.dropped]
    rfl
  · intro earlier happends call hcall happends'
    exact ((hafter earlier happends).answer_eq hV hL hA (fun _ _ => hfirst) call hcall (.inl rfl)
      (fun _ => rfl) happends').symm
  · intro earlier happends weather
    exact ((hafter earlier happends).row_eq hV rfl weather).symm

/-- Once an account is forgotten, or no longer observed, so that the app has it no longer, the app
starts over with it.  Where it was observed, nothing may have been left staged or unlocked of it,
as nothing is unless another app took its key away. -/
theorem forgotten_account_starts_over (hV : C.VaultLaws) (hL : C.LogLaws) (hA : C.AccountLaws)
    (hfirst : C.ChecksFirst) (h : Reachable C w) {op : CoreOp Addr}
    (hop : op = .forgetAccount addr ∨ op = .stopObserving addr)
    (hrun : op.run C w = (.ok .done, w')) (hgone : Gone C addr w'.disk.fs)
    (hclear : op = .stopObserving addr →
      Untaken C addr w ∨ w.core.staged addr = none ∧ w.core.unlocked addr = none)
    (happended : ∀ record ∈ w'.core.resolver addr, w'.store.turns = none →
      w'.store.Appends addr record) :
    StartsOver C addr w' := by
  have hreachable : Reachable C w' := by
    have hop := Reachable.op op h
    rwa [hrun] at hop
  refine Blank.startsOver hV hL hA hfirst hreachable ?_ hgone happended
  rcases hop with rfl | rfl
  · obtain ⟨u, hforget, -⟩ := Action.on_map_ok (f := fun _ => CoreAnswer.done) hrun
    obtain ⟨-, -, -, hcore, -⟩ := forgetAccount_ok hV hforget
    rw [hcore]
    exact ⟨Function.update_self .., Function.update_self .., Function.update_self ..,
      Function.update_self ..⟩
  · obtain ⟨u, hstop, -⟩ := Action.on_map_ok (f := fun _ => CoreAnswer.done) hrun
    obtain ⟨w₁, hlisted, rfl⟩ := stopObserving_ok hV hstop
    have hnothing : w₁.core.staged addr = none ∧ w₁.core.unlocked addr = none := by
      rw [hlisted.core]
      rcases hclear rfl with huntaken | hnothing
      · refine huntaken.homed hV hL hA fun hpresent => ?_
        exact hgone.absent (hlisted.files.present.mpr hpresent)
      · exact hnothing
    exact ⟨Function.update_self .., hnothing.1, Function.update_self .., hnothing.2⟩

/-- An account whose name was published. -/
def namedAccount : World Reference.Addr :=
  CoreOp.runs Crates.reference [.createAccount (Reference.someKey 1) none 0,
    .stageSetDisplayName ⟨(Reference.someKey 1).bytes⟩ "Saro",
    .publish ⟨(Reference.someKey 1).bytes⟩] (World.start [])

theorem forgotten_account_starts_over_named :
    StartsOver Crates.reference ⟨(Reference.someKey 1).bytes⟩
      ((CoreOp.forgetAccount ⟨(Reference.someKey 1).bytes⟩).run Crates.reference
        namedAccount).2 := by
  have hreachable : Reachable Crates.reference namedAccount := Reachable.runs (.fresh rfl) _
  have hsane : Sane Crates.reference namedAccount.disk.fs :=
    Alone.sane Reference.vaultLaws Reference.accountLaws
      (Alone.runs (.fresh rfl (sane_empty _)) _)
  generalize hrun : (CoreOp.forgetAccount ⟨(Reference.someKey 1).bytes⟩).run Crates.reference
    namedAccount = ran
  have hdone : ran.1 = .ok .done := by
    rw [← hrun]
    decide +kernel
  have hheld : (ran.2.core.resolver ⟨(Reference.someKey 1).bytes⟩).map (·.signedLog) =
      ran.2.store.held ⟨(Reference.someKey 1).bytes⟩ := by
    rw [← hrun]
    decide +kernel
  have hlist : ran.2.disk.fs.node observedFile = none := by
    rw [← hrun]
    decide +kernel
  have hmemory : ran.2.store.turns = none := by
    rw [← hrun]
    decide +kernel
  obtain ⟨r, w'⟩ := ran
  obtain rfl : r = _ := hdone
  dsimp only at hheld hlist hmemory ⊢
  obtain ⟨u, hforget, -⟩ := Action.on_map_ok (f := fun _ => CoreAnswer.done) hrun
  have hgone : Gone Crates.reference ⟨(Reference.someKey 1).bytes⟩ w'.disk.fs := by
    refine ⟨?_, (forgetAccount_ok Reference.vaultLaws hforget).2.1, fun listed hlists => ?_⟩
    · have hdata := CoreOp.data Reference.vaultLaws Reference.accountLaws
        (hreachable.written_eq Reference.vaultLaws Reference.accountLaws) hrun
      exact hdata.sane hsane
    · have hnone : Lists Crates.reference w'.disk.fs [] := .inl ⟨hlist, rfl⟩
      rw [hnone.unique hlists]
      exact List.not_mem_nil
  refine forgotten_account_starts_over Reference.vaultLaws Reference.logLaws Reference.accountLaws
    Reference.checksFirst hreachable (.inl rfl) hrun hgone (by simp) ?_
  intro record hrecord _
  have hrecord' : w'.core.resolver ⟨(Reference.someKey 1).bytes⟩ = some record := hrecord
  rw [hrecord', Option.map_some] at hheld
  rcases hstore : w'.store with store | store
  · rw [hstore] at hmemory
    cases hmemory
  · rw [hstore] at hheld
    exact ⟨record.signedLog, hheld.symm, List.prefix_refl _⟩

/-- The world once another app, on the same directory, has forgotten the account. -/
def World.forgottenElsewhere (C : Crates Addr) (w : World Addr) (addr : Addr) : World Addr :=
  { w with disk := ((CoreOp.forgetAccount addr).run C w.restarted).2.disk }

theorem CoreOp.sane (hV : C.VaultLaws) (hA : C.AccountLaws) (h : Reachable C w)
    (hsane : Sane C w.disk.fs) (op : CoreOp Addr) : Sane C (op.run C w).2.disk.fs := by
  have hdata : DataSteps C op w.disk.fs (op.run C w).2.disk.fs :=
    CoreOp.data hV hA (h.written_eq hV hA) rfl
  exact hdata.sane hsane

theorem World.forgottenElsewhere_sane (hV : C.VaultLaws) (hA : C.AccountLaws)
    (hsane : Sane C w.disk.fs) : Sane C (w.forgottenElsewhere C addr).disk.fs := by
  have hrestarted : Reachable C w.restarted := .fresh rfl
  exact CoreOp.sane hV hA hrestarted hsane (.forgetAccount addr)

/-- An account with a name staged. -/
def renamedAccount : World Reference.Addr :=
  CoreOp.runs Crates.reference [.createAccount (Reference.someKey 1) none 0,
    .stageSetDisplayName ⟨(Reference.someKey 1).bytes⟩ "Saro"] (World.start [])

/-- It is observed, once another app has taken its key away. -/
def keyTakenAway : World Reference.Addr :=
  ((CoreOp.observe ⟨(Reference.someKey 1).bytes⟩).run Crates.reference
    (renamedAccount.forgottenElsewhere Crates.reference ⟨(Reference.someKey 1).bytes⟩)).2

theorem keyTakenAway_reachable : Reachable Crates.reference keyTakenAway := by
  have hrenamed : Reachable Crates.reference renamedAccount := Reachable.runs (.fresh rfl) _
  have hforgotten : Reachable Crates.reference (renamedAccount.forgottenElsewhere Crates.reference
      ⟨(Reference.someKey 1).bytes⟩) := .elsewhere hrenamed rfl
  unfold keyTakenAway
  exact .op _ hforgotten

theorem keyTakenAway_sane : Sane Crates.reference keyTakenAway.disk.fs := by
  have hrenamed : Reachable Crates.reference renamedAccount := Reachable.runs (.fresh rfl) _
  have hforgotten : Reachable Crates.reference (renamedAccount.forgottenElsewhere Crates.reference
      ⟨(Reference.someKey 1).bytes⟩) := .elsewhere hrenamed rfl
  have hsane : Sane Crates.reference renamedAccount.disk.fs :=
    Alone.sane Reference.vaultLaws Reference.accountLaws
      (Alone.runs (.fresh rfl (sane_empty _)) _)
  unfold keyTakenAway
  exact CoreOp.sane Reference.vaultLaws Reference.accountLaws hforgotten
    (World.forgottenElsewhere_sane Reference.vaultLaws Reference.accountLaws hsane) _

theorem keyTakenAway_gone : Gone Crates.reference ⟨(Reference.someKey 1).bytes⟩
    ((CoreOp.stopObserving ⟨(Reference.someKey 1).bytes⟩).run Crates.reference
      keyTakenAway).2.disk.fs := by
  have habsent : ∀ p, (((CoreOp.stopObserving ⟨(Reference.someKey 1).bytes⟩).run Crates.reference
      keyTakenAway).2.disk.fs.node
        (pathOf Crates.reference ⟨(Reference.someKey 1).bytes⟩ p)).isSome = false := by
    decide +kernel
  have hlist : ((list Crates.reference).alone 0
      ((CoreOp.stopObserving ⟨(Reference.someKey 1).bytes⟩).run Crates.reference
        keyTakenAway).2.disk.fs).1 = .ok [] := by
    decide +kernel
  refine ⟨CoreOp.sane Reference.vaultLaws Reference.accountLaws keyTakenAway_reachable
    keyTakenAway_sane _, ?_, fun listed hlists => ?_⟩
  · rintro ⟨p, hp⟩
    rw [habsent p] at hp
    cases hp
  · rw [list_alone hlists] at hlist
    rw [Except.ok.inj hlist]
    exact List.not_mem_nil

/-- Once it is no longer observed, and imported again, the name is still staged, as it would not be
in an app just started. -/
theorem edits_outlive_an_account_stopped :
    let addr : Reference.Addr := ⟨(Reference.someKey 1).bytes⟩
    let stopped := (CoreOp.stopObserving addr).run Crates.reference keyTakenAway
    let weather : Weather Reference.Addr := ⟨[], [], 0, []⟩
    let secret := String.ofList (Hex.encode (Reference.someKey 1).bytes.toList)
    let calls : List (Call Reference.Addr) :=
      [⟨.importAccount secret none 0, weather⟩, ⟨.state addr, weather⟩]
    Reachable Crates.reference keyTakenAway ∧ stopped.1 = .ok .done ∧
      Gone Crates.reference addr stopped.2.disk.fs ∧
      stopped.2.answers Crates.reference calls ≠
        stopped.2.restarted.answers Crates.reference calls := by
  exact ⟨keyTakenAway_reachable, by decide +kernel, keyTakenAway_gone, by decide +kernel⟩

end AccountLogUi
