import AccountLogUi.Manager.Equiv.Planned

/-!
# What a failed operation leaves

`failed_operation_leaves` goes through every operation but an import: one that fails left the
vault, the observed list, the store and the app's own state as they were, but for a read that failed
(`AccountCore.failed`) and a publish that failed after its read landed (`Read`).  A write that the
store took is never answered with an error.
-/

namespace AccountLogUi.Manager

variable {Addr : Type} {C : Crates Addr} {w w' : World Addr} {addr : Addr}

variable [DecidableEq Addr]

/-- What a read that landed made of the app's own state, and nothing else: the log the store
answered with is held, and the edits it left nothing to do of are dropped, and counted. -/
structure Read (C : Crates Addr) (addr : Addr) (w : World Addr) (core : AccountCore Addr) :
    Prop where
  resolver : ∃ fetched held, (w.store.fetch addr).1 = .ok fetched ∧
    C.resolve addr (w.core.resolver addr) fetched = .ok held ∧
    core.resolver = Function.update w.core.resolver addr held
  read : core.read = Function.update w.core.read addr (some ⟨some w.now, none⟩)
  unlocked : core.unlocked = w.core.unlocked
  written : core.written = w.core.written
  /-- What is staged is what was staged, without the edits the log read leaves nothing to do of. -/
  staged : (core.staged addr).getD [] =
    leftToDo C (core.resolver addr) ((w.core.staged addr).getD [])
  dropped : (core.dropped addr).getD 0 + ((core.staged addr).getD []).length =
    (w.core.dropped addr).getD 0 + ((w.core.staged addr).getD []).length
  others : ∀ other ≠ addr, core.staged other = w.core.staged other ∧
    core.dropped other = w.core.dropped other

theorem Landed.read {held : Option AccountRecord} (h : Landed C addr held w w') :
    Read C addr w w'.core := by
  have hfields := settle_fields (C := C) (w.core.landed addr held w.now) addr
  have hstaged := getD_staged_settle (C := C) (w.core.landed addr held w.now) addr
  have hdropped := getD_dropped_settle (C := C) (w.core.landed addr held w.now) addr
  rw [landed_record] at hstaged hdropped
  rw [← h.core] at hfields hstaged hdropped
  obtain ⟨hresolver, hread, hunlocked, hwritten⟩ := hfields
  obtain ⟨fetched, hfetch, hresolve⟩ := h.resolved
  have hheld : w'.core.resolver addr = held := by
    rw [hresolver]
    exact Function.update_self ..
  exact {
    resolver := ⟨fetched, held, hfetch, hresolve, hresolver⟩
    read := hread
    unlocked := hunlocked
    written := hwritten
    staged := by
      rw [hheld]
      exact hstaged
    dropped := by
      rw [hstaged]
      exact hdropped
    others := fun other hne => by
      rw [h.core]
      exact settle_other _ hne }

/-- What a failed operation left of the app's own state. -/
inductive Left (C : Crates Addr) (w : World Addr) (op : CoreOp Addr) (core : AccountCore Addr) :
    Prop
  | asItWas (h : core = w.core)
  /-- A read of the account failed. -/
  | failed {addr : Addr} {e : AccountError} (hop : op = .refresh addr ∨ op = .publish addr)
      (h : core = w.core.failed addr e)
  /-- A publish failed after its own read landed. -/
  | read {addr : Addr} (hop : op = .publish addr) (h : Read C addr w core)

/-- The store holds what it held. -/
def SameStore (w w' : World Addr) : Prop := ∀ addr, w'.store.held addr = w.store.held addr

theorem Asked.sameStore (h : Asked addr w w') : SameStore w w' := by
  intro addr'
  rw [h.store, Store.held_fetch]

theorem Offline.sameStore (h : Offline w w') : SameStore w w' := by
  intro addr'
  rw [h.store]

/-- How a publish fails, and what it leaves. -/
theorem publish_left (hV : C.VaultLaws) (hL : C.LogLaws) (hA : C.AccountLaws)
    (hsound : Sound C w.core) (hwritten : w.core.written = none) (hstore : w.store.Honest)
    {e : CoreError Addr} (h : (publish C addr).on w = (.error e, w')) :
    w'.disk.fs = w.disk.fs ∧ SameStore w w' ∧ Left C w (.publish addr) w'.core := by
  rcases hsound.publish_error hV hL hA hwritten h with
    ⟨-, hlooked⟩ | ⟨error, -, hfailed⟩ | ⟨held, w₁, hlanded, hrest⟩
  · refine ⟨hlooked.fs, fun addr' => ?_, .asItWas hlooked.core⟩
    rw [hlooked.store]
  · exact ⟨hfailed.fs, hfailed.toAsked.sameStore, .failed (.inr rfl) hfailed.core⟩
  rcases hrest with ⟨rfl, -⟩ | ⟨error, update, -, -, hplanned, hwrite⟩
  · exact ⟨hlanded.fs, hlanded.toAsked.sameStore, .read rfl hlanded.read⟩
  · have hsound₁ := hlanded.sound hL hA hsound
    obtain ⟨signed, -, ⟨e', -, hrefused, rfl⟩ | ⟨-, hr, -⟩⟩ := hplanned.writes hL hA hsound₁ hwrite
    · refine ⟨hlanded.fs, fun addr' => ?_, .read rfl hlanded.read⟩
      have hstore₁ : w₁.store.Honest := by
        rw [hlanded.store]
        exact hstore.fetch addr
      exact (Store.held_publish_error hstore₁ hrefused addr').trans
        (hlanded.toAsked.sameStore addr')
    · cases hr

/-- An operation other than an import that fails leaves the vault, the observed list, the store and
the app's own state as they were, but for what `Left` lists; and a publish whose write the store
takes does not fail. -/
theorem failed_operation_leaves (hV : C.VaultLaws) (hL : C.LogLaws) (hA : C.AccountLaws)
    (h : Reachable C w) :
    (∀ op e w', (∀ secretHex password seed, op ≠ .importAccount secretHex password seed) →
        w.store.Honest → op.run C w = (.error e, w') →
        SameData C w.disk.fs w'.disk.fs ∧ SameStore w w' ∧ Left C w op w'.core) ∧
      ∀ addr update w₁, (planUpdate C addr).on w = (.ok (.inr update), w₁) →
        ∃ signed, C.update update.key update.base update.entries = .ok signed ∧
          ((w₁.store.publish addr signed).1 = .ok () →
            ∃ published w', (publish C addr).on w = (.ok published, w')) := by
  have hsound := h.sound hV hL hA
  have hwritten := h.written_eq hV hA
  constructor
  · intro op e w' hop hstore hrun
    cases CoreOp.outcome hV hA hwritten hrun with
    | refused h => exact ⟨h.data, h.offline.sameStore, .asItWas h.core⟩
    | imported => exact absurd rfl (hop _ _ _)
    | unread h => exact ⟨.of_eq h.fs, h.toAsked.sameStore, .failed (.inl rfl) h.core⟩
    | published =>
      obtain ⟨hfs, hstore', hleft⟩ :=
        publish_left hV hL hA hsound hwritten hstore (Action.on_map_error hrun)
      exact ⟨.of_eq hfs, hstore', hleft⟩
  · intro addr update w₁ hplan
    have hplanned := Planned.of_plan hV hL hA hsound hwritten hplan
    have hsound₁ := hsound.steps hL hA (planUpdate_steps hV hwritten hplan)
    generalize hwrite : (writeUpdate C addr update).on w₁ = ran
    obtain ⟨r, w'⟩ := ran
    obtain ⟨signed, hsigned, hrest⟩ := hplanned.writes hL hA hsound₁ hwrite
    refine ⟨signed, hsigned, fun htaken => ?_⟩
    rcases hrest with ⟨e, -, hrefused, -⟩ | ⟨-, rfl, -⟩
    · rw [htaken] at hrefused
      cases hrefused
    · refine ⟨⟨some update.firstNew, (w₁.core.dropped addr).getD 0⟩, w', ?_⟩
      unfold publish
      rw [Action.on_bind, hplan]
      exact hwrite

/-- The operations by which an account publishes its name and stages another one. -/
def namedTwice : List (CoreOp Reference.Addr) :=
  [.createAccount (Reference.someKey 1) none 0,
    .stageSetDisplayName ⟨(Reference.someKey 1).bytes⟩ "Saro",
    .publish ⟨(Reference.someKey 1).bytes⟩,
    .stageSetDisplayName ⟨(Reference.someKey 1).bytes⟩ "Raya"]

/-- The account with a key staged as well. -/
def beforeRefused : World Reference.Addr :=
  CoreOp.runs Crates.reference (namedTwice ++ [.stageAddInstallation ⟨(Reference.someKey 1).bytes⟩
    (String.ofList (Hex.encode (Reference.someKey 2).bytes.toList))]) (.start [])

/-- The same app once another app of the account has published the other name.  The service
answers the next read with that log, and refuses the write after it. -/
def refusedAfterRead : World Reference.Addr :=
  let log := (CoreOp.runs Crates.reference
    (namedTwice ++ [.publish ⟨(Reference.someKey 1).bytes⟩]) (.start [])).store.held
      ⟨(Reference.someKey 1).bytes⟩
  { beforeRefused with
    store := .chat ⟨log.toList.map fun log => (⟨(Reference.someKey 1).bytes⟩, log),
      [⟨.ok log, .ok (), false⟩, ⟨.ok none, .error (.status 500 none), false⟩]⟩ }

/-- The publish fails, and keeps what it read: the name is dropped and counted, the key waits. -/
theorem failed_operation_leaves_read : ∃ w',
    (CoreOp.publish ⟨(Reference.someKey 1).bytes⟩).run Crates.reference refusedAfterRead =
      (.error (.account (.provider (.status 500 none))), w') ∧
    refusedAfterRead.core.staged ⟨(Reference.someKey 1).bytes⟩ =
      some [.setDisplayName "Raya", .addInstallation ⟨(Reference.someKey 2).bytes⟩] ∧
    w'.core.staged ⟨(Reference.someKey 1).bytes⟩ =
      some [.addInstallation ⟨(Reference.someKey 2).bytes⟩] ∧
    SameData Crates.reference refusedAfterRead.disk.fs w'.disk.fs ∧
    SameStore refusedAfterRead w' ∧
    Read Crates.reference ⟨(Reference.someKey 1).bytes⟩ refusedAfterRead w'.core := by
  have hbefore : Reachable Crates.reference beforeRefused := by
    unfold beforeRefused
    exact (Reachable.fresh rfl).runs _
  have hcore : refusedAfterRead.core = beforeRefused.core := by
    unfold refusedAfterRead
    dsimp only
  have hreachable : Reachable Crates.reference refusedAfterRead := .elsewhere hbefore hcore
  have hhonest : refusedAfterRead.store.Honest := by
    show ∀ turn ∈ [(⟨.ok _, .ok (), false⟩ : Turn), ⟨.ok none, .error (.status 500 none), false⟩],
      turn.lost = false
    simp
  have hfacts : ((CoreOp.publish ⟨(Reference.someKey 1).bytes⟩).run Crates.reference
        refusedAfterRead).1 = .error (.account (.provider (.status 500 none))) ∧
      refusedAfterRead.core.staged ⟨(Reference.someKey 1).bytes⟩ =
        some [.setDisplayName "Raya", .addInstallation ⟨(Reference.someKey 2).bytes⟩] ∧
      ((CoreOp.publish ⟨(Reference.someKey 1).bytes⟩).run Crates.reference
        refusedAfterRead).2.core.staged ⟨(Reference.someKey 1).bytes⟩ =
          some [.addInstallation ⟨(Reference.someKey 2).bytes⟩] := by
    decide +kernel
  clear hcore
  generalize refusedAfterRead = w at *
  rcases hrun : (CoreOp.publish ⟨(Reference.someKey 1).bytes⟩).run Crates.reference w with ⟨r, w'⟩
  rw [hrun] at hfacts
  obtain ⟨hr, hbefore, hafter⟩ := hfacts
  obtain rfl : r = _ := hr
  obtain ⟨hdata, hstore, hleft⟩ := (failed_operation_leaves Reference.vaultLaws Reference.logLaws
    Reference.accountLaws hreachable).1 _ _ _ (by simp) hhonest hrun
  refine ⟨w', hrun, hbefore, hafter, hdata, hstore, ?_⟩
  have hread : w'.core.staged ≠ w.core.staged := by
    intro hsame
    rw [hsame, hbefore] at hafter
    simp at hafter
  cases hleft with
  | asItWas hsame => exact absurd (by rw [hsame]) hread
  | failed hop hsame => exact absurd (by rw [hsame]; rfl) hread
  | read hop hread =>
    obtain rfl := CoreOp.publish.inj hop
    exact hread

end AccountLogUi.Manager
