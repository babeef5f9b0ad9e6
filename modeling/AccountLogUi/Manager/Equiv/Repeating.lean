import AccountLogUi.Manager.Equiv.Planned

/-!
# A publish whose answer was lost

The tests settling makes invert what a plan appends: on the log a plan was pushed onto, nothing of
the plan is left to do (`not_needed_of_plan`).  So where a write landed and its answer did not, the
next read drops every staged edit, and nothing is written twice.
-/

namespace AccountLogUi.Manager

variable {Addr : Type} {C : Crates Addr} {entries : List AccountEntry} {staged : List StagedEdit}

theorem WellFormed.rename_unique (h : WellFormed C staged) {name name' : String}
    (hmem : .setDisplayName name ∈ staged) (hmem' : .setDisplayName name' ∈ staged) :
    name = name' := by
  have hrename : StagedEdit.setDisplayName name ∈ staged.filter isRename :=
    List.mem_filter.mpr ⟨hmem, rfl⟩
  have hrename' : StagedEdit.setDisplayName name' ∈ staged.filter isRename :=
    List.mem_filter.mpr ⟨hmem', rfl⟩
  obtain ⟨edit, hone⟩ | hnil : (∃ edit, staged.filter isRename = [edit]) ∨
      staged.filter isRename = [] := by
    match hlist : staged.filter isRename with
    | [] => exact .inr rfl
    | [edit] => exact .inl ⟨edit, rfl⟩
    | _ :: _ :: _ =>
      have hle := h.oneRename
      rw [hlist] at hle
      simp at hle
  · rw [hone, List.mem_singleton] at hrename hrename'
    exact StagedEdit.setDisplayName.inj (hrename.trans hrename'.symm)
  · rw [hnil] at hrename
    cases hrename

/-- A log leaves nothing to do of a plan pushed onto it. -/
theorem not_needed_of_plan (hL : C.LogLaws) (hread : C.Readable entries)
    (htakes : Takes C entries staged) (hwell : WellFormed C staged) {edit : StagedEdit}
    (hmem : edit ∈ staged) : AccountCore.needed C ⟨entries ++ plan staged⟩
      ⟨entries ++ plan staged⟩ edit = false := by
  rw [Bool.eq_false_iff, Ne, @needed_iff _ _ hL ⟨entries ++ plan staged⟩]
  cases edit with
  | revoke index =>
    intro hlive
    have hlt := isLive_lt (htakes.revoke index hmem)
    exact ((isLive_before_plan hlt).mp hlive).2 hmem
  | addInstallation key =>
    have hplan : AccountEntry.add signerContext (.ed25519Key key.bytes) ∈ plan staged :=
      mem_plan.mpr ⟨_, hmem, rfl⟩
    obtain ⟨offset, hoffset⟩ := List.mem_iff_getElem?.mp hplan
    refine not_not.mpr ⟨entries.length + offset, signerContext, ?_,
      isLive_planned hL hread htakes hoffset⟩
    rw [List.getElem?_append_right (Nat.le_add_right _ _), Nat.add_sub_cancel_left]
    exact hoffset
  | setDisplayName name =>
    exact not_not.mpr (liveDisplayName_plan hL hread htakes
      (fun _ _ h h' => hwell.rename_unique h h') hmem)

/-! ### Settling -/

variable [DecidableEq Addr] {core : AccountCore Addr} {addr : Addr}

/-- Settling against a log that a plan was pushed onto drops everything of the plan. -/
theorem settle_planned (hL : C.LogLaws) (hread : C.Readable entries)
    (htakes : Takes C entries staged) (hwell : WellFormed C staged) (hne : staged ≠ [])
    {signed : SignedAccountLog}
    (hrecord : core.record addr = some ⟨⟨entries ++ plan staged⟩, signed⟩)
    (hstaged : core.staged addr = some staged) : core.settle C addr = { core with
      staged := Function.update core.staged addr none
      dropped := Function.update core.dropped addr
        (some ((core.dropped addr).getD 0 + staged.length)) } := by
  have hread' : C.Readable (entries ++ plan staged) :=
    @Crates.pushAll_readable _ _ hL _ ⟨entries⟩ _ hread (pushAll_plan hL hread htakes)
  rcases settle_cases hL core addr with
    ⟨-, hnothing⟩ | ⟨record, staged', kept, hrecord', -, hstaged', hkept, hsettle⟩
  · rcases hnothing with hnone | hunread
    · rw [hstaged] at hnone
      cases hnone
    · exact absurd hread' (hunread _ hrecord)
  · rw [hrecord] at hrecord'
    obtain rfl := Option.some.inj hrecord'
    rw [hstaged] at hstaged'
    obtain rfl := Option.some.inj hstaged'
    have hnil : kept = [] := by
      rw [hkept, List.filter_eq_nil_iff]
      intro edit hmem
      rw [not_needed_of_plan hL hread htakes hwell hmem]
      exact Bool.false_ne_true
    have hlength : 0 < staged.length := List.length_pos_iff.mpr hne
    rw [hsettle, hnil]
    simp [hlength]

/-- Settling leaves a list alone that the log leaves all of to do. -/
theorem settle_eq_self (hL : C.LogLaws) (hnonempty : core.staged addr ≠ some [])
    (hneeded : ∀ record staged, core.record addr = some record → C.Readable record.log.entries →
      core.staged addr = some staged →
      ∀ edit ∈ staged, AccountCore.needed C record.log ⟨record.log.entries⟩ edit = true) :
    core.settle C addr = core := by
  rcases settle_cases hL core addr with
    ⟨hsettle, -⟩ | ⟨record, staged, kept, hrecord, hread, hstaged, hkept, hsettle⟩
  · exact hsettle
  · have hall : kept = staged := by
      rw [hkept, List.filter_eq_self]
      exact hneeded record staged hrecord hread hstaged
    have hne : staged.isEmpty = false := by
      rw [hstaged] at hnonempty
      simpa using hnonempty
    rw [hsettle, hall, hne, if_neg (by simp), if_neg (by simp)]
    rw [← hstaged, Function.update_eq_self]

/-- What settling leaves, the same log leaves all of to do. -/
theorem needed_of_settle (hL : C.LogLaws) {record : AccountRecord}
    (hrecord : core.record addr = some record) (hread : C.Readable record.log.entries)
    (hstaged : (core.settle C addr).staged addr = some staged) {edit : StagedEdit}
    (hmem : edit ∈ staged) :
    AccountCore.needed C record.log ⟨record.log.entries⟩ edit = true := by
  rcases settle_cases hL core addr with
    ⟨hsettle, hnothing⟩ | ⟨record', staged', kept, hrecord', -, -, hkept, hsettle⟩
  · rw [hsettle] at hstaged
    rcases hnothing with hnone | hunread
    · rw [hstaged] at hnone
      cases hnone
    · exact absurd hread (hunread record hrecord)
  · rw [hrecord] at hrecord'
    obtain rfl := Option.some.inj hrecord'
    rw [hsettle] at hstaged
    dsimp only at hstaged
    rw [Function.update_self] at hstaged
    split at hstaged
    · cases hstaged
    · obtain rfl := Option.some.inj hstaged
      rw [hkept] at hmem
      exact (List.mem_filter.mp hmem).2

theorem settle_ne_nil (hL : C.LogLaws) (hnonempty : core.staged addr ≠ some []) :
    (core.settle C addr).staged addr ≠ some [] := by
  rcases settle_cases hL core addr with ⟨hsettle, -⟩ | ⟨_, _, kept, -, -, -, -, hsettle⟩
  · rw [hsettle]
    exact hnonempty
  · rw [hsettle]
    dsimp only
    rw [Function.update_self]
    split
    · simp
    · next hne => simpa using hne

theorem settle_record (hL : C.LogLaws) (core : AccountCore Addr) (addr : Addr) :
    (core.settle C addr).record addr = core.record addr := by
  rcases settle_cases hL core addr with ⟨hsettle, -⟩ | ⟨_, _, kept, -, -, -, -, hsettle⟩
  · rw [hsettle]
  · rw [hsettle]
    rfl

/-- Settling once is settling for good. -/
theorem settle_settle (hL : C.LogLaws) (hnonempty : core.staged addr ≠ some []) :
    (core.settle C addr).settle C addr = core.settle C addr := by
  refine settle_eq_self hL (settle_ne_nil hL hnonempty)
    fun record staged hrecord hread hstaged edit hmem => ?_
  rw [settle_record hL] at hrecord
  exact needed_of_settle hL hrecord hread hstaged hmem

/-- A second read of the same log drops nothing more. -/
theorem settle_landed_again (hL : C.LogLaws) (hnonempty : core.staged addr ≠ some [])
    {held : Option AccountRecord} (now now' : ℤ) :
    let once := (core.landed addr held now).settle C addr
    ((once.landed addr held now').settle C addr).staged = once.staged ∧
      ((once.landed addr held now').settle C addr).dropped = once.dropped := by
  intro once
  have hlanded : (core.landed addr held now).staged addr ≠ some [] := hnonempty
  have hagain : (once.landed addr held now').settle C addr = once.landed addr held now' := by
    refine settle_eq_self hL (settle_ne_nil hL hlanded)
      fun record staged hrecord hread hstaged edit hmem => ?_
    rw [landed_record] at hrecord
    exact needed_of_settle hL ((landed_record held now).trans hrecord) hread hstaged hmem
  rw [hagain]
  exact ⟨rfl, rfl⟩

/-! ### Reading again -/

variable {w w' : World Addr}

section Reading

variable {fetched : Option SignedAccountLog} {held held' : Option AccountRecord}

/-- A read that the store answers, with a log the resolver takes, does not fail. -/
theorem not_failed (hfetch : (w.store.fetch addr).1 = .ok fetched)
    (hresolve : C.resolve addr (w.core.resolver addr) fetched = .ok held) {e : AccountError} :
    ¬Failed C addr e w w' := by
  intro hfailed
  rcases hfailed.reason with ⟨error, hfetch', -⟩ | ⟨fetched', hfetch', hresolve'⟩
  · rw [hfetch] at hfetch'
    cases hfetch'
  · rw [hfetch] at hfetch'
    obtain rfl := Except.ok.inj hfetch'
    rw [hresolve] at hresolve'
    cases hresolve'

theorem Landed.held_eq (hfetch : (w.store.fetch addr).1 = .ok fetched)
    (hresolve : C.resolve addr (w.core.resolver addr) fetched = .ok held)
    (h : Landed C addr held' w w') : held' = held := by
  obtain ⟨fetched', hfetch', hresolve'⟩ := h.resolved
  rw [hfetch] at hfetch'
  obtain rfl := Except.ok.inj hfetch'
  rw [hresolve] at hresolve'
  exact (Except.ok.inj hresolve').symm

/-- It lands. -/
theorem readStore_lands (hwritten : w.core.written = none)
    (hfetch : (w.store.fetch addr).1 = .ok fetched)
    (hresolve : C.resolve addr (w.core.resolver addr) fetched = .ok held)
    {r : Except (CoreError Addr) Unit} (h : (readStore C addr).on w = (r, w')) :
    r = .ok () ∧ Landed C addr held w w' := by
  rcases readStore_cases hwritten h with ⟨hr, held', hlanded⟩ | ⟨e, -, hfailed⟩
  · obtain rfl := hlanded.held_eq hfetch hresolve
    exact ⟨hr, hlanded⟩
  · exact absurd hfailed (not_failed hfetch hresolve)

end Reading

/-- One read, which left nothing staged and nothing uncounted. -/
structure Emptied (addr : Addr) (w w' : World Addr) : Prop extends Asked addr w w' where
  staged : w'.core.staged addr = none
  dropped : w'.core.dropped addr = none

/-- What a read finds of a write that was planned and landed, whatever became of its answer. -/
theorem Planned.read_back (hL : C.LogLaws) (hA : C.AccountLaws) {update : Update}
    (hsound : Sound C w.core) (hplanned : Planned C addr w.core update)
    {signed : SignedAccountLog}
    (hsigned : C.update update.key update.base update.entries = .ok signed) :
    ∃ held staged, C.resolve addr (w.core.resolver addr) (some signed) = .ok held ∧
      w.core.staged addr = some staged ∧
      ∀ w', Landed C addr held w w' → w'.core.staged addr = none ∧
        w'.core.dropped addr = some ((w.core.dropped addr).getD 0 + staged.length) := by
  obtain ⟨staged, hstaged, hentries⟩ := hplanned.staged
  have hresolves := hplanned.resolves hL hA hsound hsigned
  refine ⟨_, staged, hresolves, hstaged, fun w' hlanded => ?_⟩
  have htakes := hplanned.takes
  have hwell := (hsound.staged addr).toWellFormed
  rw [hstaged, Option.getD_some] at htakes hwell
  have hne : staged ≠ [] := by
    rintro rfl
    exact hsound.nonempty addr hstaged
  rw [hlanded.core, hentries,
    settle_planned hL hplanned.readable htakes hwell hne (landed_record _ w.now) hstaged]
  exact ⟨Function.update_self .., Function.update_self ..⟩

section Emptying

variable {fetched : Option SignedAccountLog} {held : Option AccountRecord} {n : ℕ}

/-- A refresh whose read leaves nothing staged answers with what it dropped. -/
theorem refresh_emptied (hV : C.VaultLaws) (hwritten : w.core.written = none)
    (hfetch : (w.store.fetch addr).1 = .ok fetched)
    (hresolve : C.resolve addr (w.core.resolver addr) fetched = .ok held)
    (hread : ∀ w', Landed C addr held w w' → w'.core.staged addr = none ∧
      w'.core.dropped addr = some n)
    {r : Except (CoreError Addr) ℕ} (h : (refresh C addr).on w = (r, w')) :
    (∃ e, r = .error e ∧ (requireKnown C addr).on w = (.error e, w')) ∨
      r = .ok n ∧ Emptied addr w w' := by
  unfold refresh at h
  rcases Action.on_bind_cases h with ⟨e, hknown, hr⟩ | ⟨u, w₁, hknown, h⟩
  · exact .inl ⟨e, hr, hknown⟩
  have hlooked := requireKnown_looked hV hknown
  rw [← hlooked.core] at hwritten hresolve
  rw [← hlooked.store] at hfetch
  rcases Action.on_bind_cases h with ⟨e, hstore, -⟩ | ⟨u', w₂, hstore, h⟩
  · cases (readStore_lands hwritten hfetch hresolve hstore).1
  have hlanded := (readStore_lands hwritten hfetch hresolve hstore).2.looked hlooked
  obtain ⟨hnone, hsome⟩ := hread w₂ hlanded
  rw [takeDropped_on] at h
  obtain ⟨hr, rfl⟩ := Prod.mk.inj h
  refine .inr ⟨?_, ⟨hlanded.fs, hlanded.store, hlanded.now, hlanded.asked⟩, hnone,
    Function.update_self ..⟩
  rw [← hr, hsome]
  rfl

/-- A publish whose read leaves nothing staged writes nothing. -/
theorem publish_emptied (hV : C.VaultLaws) (hwritten : w.core.written = none)
    (hstaged : (w.core.staged addr).getD [] ≠ [])
    (hfetch : (w.store.fetch addr).1 = .ok fetched)
    (hresolve : C.resolve addr (w.core.resolver addr) fetched = .ok held)
    (hread : ∀ w', Landed C addr held w w' → w'.core.staged addr = none ∧
      w'.core.dropped addr = some n)
    {r : Except (CoreError Addr) Published} (h : (publish C addr).on w = (r, w')) :
    (∃ e, r = .error e ∧ Unkeyed C addr e w w' ∧ Looked w w') ∨
      r = .ok ⟨none, n⟩ ∧ Emptied addr w w' := by
  -- Whatever the read lands on leaves nothing staged.
  have hemptied : ∀ {held' w₁}, Landed C addr held' w w₁ →
      w₁.core.staged addr = none ∧ w₁.core.dropped addr = some n := by
    intro held' w₁ hlanded
    obtain rfl := hlanded.held_eq hfetch hresolve
    exact hread w₁ hlanded
  cases publish_outcome hV hwritten h with
  | refused hoff hlooked hunkeyed =>
    exact .inl ⟨_, rfl, hunkeyed.resolve_left hstaged, hlooked⟩
  | unread hadmitted hfailed => exact absurd hfailed (not_failed hfetch hresolve)
  | nothing hadmitted hlanded =>
    obtain ⟨hnone, hsome⟩ := hemptied hlanded
    refine .inr ⟨?_, ⟨hlanded.fs, hlanded.store, hlanded.now, hlanded.asked⟩, hnone,
      Function.update_self ..⟩
    rw [hsome]
    rfl
  | unfit hadmitted hlanded hsome => cases (hemptied hlanded).1.symm.trans hsome
  | written hadmitted hlanded hkey hplan =>
    have houtcome := planUpdate_outcome hV hwritten hplan
    cases houtcome with
    | planned hadmitted' hlanded' hsome => cases (hemptied hlanded').1.symm.trans hsome

end Emptying

/-- A log with the plan of what is staged pushed onto it leaves nothing to do of it. -/
theorem Sound.settle_pushed (hL : C.LogLaws) (hsound : Sound C w.core)
    (hheld : (∃ record, w.core.record addr = some record ∧ record.log.entries = entries) ∨
      w.core.resolver addr = none ∧ entries = [])
    (hread : C.Readable entries) (hstaged : w.core.staged addr = some staged)
    {core : AccountCore Addr} {signed : SignedAccountLog}
    (hrecord : core.record addr = some ⟨⟨entries ++ plan staged⟩, signed⟩)
    (hstaged' : core.staged addr = some staged) : core.settle C addr = { core with
      staged := Function.update core.staged addr none
      dropped := Function.update core.dropped addr
        (some ((core.dropped addr).getD 0 + staged.length)) } := by
  obtain ⟨hrecord', hentries⟩ : w.core.record addr = w.core.resolver addr ∧
      heldEntries (w.core.record addr) = entries := by
    rcases hheld with ⟨record, hsome, rfl⟩ | ⟨hnone, rfl⟩
    · refine ⟨record_of_answered (record_eq_some.mp hsome).1, ?_⟩
      rw [hsome]
      rfl
    · have hnone' : w.core.record addr = none := by
        unfold AccountCore.record
        rw [hnone]
        rfl
      rw [hnone', hnone]
      exact ⟨rfl, rfl⟩
  have htakes := hsound.takes (hsound.revokesShown hrecord') (hentries ▸ hread)
  have hwell := (hsound.staged addr).toWellFormed
  rw [hentries, hstaged, Option.getD_some] at htakes
  rw [hstaged, Option.getD_some] at hwell
  have hne : staged ≠ [] := by
    rintro rfl
    exact hsound.nonempty addr hstaged
  exact settle_planned hL hread htakes hwell hne hrecord hstaged'

/-- A publish that failed with its write handed over had planned it, and nothing is changed since
its read but the store. -/
theorem Sound.handed_over (hV : C.VaultLaws) (hL : C.LogLaws) (hA : C.AccountLaws)
    (hsound : Sound C w.core) (hwritten : w.core.written = none) {e : CoreError Addr}
    {signed : SignedAccountLog} (h : (publish C addr).on w = (.error e, w'))
    (hasked : w'.asked = .published addr signed :: .fetched addr :: w.asked) :
    ∃ update, Planned C addr w'.core update ∧ Sound C w'.core ∧ w'.core.written = none ∧
      C.update update.key update.base update.entries = .ok signed := by
  obtain ⟨hoff, hlooked⟩ | ⟨error, -, hfailed⟩ | ⟨held, w₁, hlanded, hrest⟩ :=
    hsound.publish_error hV hL hA hwritten h
  · rw [hlooked.asked] at hasked
    have hlength := congrArg List.length hasked
    rw [List.length_cons, List.length_cons] at hlength
    omega
  · rw [hfailed.asked] at hasked
    simp at hasked
  obtain ⟨rfl, -⟩ | ⟨error, update, -, -, hplanned, hwrite⟩ := hrest
  · rw [hlanded.asked] at hasked
    simp at hasked
  have hsound₁ := hlanded.sound hL hA hsound
  obtain ⟨signed', hsigned, ⟨e', -, -, rfl⟩ | ⟨-, hr, -⟩⟩ := hplanned.writes hL hA hsound₁ hwrite
  · obtain ⟨rfl, -⟩ : signed' = signed ∧ w₁.asked = .fetched addr :: w.asked := by
      simpa using hasked
    exact ⟨update, hplanned, hsound₁, hlanded.steps.written_eq.trans hwritten, hsigned⟩
  · cases hr

/-- What is staged, in a run, against a log that is held, that log with the plan pushed onto it
leaves nothing to do of, and settling twice is settling once.  So where the write of a publish
landed and its answer was lost, the next refresh, or another publish in its place, answers with
every staged edit dropped, and writes nothing. -/
theorem lost_publish_is_not_repeated (hV : C.VaultLaws) (hL : C.LogLaws) (hA : C.AccountLaws)
    (h : Reachable C w) (addr : Addr) :
    (∀ entries staged, ((∃ record, w.core.record addr = some record ∧
          record.log.entries = entries) ∨ w.core.resolver addr = none ∧ entries = []) →
        C.Readable entries → w.core.staged addr = some staged →
        ∀ (core : AccountCore Addr) signed,
          core.record addr = some ⟨⟨entries ++ plan staged⟩, signed⟩ →
          core.staged addr = some staged → core.settle C addr = { core with
            staged := Function.update core.staged addr none
            dropped := Function.update core.dropped addr
              (some ((core.dropped addr).getD 0 + staged.length)) }) ∧
      (∀ e w' signed, (publish C addr).on w = (.error e, w') →
        w'.asked = .published addr signed :: .fetched addr :: w.asked →
        ∃ staged, w'.core.staged addr = some staged ∧ ∀ w₁ : World Addr, w₁.core = w'.core →
          (w₁.store.fetch addr).1 = .ok (some signed) →
          (∀ r w₂, (refresh C addr).on w₁ = (r, w₂) →
            (∃ e, r = .error e ∧ (requireKnown C addr).on w₁ = (.error e, w₂)) ∨
              r = .ok ((w'.core.dropped addr).getD 0 + staged.length) ∧ Emptied addr w₁ w₂) ∧
          ∀ r w₂, (publish C addr).on w₁ = (r, w₂) →
            (∃ e, r = .error e ∧ Unkeyed C addr e w₁ w₂ ∧ Looked w₁ w₂) ∨
              r = .ok ⟨none, (w'.core.dropped addr).getD 0 + staged.length⟩ ∧
                Emptied addr w₁ w₂) ∧
      ((w.core.settle C addr).settle C addr = w.core.settle C addr ∧
        ∀ held now now', let once := (w.core.landed addr held now).settle C addr
          ((once.landed addr held now').settle C addr).staged = once.staged ∧
            ((once.landed addr held now').settle C addr).dropped = once.dropped) := by
  have hsound := h.sound hV hL hA
  have hwritten := h.written_eq hV hA
  refine ⟨?_, ?_, settle_settle hL (hsound.nonempty addr),
    fun held now now' => settle_landed_again hL (hsound.nonempty addr) now now'⟩
  · intro entries staged hheld hread hstaged core signed hrecord hstaged'
    exact hsound.settle_pushed hL hheld hread hstaged hrecord hstaged'
  · intro e w' signed hpublish hasked
    obtain ⟨update, hplanned, hsound', hwritten', hsigned⟩ :=
      hsound.handed_over hV hL hA hwritten hpublish hasked
    obtain ⟨staged, hstaged, -⟩ := hplanned.staged
    have hsome : (w'.core.staged addr).getD [] ≠ [] := by
      intro hnil
      rw [hstaged, Option.getD_some] at hnil
      exact hsound'.nonempty addr (hnil ▸ hstaged)
    refine ⟨staged, hstaged, fun w₁ hcore hfetch => ?_⟩
    -- The next read finds the log that was written.
    rw [← hcore] at hplanned hsound' hwritten' hstaged hsome ⊢
    obtain ⟨held, staged', hresolve, hstaged', hread⟩ := hplanned.read_back hL hA hsound' hsigned
    obtain rfl : staged' = staged := Option.some.inj (hstaged'.symm.trans hstaged)
    exact ⟨fun r w₂ hrefresh => refresh_emptied hV hwritten' hfetch hresolve hread hrefresh,
      fun r w₂ hagain => publish_emptied hV hwritten' hsome hfetch hresolve hread hagain⟩

/-- An account whose name is staged, over a service that will lose the answer to its next
publish. -/
def unanswered : World Reference.Addr :=
  CoreOp.runs Crates.reference [.createAccount (Reference.someKey 1) none 0,
    .stageSetDisplayName ⟨(Reference.someKey 1).bytes⟩ "Saro"]
    { World.start [] with
      store := .chat ⟨[], [⟨.ok none, .ok (), false⟩,
        ⟨.ok none, .error (.transport "timed out"), true⟩]⟩ }

/-- The log its publish wrote. -/
def namedSaro : SignedAccountLog :=
  ⟨Crates.reference.payloadOf [.add displayNameContext (.text "Saro")],
    (Reference.someKey 1).bytes.toList⟩

theorem lost_publish_is_not_repeated_saro :
    let w := ((publish Crates.reference ⟨(Reference.someKey 1).bytes⟩).on unanswered).2
    let w₁ := { w with store := .memory ⟨[(⟨(Reference.someKey 1).bytes⟩, namedSaro)]⟩ }
    ∀ r w₂, (publish Crates.reference ⟨(Reference.someKey 1).bytes⟩).on w₁ = (r, w₂) →
      (∃ e, r = .error e ∧
          Unkeyed Crates.reference ⟨(Reference.someKey 1).bytes⟩ e w₁ w₂ ∧ Looked w₁ w₂) ∨
        r = .ok ⟨none, 1⟩ ∧ Emptied ⟨(Reference.someKey 1).bytes⟩ w₁ w₂ := by
  intro w w₁ r w₂ hagain
  have hreachable : Reachable Crates.reference unanswered := (Reachable.fresh rfl).runs _
  have hpublish : (publish Crates.reference ⟨(Reference.someKey 1).bytes⟩).on unanswered =
      (.error (.account (.provider (.transport "timed out"))), w) := by
    refine Prod.ext ?_ rfl
    dsimp only
    decide +kernel
  have hasked : w.asked = .published ⟨(Reference.someKey 1).bytes⟩ namedSaro ::
      .fetched ⟨(Reference.someKey 1).bytes⟩ :: unanswered.asked := by decide +kernel
  obtain ⟨staged, hstaged, hrest⟩ := (lost_publish_is_not_repeated Reference.vaultLaws
    Reference.logLaws Reference.accountLaws hreachable ⟨(Reference.someKey 1).bytes⟩).2.1
    _ _ namedSaro hpublish hasked
  have hone : w.core.staged ⟨(Reference.someKey 1).bytes⟩ = some [.setDisplayName "Saro"] := by
    decide +kernel
  have hdropped : w.core.dropped ⟨(Reference.someKey 1).bytes⟩ = none := by decide +kernel
  rw [hone] at hstaged
  obtain rfl := Option.some.inj hstaged
  have hfetch : (w₁.store.fetch ⟨(Reference.someKey 1).bytes⟩).1 = .ok (some namedSaro) := by
    decide +kernel
  rcases (hrest w₁ rfl hfetch).2 r w₂ hagain with hrefused | ⟨hr, hemptied⟩
  · exact .inl hrefused
  · rw [hdropped] at hr
    exact .inr ⟨hr, hemptied⟩

end AccountLogUi.Manager
