import AccountLogUi.Manager.Equiv.Shows
import AccountLogUi.Manager.Equiv.Sizes

/-!
# The preview is what lands

Pending rows are numbered from the rows of the log and sized one entry at a time; what a publish
writes is pushed onto a draft, encoded as a whole and read back.  `rows_of_plan` says the rows of
the log written are those of the log before, the revoked ones no longer live, with the pending rows
after them.

`preview_is_what_lands` is for a log that is up to date: the store serves what the app shows.
-/

namespace AccountLogUi.Manager

variable {Addr : Type} {C : Crates Addr} {entries : List AccountEntry}

/-! ### Rows -/

/-- A row, without the name it gave way to. -/
def bare (row : EntryRow) : EntryRow := { row with supersededBy := none }

/-- A row, no longer live where its entry is revoked. -/
def revoking (staged : List StagedEdit) (row : EntryRow) : EntryRow :=
  { row with live := row.live && decide (.revoke row.index ∉ staged) }

theorem bare_marked (name : Option Name) (previous : List Name) (row : EntryRow) :
    bare (marked name previous row) = bare row := by
  unfold marked
  split <;> rfl

theorem bare_markSuperseded (name : Option Name) (previous : List Name) (rows : List EntryRow)
    (h : name = none → previous = []) :
    (markSuperseded name previous rows).map bare = rows.map bare := by
  rw [markSuperseded_map name previous rows h, List.map_map]
  exact List.map_congr_left fun row _ => bare_marked name previous row

theorem length_markSuperseded (name : Option Name) (previous : List Name) (rows : List EntryRow)
    (h : name = none → previous = []) :
    (markSuperseded name previous rows).length = rows.length := by
  rw [markSuperseded_map name previous rows h, List.length_map]

theorem getElem?_pendingRows (planned : List AccountEntry) (base i : ℕ) :
    (pendingRows C planned base)[i]? = planned[i]?.map fun entry =>
      rowFrom C (base + i) entry (match entry with
        | .remove _ => false
        | _ => true) := by
  unfold pendingRows
  exact List.getElem?_mapIdx

theorem length_rowsFromDraft (draft : AccountLogDraft) :
    (rowsFromDraft C draft).length = draft.entries.length := by
  rw [rowsFromDraft, List.length_map, indexed, List.length_mapIdx]

/-- The rows of a log with a plan after it. -/
theorem rows_of_plan (hL : C.LogLaws) {staged : List StagedEdit} (hread : C.Readable entries)
    (htakes : Takes C entries staged) : rowsFromDraft C ⟨entries ++ plan staged⟩ =
      (rowsFromDraft C ⟨entries⟩).map (revoking staged) ++
        pendingRows C (plan staged) entries.length := by
  have hlength : ((rowsFromDraft C ⟨entries⟩).map (revoking staged)).length = entries.length := by
    rw [List.length_map, length_rowsFromDraft]
  ext1 i
  rw [getElem?_rowsFromDraft hL]
  dsimp only
  rcases Nat.lt_or_ge i entries.length with hlt | hge
  · rw [List.getElem?_append_left hlt, List.getElem?_append_left (hlength ▸ hlt), List.getElem?_map,
      getElem?_rowsFromDraft hL, List.getElem?_eq_getElem hlt]
    have hlive : isLive (entries ++ plan staged) i =
        (isLive entries i && decide (.revoke i ∉ staged)) := by
      rw [Bool.eq_iff_iff, isLive_before_plan hlt, Bool.and_eq_true, decide_eq_true_iff]
    dsimp only [Option.map_some]
    rw [hlive]
    rfl
  · obtain ⟨offset, rfl⟩ := Nat.exists_eq_add_of_le hge
    rw [List.getElem?_append_right hge, Nat.add_sub_cancel_left,
      List.getElem?_append_right (hlength ▸ hge), hlength, Nat.add_sub_cancel_left,
      getElem?_pendingRows]
    cases hentry : (plan staged)[offset]? with
    | none => rfl
    | some entry =>
      -- What is planned is a removal, which is never live, or an addition, which is.
      have hsome : (entries ++ plan staged)[entries.length + offset]? = some entry := by
        rw [List.getElem?_append_right hge, Nat.add_sub_cancel_left, hentry]
      dsimp only [Option.map_some]
      cases entry with
      | add context data => rw [isLive_planned hL hread htakes hentry]
      | remove index =>
        have hdead : isLive (entries ++ plan staged) (entries.length + offset) = false := by
          unfold isLive
          rw [hsome]
        rw [hdead]
      | unknown opcode body =>
        obtain ⟨edit, -, hedit⟩ := mem_plan.mp (List.mem_of_getElem? hentry)
        cases edit <;> cases hedit

/-! ### What is shown -/

variable {core : AccountCore Addr} {addr : Addr}

/-- The rows shown of a log this build can read. -/
theorem entries_stateOf (hread : C.Readable (heldEntries (core.record addr)))
    (held : Option (StoredAccount Addr)) :
    (stateOf C core addr held).entries.map bare =
        (rowsFromDraft C ⟨heldEntries (core.record addr)⟩).map bare ∧
      (stateOf C core addr held).entries.length = (heldEntries (core.record addr)).length := by
  have hnames : ∀ names : List Name, names.getLast? = none → names.dropLast.reverse = [] := by
    intro names hnone
    rw [List.getLast?_eq_none_iff.mp hnone]
    rfl
  have hrows : (logRows C ((core.record addr).map (·.log))).1 =
      rowsFromDraft C ⟨heldEntries (core.record addr)⟩ := by
    cases hrecord : core.record addr with
    | none => rfl
    | some record =>
      rw [hrecord] at hread
      show (logRows C (some ⟨heldEntries (some record)⟩)).1 = _
      rw [logRows_of_ok hread]
  unfold stateOf
  dsimp only
  rw [bare_markSuperseded _ _ _ (hnames _), length_markSuperseded _ _ _ (hnames _), hrows,
    length_rowsFromDraft]
  exact ⟨rfl, rfl⟩

/-- The pending rows are the plan's, numbered from the end of the log. -/
theorem pending_stateOf (hread : C.Readable (heldEntries (core.record addr)))
    (held : Option (StoredAccount Addr)) : (stateOf C core addr held).pending =
      pendingRows C (core.plannedEntries addr) (heldEntries (core.record addr)).length := by
  rw [← (entries_stateOf hread held).2]
  rfl

/-- The size shown is that of the log's payload. -/
theorem logBytes_stateOf (hL : C.LogLaws) (hA : C.AccountLaws) (hsound : Sound C core)
    (held : Option (StoredAccount Addr)) : (stateOf C core addr held).logBytes =
      (C.payloadOf (heldEntries (core.record addr))).length := by
  show (core.record addr).elim _ _ = _
  cases hrecord : core.record addr with
  | none =>
    show domainBytes C = _
    rw [length_payloadOf]
    rfl
  | some record =>
    have hverify := hsound.resolver addr record (record_eq_some.mp hrecord).2
    show record.signedLog.payload.length = _
    rw [hL.decode_payload (hA.verify_decode hverify)]
    rfl

/-! ### A log that is up to date -/

variable [DecidableEq Addr] {w w' : World Addr}

/-- The store serves the log the app shows of the account, which this build can read, or neither has
one. -/
inductive UpToDate (C : Crates Addr) (w : World Addr) (addr : Addr) : Prop
  | unpublished (hheld : w.core.resolver addr = none)
      (hserved : (w.store.fetch addr).1 = .ok none)
  | published {record : AccountRecord} {signed : SignedAccountLog}
      (hrecord : w.core.record addr = some record) (hread : C.Readable record.log.entries)
      (hserved : (w.store.fetch addr).1 = .ok (some signed))
      (hverify : C.verify addr signed = .ok record.log)

theorem UpToDate.readable (hL : C.LogLaws) (h : UpToDate C w addr) :
    C.Readable (heldEntries (w.core.record addr)) := by
  cases h with
  | unpublished hheld hserved =>
    unfold AccountCore.record
    rw [hheld]
    exact Crates.readable_nil hL
  | published hrecord hread hserved hverify =>
    rw [hrecord]
    exact hread

/-- A read brings what is shown already, and leaves all of the edits staged to do. -/
theorem UpToDate.landed (hL : C.LogLaws) (hA : C.AccountLaws) (hsound : Sound C w.core)
    (h : UpToDate C w addr) {held : Option AccountRecord} (hlanded : Landed C addr held w w') :
    heldEntries held = heldEntries (w.core.record addr) ∧
      leftToDo C held ((w.core.staged addr).getD []) = (w.core.staged addr).getD [] := by
  obtain ⟨fetched, hfetch, hresolve⟩ := hlanded.resolved
  cases h with
  | unpublished hheld hserved =>
    rw [hserved] at hfetch
    obtain rfl := Except.ok.inj hfetch
    rw [hheld, hA.resolve_none] at hresolve
    obtain rfl := Except.ok.inj hresolve
    unfold AccountCore.record
    rw [hheld]
    exact ⟨rfl, rfl⟩
  | @published record signed hrecord hread hserved hverify =>
    rw [hserved] at hfetch
    obtain rfl := Except.ok.inj hfetch
    obtain ⟨hanswered, hheld⟩ := record_eq_some.mp hrecord
    have hextends : ∀ record', w.core.resolver addr = some record' →
        record'.log.entries <+: record.log.entries := by
      intro record' hrecord'
      rw [hheld] at hrecord'
      rw [Option.some.inj hrecord']
    rw [hA.resolve_extends hverify hextends] at hresolve
    obtain rfl := Except.ok.inj hresolve
    rw [hrecord]
    -- The log served is the one shown, on which every edit staged is still to be done.
    refine ⟨rfl, (@leftToDo_readable _ C ⟨record.log, signed⟩ hread _).trans
      (List.filter_eq_self.mpr ?_)⟩
    have hstaged := hsound.staged addr
    rw [hheld, hanswered] at hstaged
    intro edit hmem
    refine (needed_iff hL).mpr ?_
    cases edit with
    | revoke index =>
      obtain ⟨record', heq, -, hlive⟩ := hstaged.revoke index hmem
      obtain rfl := Option.some.inj heq
      exact hlive hread
    | addInstallation key => exact hstaged.notLive (.inl rfl) record rfl hread key hmem
    | setDisplayName name => exact hstaged.otherName rfl record rfl hread name hmem

theorem UpToDate.settled (hL : C.LogLaws) (hA : C.AccountLaws) (hsound : Sound C w.core)
    (h : UpToDate C w addr) {held : Option AccountRecord} (hlanded : Landed C addr held w w') :
    (w'.core.staged addr).getD [] = (w.core.staged addr).getD [] ∧
      (w'.core.dropped addr).getD 0 = (w.core.dropped addr).getD 0 := by
  obtain ⟨-, hleft⟩ := h.landed hL hA hsound hlanded
  have hstaged := @getD_staged_settle _ C _ (w.core.landed addr held w.now) addr
  have hdropped := @getD_dropped_settle _ C _ (w.core.landed addr held w.now) addr
  rw [landed_record] at hstaged hdropped
  have hsame : (w.core.landed addr held w.now).staged = w.core.staged := rfl
  rw [hsame, hleft] at hstaged hdropped
  rw [hlanded.core]
  exact ⟨hstaged, Nat.add_right_cancel hdropped⟩

/-- What a publish does that writes on top of the log shown. -/
structure Wrote.OnTop (C : Crates Addr) (addr : Addr) (published : Published) (w w' : World Addr) :
    Prop where
  answer : published = ⟨some (heldEntries (w.core.record addr)).length,
    (w.core.dropped addr).getD 0⟩
  takes : Takes C (heldEntries (w.core.record addr)) ((w.core.staged addr).getD [])
  log : heldEntries (w'.core.record addr) =
    heldEntries (w.core.record addr) ++ w.core.plannedEntries addr
  readable : C.Readable (heldEntries (w'.core.record addr))
  size : (C.payloadOf (heldEntries (w'.core.record addr))).length ≤ C.maxPayloadBytes
  sound : Sound C w'.core
  staged : w'.core.staged addr = none
  written : w'.core.written = none
  asked : ∃ signed, w'.asked = .published addr signed :: .fetched addr :: w.asked

theorem UpToDate.publish (hV : C.VaultLaws) (hL : C.LogLaws) (hA : C.AccountLaws)
    (hsound : Sound C w.core) (hwritten : w.core.written = none) (h : UpToDate C w addr)
    {published : Published} (hrun : (publish C addr).on w = (.ok published, w')) :
    Wrote.OnTop C addr published w w' := by
  have hsteps := publish_steps hV hwritten hrun
  generalize hanswer : Except.ok published = r at hrun
  cases publish_outcome hV hwritten hrun with
  | refused | unread | unfit => cases hanswer
  | nothing hadmitted hlanded hnone =>
    -- Nothing the app had to do was done already, so there is something to write.
    have hsettled := (h.settled hL hA hsound hlanded).1
    rw [hnone] at hsettled
    exact absurd hsettled.symm hadmitted.staged
  | @written key held update r w₁ w' hadmitted hlanded hkey hplan hwrite =>
    subst hanswer
    have hplanned := Planned.of_plan hV hL hA hsound hwritten hplan
    have hsound₁ := hlanded.sound hL hA hsound
    have hshown : heldEntries (w₁.core.resolver addr) = heldEntries (w.core.record addr) := by
      rw [hlanded.resolver hL, Function.update_self]
      exact (h.landed hL hA hsound hlanded).1
    obtain ⟨hstaged, hdropped⟩ := h.settled hL hA hsound hlanded
    have hentries : update.entries = w.core.plannedEntries addr := by
      obtain ⟨staged, hsome, hentries⟩ := hplanned.staged
      rw [hsome] at hstaged
      rw [hentries, AccountCore.plannedEntries, ← hstaged]
      rfl
    have htakes := hplanned.takes
    have hreadable := hplanned.readable_append hL
    have hsize := hplanned.size
    obtain ⟨signed, -, ⟨e, hr, -⟩ | ⟨hwrote, hr, hcore⟩⟩ := hplanned.writes hL hA hsound₁ hwrite
    · cases hr
    rw [hplanned.firstNew, hdropped, hshown] at hr
    rw [hshown, hstaged] at htakes
    rw [hshown, hentries] at hreadable hsize
    have hrecord : w'.core.record addr =
        some ⟨⟨heldEntries (w.core.record addr) ++ w.core.plannedEntries addr⟩, signed⟩ := by
      have hanswered : w'.core.answered addr = true := by
        rw [hcore]
        exact hplanned.answered
      rw [record_of_answered hanswered, hcore, ← hshown, ← hentries]
      exact Function.update_self ..
    have hlog : heldEntries (w'.core.record addr) =
        heldEntries (w.core.record addr) ++ w.core.plannedEntries addr := by
      rw [hrecord]
      rfl
    refine ⟨Except.ok.inj hr, htakes, hlog, hlog ▸ hreadable, hlog ▸ hsize,
      hsound.steps hL hA hsteps, ?_, ?_, signed, ?_⟩
    · rw [hcore]
      exact Function.update_self ..
    · exact hsteps.written_eq.trans hwritten
    · rw [hwrote.asked, hplanned.key, hlanded.asked]

/-! ### What lands -/

/-- What is drawn after a publish is what was drawn before it: the rows of the log, the revoked ones
no longer live, then the pending ones, and nothing is pending any more. -/
structure Lands (staged : List StagedEdit) (before after : AccountState) : Prop where
  entries : after.entries.map bare =
    (before.entries.map (revoking staged)).map bare ++ before.pending.map bare
  pending : after.pending = []
  logBytes : after.logBytes = before.logBytes + (before.pending.map (·.bytes)).sum

theorem bare_revoking (staged : List StagedEdit) (rows : List EntryRow) :
    (rows.map (revoking staged)).map bare = (rows.map bare).map (revoking staged) := by
  rw [List.map_map, List.map_map]
  rfl

omit [DecidableEq Addr] in
theorem Wrote.OnTop.lands (hL : C.LogLaws) (hA : C.AccountLaws) {published : Published}
    (hsound : Sound C w.core) (hread : C.Readable (heldEntries (w.core.record addr)))
    (h : Wrote.OnTop C addr published w w') (held held' : Option (StoredAccount Addr)) :
    Lands ((w.core.staged addr).getD []) (stateOf C w.core addr held)
      (stateOf C w'.core addr held') where
  entries := by
    have hrows : rowsFromDraft C ⟨heldEntries (w'.core.record addr)⟩ = _ :=
      h.log ▸ rows_of_plan hL hread h.takes
    rw [(entries_stateOf h.readable held').1, bare_revoking, (entries_stateOf hread held).1,
      pending_stateOf hread held, hrows, List.map_append, bare_revoking]
    rfl
  pending := by
    rw [pending_stateOf h.readable held', AccountCore.plannedEntries, h.staged]
    rfl
  logBytes := by
    have hbytes : (pendingRows C (w.core.plannedEntries addr)
        (heldEntries (w.core.record addr)).length).map (·.bytes) =
          (w.core.plannedEntries addr).map fun entry => (C.entryBytes entry).length := by
      rw [bytes_pendingRows]
      refine List.map_congr_left fun entry hmem => entrySize_of_mem hL h.readable h.size ?_
      rw [h.log]
      exact List.mem_append_right _ hmem
    rw [logBytes_stateOf hL hA h.sound, logBytes_stateOf hL hA hsound,
      pending_stateOf hread, hbytes,
      h.log, length_payloadOf, length_payloadOf, List.map_append, List.sum_append]
    omega

/-- In every run, where the store serves the log the app shows of an account, or neither has one, a
publish that answers and whose write is the only one since lands what was previewed: it answers with
the number of rows shown, drops nothing, and what is drawn next is what was drawn, the revoked rows
no longer live, with the pending rows after it.  The store is read once, before the write, and the
next read asks it again. -/
theorem preview_is_what_lands (hV : C.VaultLaws) (hL : C.LogLaws) (hA : C.AccountLaws)
    (h : Reachable C w) (hupToDate : UpToDate C w addr) {published : Published}
    (hrun : (publish C addr).on w = (.ok published, w')) {before after : AccountState}
    {w₁ w₂ : World Addr} (hbefore : (state C addr).on w = (.ok before, w₁))
    (hafter : (state C addr).on w' = (.ok after, w₂)) :
    published = ⟨some before.entries.length, (w.core.dropped addr).getD 0⟩ ∧
      Lands ((w.core.staged addr).getD []) before after ∧
      (∃ signed, w'.asked = .published addr signed :: .fetched addr :: w.asked) ∧
      w'.core.written = none ∧ (w'.fetch addr).2.asked = .fetched addr :: w'.asked := by
  have hsound := h.sound hV hL hA
  have hread := hupToDate.readable hL
  have hwrote := hupToDate.publish hV hL hA hsound (h.written_eq hV hA) hrun
  obtain ⟨held, rfl⟩ := state_stateOf hbefore
  obtain ⟨held', rfl⟩ := state_stateOf hafter
  refine ⟨?_, hwrote.lands hL hA hsound hread held held', hwrote.asked, hwrote.written, ?_⟩
  · rw [hwrote.answer, (entries_stateOf hread held).2]
  · rw [fetch_eq hwrote.written]

theorem renamedTwice_upToDate :
    UpToDate Crates.reference renamedTwice ⟨(Reference.someKey 1).bytes⟩ := by
  have hserved : (renamedTwice.core.record ⟨(Reference.someKey 1).bytes⟩).any (fun record =>
      decide (Crates.reference.fromLog record.log = .ok ⟨record.log.entries⟩) &&
        decide ((renamedTwice.store.fetch ⟨(Reference.someKey 1).bytes⟩).1 =
          .ok (some record.signedLog))) = true := by
    decide +kernel
  have hreachable : Reachable Crates.reference renamedTwice := (Reachable.fresh rfl).runs _
  have hsound := hreachable.sound Reference.vaultLaws Reference.logLaws Reference.accountLaws
  obtain ⟨record, hrecord, hfacts⟩ := (Option.any_eq_true ..).mp hserved
  rw [Bool.and_eq_true, decide_eq_true_iff, decide_eq_true_iff] at hfacts
  exact .published hrecord hfacts.1 hfacts.2
    (hsound.resolver _ record (record_eq_some.mp hrecord).2)

/-- The name published is revoked, and the one that replaces it comes after it. -/
theorem preview_is_what_lands_renamed : ∃ published w' before after,
    (publish Crates.reference ⟨(Reference.someKey 1).bytes⟩).on renamedTwice = (.ok published, w') ∧
      published.firstNewIndex = some 1 ∧
      Lands ((renamedTwice.core.staged ⟨(Reference.someKey 1).bytes⟩).getD []) before after := by
  have hfacts : ((publish Crates.reference ⟨(Reference.someKey 1).bytes⟩).on
        renamedTwice).1.toOption.bind (·.firstNewIndex) = some 1 ∧
      ((state Crates.reference ⟨(Reference.someKey 1).bytes⟩).on
        renamedTwice).1.toOption.isSome = true ∧
      ((state Crates.reference ⟨(Reference.someKey 1).bytes⟩).on
        ((publish Crates.reference ⟨(Reference.someKey 1).bytes⟩).on
          renamedTwice).2).1.toOption.isSome = true := by
    decide +kernel
  have hupToDate := renamedTwice_upToDate
  have hreachable : Reachable Crates.reference renamedTwice := (Reachable.fresh rfl).runs _
  generalize renamedTwice = w at *
  obtain ⟨hfirst, hbefore, hafter⟩ := hfacts
  rcases hpublish : (publish Crates.reference ⟨(Reference.someKey 1).bytes⟩).on w with ⟨r, w'⟩
  rw [hpublish] at hfirst hafter
  rcases hshown : (state Crates.reference ⟨(Reference.someKey 1).bytes⟩).on w with ⟨b, w₁⟩
  rw [hshown] at hbefore
  rcases hshown' : (state Crates.reference ⟨(Reference.someKey 1).bytes⟩).on w' with ⟨a, w₂⟩
  rw [hshown'] at hafter
  rcases r with e | published
  · cases hfirst
  rcases b with e | before
  · cases hbefore
  rcases a with e | after
  · cases hafter
  have h := preview_is_what_lands Reference.vaultLaws Reference.logLaws Reference.accountLaws
    hreachable hupToDate hpublish hshown hshown'
  exact ⟨published, w', before, after, rfl, hfirst, h.2.1⟩

end AccountLogUi.Manager
