import AccountLogUi.Manager.Equiv.Signing
import AccountLogUi.View.Equiv.Foretold

/-!
# What is shown of an account only grows

A store may answer with anything: an old log, one forked off, one of another account.  The resolver
adopts a log only where it checks against the account and goes on where the one held ends, and it
keeps what it holds when the account is forgotten, so nothing the screens showed of an account is
taken back for as long as the app runs.

`held_log_grows` says so of the logs held, and `Authentic.grown` what follows for what is drawn.
-/

namespace AccountLogUi

open Manager View

variable {Addr : Type} {C : Crates Addr}

/-! ### What is drawn of a log that grew -/

/-- What is drawn is a log that checks against the account. -/
structure Authentic (C : Crates Addr) (addr : Addr) (log : AccountLog) (shown : AccountState) :
    Prop extends ShowsLog C log shown where
  signed : ∃ signed, C.verify addr signed = .ok log ∧ shown.logBytes = signed.payload.length
  names : ∀ name, name ∈ namesOf shown ↔ NameLive log.entries name.index name.value

/-- What a row says of its entry for good: all but whether it is live, and what it gave way to. -/
def lasting (row : EntryRow) : EntryRow := { row with live := false, supersededBy := none }

/-- Every row shown is of an entry before that one. -/
def AllBefore (shown : AccountState) (index : ℕ) : Prop := ∀ row ∈ shown.entries, row.index < index

/-- What is shown after went on from what was shown before. -/
structure Grown (before after : AccountState) : Prop where
  logBytes : before.logBytes ≤ after.logBytes
  /-- No row is drawn that was not, unless it is of a later entry, and none is live again. -/
  rows : ∀ row ∈ after.entries, AllBefore before row.index ∨
    ∃ earlier ∈ before.entries, lasting row = lasting earlier ∧
      (row.live = true → earlier.live = true)
  /-- No row is lost, while the log can be read. -/
  kept : after.unreadable = none →
    before.entries.map lasting <+: after.entries.map lasting
  unreadable : after.unreadable = none → before.unreadable = none
  removedBy : after.unreadable = none → ∀ index, View.removedBy before index ≠ -1 →
    View.removedBy after index = View.removedBy before index
  /-- No key comes back. -/
  installations : ∀ installation ∈ after.installations,
    installation ∈ before.installations ∨ AllBefore before installation.index
  names : ∀ name ∈ namesOf after, name ∈ namesOf before ∨ AllBefore before name.index

section

variable {addr : Addr} {log log' : AccountLog} {before after : AccountState}

theorem Manager.IsRow.lt {row : EntryRow} (h : IsRow C log.entries row) :
    row.index < log.entries.length := by
  obtain ⟨entry, hentry, -⟩ := h.entry
  exact (List.getElem?_eq_some_iff.mp hentry).1

/-- Two rows of one entry say the same for good. -/
theorem Manager.IsRow.lasting_eq {row row' : EntryRow} (h : IsRow C log.entries row)
    (h' : IsRow C log'.entries row') (hextends : log.entries <+: log'.entries)
    (hindex : row'.index = row.index) : lasting row' = lasting row := by
  obtain ⟨entry, hentry, hrow⟩ := h.eq_rowFrom
  obtain ⟨entry', hentry', hrow'⟩ := h'.eq_rowFrom
  obtain ⟨more, hmore⟩ := hextends
  have hsame : entry' = entry := by
    rw [hindex, ← hmore, List.getElem?_append_left (List.getElem?_eq_some_iff.mp hentry).1,
      hentry] at hentry'
    exact (Option.some.inj hentry').symm
  rw [hrow, hrow', hsame, hindex]
  rfl

namespace Authentic

/-- The rows drawn are of entries the log has. -/
theorem isRow (h : Authentic C addr log before) {row : EntryRow} (hmem : row ∈ before.entries) :
    IsRow C log.entries row := by
  cases hread : C.fromLog log with
  | ok draft =>
    obtain ⟨i, hi⟩ := List.mem_iff_getElem?.mp hmem
    exact ((h.readable draft hread).2.2 i row hi).2.1
  | error e => exact (h.unreadable e hread).2.2.1 row hmem

theorem allBefore (h : Authentic C addr log before) {index : ℕ}
    (hindex : log.entries.length ≤ index) : AllBefore before index := by
  intro row hmem
  have hlt := (h.isRow hmem).lt
  omega

theorem unreadable_eq_none (h : Authentic C addr log before) :
    before.unreadable = none ↔ ∃ draft, C.fromLog log = .ok draft := by
  cases hread : C.fromLog log with
  | ok draft => simp [(h.readable draft hread).1]
  | error e => simp [(h.unreadable e hread).1]

/-- An entry drawn before is drawn by a row there was. -/
theorem row_before (h : Authentic C addr log before) (h' : Authentic C addr log' after)
    (hread : ∀ {draft}, C.fromLog log' = .ok draft → ∃ draft', C.fromLog log = .ok draft')
    (hextends : log.entries <+: log'.entries) {row : EntryRow} (hmem : row ∈ after.entries)
    (hlt : row.index < log.entries.length) : ∃ earlier ∈ before.entries,
      earlier.index = row.index := by
  cases hbefore : C.fromLog log with
  | ok draft =>
    obtain ⟨-, hlength, hrows⟩ := h.readable draft hbefore
    have hsome : before.entries[row.index]? = some before.entries[row.index] :=
      List.getElem?_eq_getElem (by omega)
    exact ⟨_, List.mem_of_getElem? hsome, (hrows _ _ hsome).1⟩
  | error e =>
    -- A log that cannot be read cannot be read again, so the row is of a live entry now and then.
    cases hafter : C.fromLog log' with
    | ok draft =>
      obtain ⟨draft', hdraft'⟩ := hread hafter
      rw [hbefore] at hdraft'
      cases hdraft'
    | error e' =>
      obtain ⟨-, -, -, hedited⟩ := h.unreadable e hbefore
      obtain ⟨-, -, -, hedited'⟩ := h'.unreadable e' hafter
      obtain ⟨hlive, context, data, hentry, hcontext⟩ := (hedited' row.index).mp ⟨row, hmem, rfl⟩
      obtain ⟨more, hmore⟩ := hextends
      rw [← hmore, List.getElem?_append_left hlt] at hentry
      have hlive' : isLive log.entries row.index = true :=
        isLive_of_prefix ⟨more, hmore⟩ hlt hlive
      exact (hedited row.index).mpr ⟨hlive', context, data, hentry, hcontext⟩

/-- The rows of a log that can be read, one an entry. -/
theorem map_lasting (h : Authentic C addr log before) {draft : AccountLogDraft}
    (hread : C.fromLog log = .ok draft) : before.entries.map lasting =
      (indexed log.entries).map fun e => lasting (rowFrom C e.index e.entry false) := by
  obtain ⟨-, hlength, hrows⟩ := h.readable draft hread
  unfold indexed
  apply List.ext_getElem?
  intro i
  rw [List.getElem?_map, List.getElem?_map, List.getElem?_mapIdx]
  cases hrow : before.entries[i]? with
  | none =>
    rw [List.getElem?_eq_none_iff] at hrow
    rw [List.getElem?_eq_none (by omega)]
    rfl
  | some row =>
    obtain ⟨rfl, hisRow, -⟩ := hrows i row hrow
    obtain ⟨entry, hentry, hrow'⟩ := hisRow.eq_rowFrom
    rw [hentry]
    show some (lasting row) = some (lasting (rowFrom C row.index entry false))
    rw [hrow']
    rfl

/-- A log that goes on from another shows all the other showed. -/
theorem grown (hL : C.LogLaws) (hA : C.AccountLaws) (h : Authentic C addr log before)
    (h' : Authentic C addr log' after) (hextends : log.entries <+: log'.entries) :
    Grown before after := by
  have hread : ∀ {draft}, C.fromLog log' = .ok draft → ∃ draft', C.fromLog log = .ok draft' := by
    intro draft hdraft
    obtain ⟨more, hmore⟩ := hextends
    have hlog' : log' = ⟨log.entries ++ more⟩ := by rw [hmore]
    rw [hlog'] at hdraft
    exact hL.fromLog_of_append hdraft
  have hlive : ∀ {index}, index < log.entries.length → isLive log'.entries index = true →
      isLive log.entries index = true := fun hlt => isLive_of_prefix hextends hlt
  have hentry : ∀ {index}, index < log.entries.length →
      log'.entries[index]? = log.entries[index]? := by
    intro index hlt
    obtain ⟨more, hmore⟩ := hextends
    rw [← hmore, List.getElem?_append_left hlt]
  have hkept : after.unreadable = none →
      before.entries.map lasting <+: after.entries.map lasting := by
    intro hnone
    obtain ⟨draft, hdraft⟩ := h'.unreadable_eq_none.mp hnone
    obtain ⟨draft', hdraft'⟩ := hread hdraft
    obtain ⟨more, hmore⟩ := hextends
    rw [h.map_lasting hdraft', h'.map_lasting hdraft, ← hmore, indexed_append, List.map_append]
    exact List.prefix_append _ _
  refine {
    logBytes := ?_
    rows := fun row hmem => ?_
    kept := hkept
    unreadable := fun hnone => ?_
    removedBy := fun hnone index hremoved => ?_
    installations := fun installation hmem => ?_
    names := fun name hmem => ?_ }
  -- The size is that of the payload, and a longer log has a longer one.
  · obtain ⟨signed, hverify, hbytes⟩ := h.signed
    obtain ⟨signed', hverify', hbytes'⟩ := h'.signed
    rw [hbytes, hbytes', hL.decode_payload (hA.verify_decode hverify),
      hL.decode_payload (hA.verify_decode hverify')]
    exact (Crates.payloadOf_prefix hextends).length_le
  -- A row past the end of the log before is new; any other stood in it.
  · rcases Nat.lt_or_ge row.index log.entries.length with hlt | hge
    · obtain ⟨earlier, hearlier, hindex⟩ := h.row_before h' hread hextends hmem hlt
      refine .inr ⟨earlier, hearlier,
        (h.isRow hearlier).lasting_eq (h'.isRow hmem) hextends hindex.symm, fun hrow => ?_⟩
      rw [(h'.isRow hmem).live] at hrow
      rw [(h.isRow hearlier).live, hindex]
      exact hlive hlt hrow
    · exact .inl (h.allBefore hge)
  · obtain ⟨draft, hdraft⟩ := h'.unreadable_eq_none.mp hnone
    exact h.unreadable_eq_none.mpr (hread hdraft)
  -- The first revocation of an entry in the rows before is still the first.
  · obtain ⟨more, hmore⟩ := hkept hnone
    have hsame : ∀ rows, revocation index (rows.map lasting) = revocation index rows :=
      revocation_map (f := lasting) (fun _ => ⟨rfl, rfl, rfl⟩) index
    rw [removedBy_eq] at hremoved
    rw [removedBy_eq, removedBy_eq, ← hsame after.entries, ← hmore, revocation_append, hsame,
      if_neg hremoved]
  · rcases Nat.lt_or_ge installation.index log.entries.length with hlt | hge
    · obtain ⟨bytes, hadd, hyes, hkey⟩ := (h'.installations installation).mp hmem
      rw [hentry hlt] at hadd
      exact .inl ((h.installations installation).mpr ⟨bytes, hadd, hlive hlt hyes, hkey⟩)
    · exact .inr (h.allBefore hge)
  · rcases Nat.lt_or_ge name.index log.entries.length with hlt | hge
    · obtain ⟨hadd, hyes⟩ := (h'.names name).mp hmem
      rw [hentry hlt] at hadd
      exact .inl ((h.names name).mpr ⟨hadd, hlive hlt hyes⟩)
    · exact .inr (h.allBefore hge)

end Authentic

end

/-! ### What is held of a log -/

variable [DecidableEq Addr] {w w' start : World Addr} {addr : Addr}

omit [DecidableEq Addr] in
/-- What is adopted goes on where what was held ends. -/
theorem resolve_grows (hA : C.AccountLaws) {held held' : Option AccountRecord}
    {fetched : Option SignedAccountLog} (h : C.resolve addr held fetched = .ok held') :
    heldEntries held <+: heldEntries held' := by
  rcases hA.resolve_adopts h with rfl | ⟨signed, log, -, -, rfl, hextends⟩
  · exact List.prefix_rfl
  · cases held with
    | none => exact List.nil_prefix
    | some record => exact hextends record rfl

/-- No change takes anything from a log held. -/
theorem AccountCore.Step.held_log_grows (hA : C.AccountLaws) {core core' : AccountCore Addr}
    (h : Step C core core') (addr : Addr) :
    heldEntries (core.resolver addr) <+: heldEntries (core'.resolver addr) := by
  have hadopts : ∀ {addr' : Addr} {fetched held}, C.resolve addr' (core.resolver addr') fetched =
      .ok held → heldEntries (core.resolver addr) <+:
        heldEntries (Function.update core.resolver addr' held addr) := by
    intro addr' fetched held hresolve
    by_cases haddr : addr = addr'
    · subst haddr
      rw [Function.update_self]
      exact resolve_grows hA hresolve
    · rw [Function.update_of_ne haddr]
  cases h with
  | landed now hresolve =>
    rw [(settle_fields _ _).1]
    exact hadopts hresolve
  | published hresolve => exact hadopts hresolve
  | _ => exact List.prefix_rfl

theorem AccountCore.Steps.held_log_grows (hA : C.AccountLaws) {core core' : AccountCore Addr}
    (h : Steps C core core') (addr : Addr) :
    heldEntries (core.resolver addr) <+: heldEntries (core'.resolver addr) := by
  induction h with
  | refl => exact List.prefix_rfl
  | tail _ hstep ih => exact ih.trans (hstep.held_log_grows hA addr)

/-- What is held after an operation of a run is where what is held later starts. -/
theorem Run.held_log_grows (hV : C.VaultLaws) (hA : C.AccountLaws) (hstart : start.core = .new)
    {ps : List (Performed Addr)} (h : Run C start ps w) : ∀ p ∈ ps, ∀ addr,
      heldEntries (p.after.core.resolver addr) <+: heldEntries (w.core.resolver addr) := by
  induction h with
  | nil =>
    intro p hp
    cases hp
  | elsewhere _ hcore ih =>
    rw [hcore]
    exact ih
  | @op ps w op hrun ih =>
    intro p hp addr
    rcases List.mem_append.mp hp with hp | hp
    · have hsteps := op.steps hV hA ((hrun.reachable (.fresh hstart)).written_eq hV hA)
      exact (ih p hp addr).trans (hsteps.held_log_grows hA addr)
    · rw [List.mem_singleton.mp hp]
      exact List.prefix_rfl

/-- What is drawn is a log held, that checks. -/
theorem authentic_of_state (hL : C.LogLaws) (hsound : Sound C w.core) {shown : AccountState}
    (hstate : (state C addr).on w = (.ok shown, w')) (hpublished : shown.published = true) :
    ∃ record, w.core.record addr = some record ∧ Authentic C addr record.log shown := by
  obtain ⟨held, rfl⟩ := state_stateOf hstate
  obtain ⟨record, hrecord⟩ : ∃ record, w.core.record addr = some record :=
    Option.isSome_iff_exists.mp hpublished
  have hverify := hsound.resolver addr record (record_eq_some.mp hrecord).2
  refine ⟨record, hrecord, {
    toShowsLog := stateOf_shows hL hrecord held
    signed := ⟨record.signedLog, hverify, ?_⟩
    names := fun name => ?_ }⟩
  · show (w.core.record addr).elim _ _ = _
    rw [hrecord]
    rfl
  · rw [namesOf_stateOf hL, hrecord, List.mem_reverse]
    exact mem_liveDisplayNames hL

/-- An operation that draws an account draws it so, and leaves what is held. -/
theorem authentic_of_shown (hV : C.VaultLaws) (hL : C.LogLaws) (hA : C.AccountLaws)
    (hreach : Reachable C w) {op : CoreOp Addr} (hop : op = .state addr) {shown : AccountState}
    (hanswer : (op.perform C w).answer = .ok (.shown shown)) (hpublished : shown.published = true) :
    (op.perform C w).after.core = w.core ∧ ∃ record, w.core.resolver addr = some record ∧
      Authentic C addr record.log shown := by
  subst hop
  rcases hrun : (CoreOp.state addr).run C w with ⟨r, w'⟩
  have hafter : ((CoreOp.state addr).perform C w).after = w' := congrArg Prod.snd hrun
  have hr : r = .ok (.shown shown) := (congrArg Prod.fst hrun).symm.trans hanswer
  rw [hr] at hrun
  obtain ⟨shown', hstate, heq⟩ := Action.on_map_ok hrun
  obtain rfl := CoreAnswer.shown.inj heq
  obtain ⟨record, hrecord, hauthentic⟩ :=
    authentic_of_state hL (hreach.sound hV hL hA) hstate hpublished
  exact ⟨hafter ▸ (state_looked hstate).1.core, record, (record_eq_some.mp hrecord).2, hauthentic⟩

/-- In every run, whatever the store answers in it, what is shown of an account at one time checks
against the account, and what is shown at a later time went on from it: the account forgotten and
taken in again in between, or not. -/
theorem shown_logs_only_grow (hV : C.VaultLaws) (hL : C.LogLaws) (hA : C.AccountLaws)
    (hstart : start.core = .new) {earlier between later : List (Performed Addr)}
    {p q : Performed Addr} (h : Run C start (earlier ++ p :: (between ++ q :: later)) w)
    {before after : AccountState} (hp : p.op = .state addr)
    (hbefore : p.answer = .ok (.shown before))
    (hq : q.op = .state addr) (hafter : q.answer = .ok (.shown after))
    (hpublished : before.published = true) (hpublished' : after.published = true) :
    ∃ log log', Authentic C addr log before ∧ Authentic C addr log' after ∧
      log.entries <+: log'.entries ∧ Grown before after := by
  have hsplit : earlier ++ p :: (between ++ q :: later) =
      (earlier ++ p :: between) ++ q :: later := by
    rw [List.append_assoc, List.cons_append]
  obtain ⟨w₁, op, hrun, rfl⟩ := h.split rfl
  obtain ⟨w₂, op', hrun', rfl⟩ := h.split hsplit
  have hreach := hrun.reachable (.fresh hstart)
  have hreach' := hrun'.reachable (.fresh hstart)
  have hop : op = .state addr := hp
  obtain ⟨hcore, record, hheld, hshows⟩ := authentic_of_shown hV hL hA hreach hop hbefore hpublished
  obtain ⟨-, record', hheld', hshows'⟩ :=
    authentic_of_shown hV hL hA hreach' hq hafter hpublished'
  have hextends := hrun'.held_log_grows hV hA hstart (op.perform C w₁)
    (List.mem_append_right _ List.mem_cons_self) addr
  rw [hcore, hheld, hheld'] at hextends
  exact ⟨record.log, record'.log, hshows, hshows', hextends, hshows.grown hL hA hshows' hextends⟩

/-- A name is published, and another after it. -/
def onceNamed : World Reference.Addr :=
  CoreOp.runs Crates.reference [.createAccount (Reference.someKey 1) none 0,
    .stageSetDisplayName ⟨(Reference.someKey 1).bytes⟩ "Saro",
    .publish ⟨(Reference.someKey 1).bytes⟩] (World.start [])

def twiceNamed : World Reference.Addr :=
  CoreOp.runs Crates.reference [.stageSetDisplayName ⟨(Reference.someKey 1).bytes⟩ "Raya",
    .publish ⟨(Reference.someKey 1).bytes⟩] onceNamed

/-- The account drawn, if one was. -/
def Performed.drawn {Addr : Type} (p : Performed Addr) : Option AccountState :=
  match p.answer with
  | .ok (.shown shown) => some shown
  | _ => none

theorem Performed.answer_of_drawn {Addr : Type} {p : Performed Addr} {shown : AccountState}
    (h : p.drawn = some shown) : p.answer = .ok (.shown shown) := by
  unfold Performed.drawn at h
  split at h
  · next heq => rw [heq, Option.some.inj h]
  · cases h

/-- The account is drawn, and then the store goes back to the log of the first name. -/
def rolledBack : World Reference.Addr :=
  { ((CoreOp.state ⟨(Reference.someKey 1).bytes⟩).run Crates.reference twiceNamed).2 with
    store := onceNamed.store }

/-- A read of it is refused, and the second name stays on screen. -/
theorem shown_logs_only_grow_rolled_back : ∃ before after : AccountState,
    before.displayName = some "Raya" ∧ after.problem = some .forked ∧ Grown before after := by
  obtain ⟨earlier, hnamed⟩ : ∃ earlier, Run Crates.reference (World.start []) earlier twiceNamed :=
    ⟨_, (run_performs _ (World.start [])).performs _⟩
  have hrolled : Run Crates.reference (World.start []) _ rolledBack :=
    .elsewhere (hnamed.op (.state ⟨(Reference.someKey 1).bytes⟩)) (by rw [rolledBack])
  have hrun := (hrolled.op (.refresh ⟨(Reference.someKey 1).bytes⟩)).op
    (.state ⟨(Reference.someKey 1).bytes⟩)
  rw [List.append_assoc, List.append_assoc, List.singleton_append] at hrun
  have hfacts : ((CoreOp.state ⟨(Reference.someKey 1).bytes⟩).perform Crates.reference
        twiceNamed).drawn.any (fun before => decide (before.published = true) &&
          decide (before.displayName = some "Raya")) = true ∧
      ((CoreOp.state ⟨(Reference.someKey 1).bytes⟩).perform Crates.reference
        ((CoreOp.refresh ⟨(Reference.someKey 1).bytes⟩).run Crates.reference
          rolledBack).2).drawn.any (fun after => decide (after.published = true) &&
            decide (after.problem = some .forked)) = true := by
    decide +kernel
  obtain ⟨hbefore, hafter⟩ := hfacts
  have hop : ((CoreOp.state ⟨(Reference.someKey 1).bytes⟩).perform Crates.reference
    twiceNamed).op = .state ⟨(Reference.someKey 1).bytes⟩ := rfl
  have hop' : ((CoreOp.state ⟨(Reference.someKey 1).bytes⟩).perform Crates.reference
    ((CoreOp.refresh ⟨(Reference.someKey 1).bytes⟩).run Crates.reference
      rolledBack).2).op = .state ⟨(Reference.someKey 1).bytes⟩ := rfl
  have hstart : (World.start ([] : List (Reference.Addr × SignedAccountLog))).core = .new := rfl
  generalize (CoreOp.state _).perform Crates.reference twiceNamed = p at *
  generalize (CoreOp.state _).perform Crates.reference _ = q at *
  obtain ⟨before, hdrawn, hbefore⟩ := (Option.any_eq_true ..).mp hbefore
  obtain ⟨after, hdrawn', hafter⟩ := (Option.any_eq_true ..).mp hafter
  rw [Bool.and_eq_true, decide_eq_true_iff, decide_eq_true_iff] at hbefore hafter
  obtain ⟨-, -, -, -, -, hgrown⟩ := shown_logs_only_grow Reference.vaultLaws Reference.logLaws
    Reference.accountLaws hstart hrun hop (Performed.answer_of_drawn hdrawn) hop'
    (Performed.answer_of_drawn hdrawn') hbefore.1 hafter.1
  exact ⟨before, after, hbefore.2, hafter.2, hgrown⟩

end AccountLogUi
