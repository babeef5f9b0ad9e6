import AccountLogUi.Manager.Equiv.Log
import AccountLogUi.Manager.Equiv.Steps

/-!
# What is staged can be written

`StagedFor` is what holds of the edits staged for an account, against the log the resolver holds:
distinct edits, one rename at most, revocations of live entries, keys that are not live.  `Sound`
says it of every account, with what holds of the keys and the records; every change to the app's
own state keeps it (`Sound.step`), so it holds throughout a run (`Reachable.sound`).
-/

namespace AccountLogUi

namespace Manager

open AccountCore (Step)

variable {Addr : Type} {C : Crates Addr}

/-! ### The invariant -/

/-- What holds of a list of staged edits whatever the log. -/
structure WellFormed (C : Crates Addr) (staged : List StagedEdit) : Prop where
  nodup : staged.Nodup
  oneRename : (staged.filter isRename).length ≤ 1
  key : ∀ key, .addInstallation key ∈ staged → (C.fromCanonicalBytes key.bytes).isSome
  name : ∀ name, .setDisplayName name ∈ staged → name.utf8ByteSize ≤ 64 ∧ name ≠ ""

/-- What holds of the edits staged for an account, where the resolver holds `held`, which `unmasked`
says is shown. -/
structure StagedFor (C : Crates Addr) (held : Option AccountRecord) (unmasked : Bool)
    (staged : List StagedEdit) : Prop extends WellFormed C staged where
  /-- An entry revoked is one the held log has, and live as far as this build can read. -/
  revoke : ∀ index, .revoke index ∈ staged → ∃ record, held = some record ∧
    index < record.log.entries.length ∧
    (C.Readable record.log.entries → isLive record.log.entries index = true)
  /-- A key staged is not live, unless the log was hidden since it was staged. -/
  notLive : unmasked = true ∨ (∃ index, .revoke index ∈ staged) → ∀ record, held = some record →
    C.Readable record.log.entries → ∀ key, .addInstallation key ∈ staged →
      ¬KeyLive record.log.entries key.bytes
  /-- A name staged is not the one in force. -/
  otherName : unmasked = true → ∀ record, held = some record → C.Readable record.log.entries →
    ∀ name, .setDisplayName name ∈ staged → liveDisplayName C record.log ≠ some name

/-- Some of the edits that are staged are as they have to be. -/
theorem WellFormed.filter {staged : List StagedEdit} (h : WellFormed C staged)
    (p : StagedEdit → Bool) : WellFormed C (staged.filter p) where
  nodup := h.nodup.filter p
  oneRename := by
    rw [List.filter_comm]
    exact (List.length_filter_le _ _).trans h.oneRename
  key key hmem := h.key key (List.mem_of_mem_filter hmem)
  name name hmem := h.name name (List.mem_of_mem_filter hmem)

theorem StagedFor.filter {held : Option AccountRecord} {unmasked : Bool}
    {staged : List StagedEdit} (h : StagedFor C held unmasked staged) (p : StagedEdit → Bool) :
    StagedFor C held unmasked (staged.filter p) where
  toWellFormed := h.toWellFormed.filter p
  revoke index hmem := h.revoke index (List.mem_of_mem_filter hmem)
  notLive hor record hheld hread key hmem := h.notLive
    (hor.imp_right fun ⟨index, hindex⟩ => ⟨index, List.mem_of_mem_filter hindex⟩) record hheld hread
    key (List.mem_of_mem_filter hmem)
  otherName hun record hheld hread name hmem :=
    h.otherName hun record hheld hread name (List.mem_of_mem_filter hmem)

/-- What is staged against a log that is shown is what the log takes. -/
theorem StagedFor.takes {record : AccountRecord} {unmasked : Bool} {staged : List StagedEdit}
    (h : StagedFor C (some record) unmasked staged)
    (hshown : unmasked = true ∨ ∃ index, .revoke index ∈ staged)
    (hread : C.Readable record.log.entries) : Takes C record.log.entries staged where
  nodup := h.nodup
  revoke index hmem := by
    obtain ⟨record', heq, -, hlive⟩ := h.revoke index hmem
    obtain rfl := Option.some.inj heq
    exact hlive hread
  key key hmem := ⟨h.key key hmem, h.notLive hshown record rfl hread key hmem⟩
  name name hmem := (h.name name hmem).1

/-- Where no revocation is staged, an empty log takes what is staged as well. -/
theorem WellFormed.takes_nil {staged : List StagedEdit} (h : WellFormed C staged)
    (hrevoke : ∀ index, .revoke index ∉ staged) : Takes C [] staged where
  nodup := h.nodup
  revoke index hmem := absurd hmem (hrevoke index)
  key key hmem := by
    refine ⟨h.key key hmem, ?_⟩
    rintro ⟨index, context, hentry, -⟩
    cases hentry
  name name hmem := (h.name name hmem).1

/-- What holds of the app's own state. -/
structure Sound (C : Crates Addr) (core : AccountCore Addr) : Prop where
  /-- A key unlocked for an account is the account's. -/
  unlocked : ∀ addr key, core.unlocked addr = some key → C.addrOf key = addr
  /-- A record is what its signed log was checked to be. -/
  resolver : ∀ addr record, core.resolver addr = some record →
    C.verify addr record.signedLog = .ok record.log
  nonempty : ∀ addr, core.staged addr ≠ some []
  staged : ∀ addr, StagedFor C (core.resolver addr) (core.answered addr)
    ((core.staged addr).getD [])

theorem StagedFor.nil {held : Option AccountRecord} {unmasked : Bool} :
    StagedFor C held unmasked [] := by
  refine ⟨⟨List.nodup_nil, by simp, by simp, by simp⟩, by simp, ?_, by simp⟩
  rintro - record - - key hmem
  cases hmem

theorem Sound.new : Sound C (.new : AccountCore Addr) where
  unlocked _ _ h := by cases h
  resolver _ _ h := by cases h
  nonempty _ h := by cases h
  staged _ := .nil

variable {core core' : AccountCore Addr} {addr : Addr}

/-! ### What is shown of the log -/

/-- The entries of a log held, none where nothing is. -/
def heldEntries (held : Option AccountRecord) : List AccountEntry := held.elim [] (·.log.entries)

theorem record_eq_some {record : AccountRecord} : core.record addr = some record ↔
    core.answered addr = true ∧ core.resolver addr = some record := by
  unfold AccountCore.record
  rw [Option.filter_eq_some_iff]
  exact And.comm

/-- A log that was read is shown. -/
theorem record_of_not_answered (h : core.answered addr ≠ true) : core.record addr = none := by
  rw [Option.eq_none_iff_forall_not_mem]
  exact fun record hrecord => h (record_eq_some.mp hrecord).1

theorem record_of_answered (hanswered : core.answered addr = true) :
    core.record addr = core.resolver addr := by
  unfold AccountCore.record
  rw [hanswered]
  cases core.resolver addr <;> rfl

/-- A log is extended where this build can read it. -/
theorem extendable_eq (hL : C.LogLaws) :
    core.extendable C addr = .ok ((core.record addr).map fun record => ⟨record.log.entries⟩) ∧
        C.Readable (heldEntries (core.record addr)) ∨
      core.extendable C addr = .error .unreadable ∧
        ¬C.Readable (heldEntries (core.record addr)) := by
  unfold AccountCore.extendable
  cases hrecord : core.record addr with
  | none => exact .inl ⟨rfl, Crates.readable_nil hL⟩
  | some record =>
    dsimp only
    cases hfrom : C.fromLog record.log with
    | error e =>
      refine .inr ⟨rfl, fun hread => ?_⟩
      have hread' : C.fromLog record.log = .ok ⟨record.log.entries⟩ := hread
      rw [hfrom] at hread'
      cases hread'
    | ok draft =>
      obtain ⟨hread, rfl⟩ := Crates.readable_of_fromLog hL hfrom
      exact .inl ⟨rfl, hread⟩

theorem extendable_ok (hL : C.LogLaws) {draft : Option AccountLogDraft} :
    core.extendable C addr = .ok draft ↔ C.Readable (heldEntries (core.record addr)) ∧
      draft = (core.record addr).map fun record => ⟨record.log.entries⟩ := by
  rcases @extendable_eq _ C core addr hL with ⟨heq, hread⟩ | ⟨heq, hread⟩
  · rw [heq, Except.ok.injEq]
    exact ⟨fun h => ⟨hread, h.symm⟩, fun h => h.2.symm⟩
  · rw [heq]
    constructor
    · intro h
      cases h
    · rintro ⟨hread', -⟩
      exact absurd hread' hread

/-- A log this build cannot read takes no update. -/
theorem fits_unreadable (hL : C.LogLaws) (hread : ¬C.Readable (heldEntries (core.record addr)))
    (staged : List StagedEdit) : core.fits C addr staged = .error .unreadable := by
  unfold AccountCore.fits
  rcases @extendable_eq _ C core addr hL with ⟨-, hread'⟩ | ⟨heq, -⟩
  · exact absurd hread' hread
  · rw [heq]
    rfl

/-- An update extends what is shown of the log. -/
theorem getD_heldEntries (record : Option AccountRecord) :
    (record.map fun record => AccountLogDraft.mk record.log.entries).getD .new =
      ⟨heldEntries record⟩ := by
  cases record <;> rfl

/-- An update the log takes is refused for its size only. -/
theorem fits_eq (hL : C.LogLaws) {staged : List StagedEdit}
    (hread : C.Readable (heldEntries (core.record addr)))
    (htakes : Takes C (heldEntries (core.record addr)) staged) : core.fits C addr staged =
      if (C.payloadOf (heldEntries (core.record addr) ++ plan staged)).length ≤ C.maxPayloadBytes
      then .ok () else .error .overBudget := by
  have hpush := pushAll_plan hL hread htakes
  have hencode := hL.encode_eq (@Crates.pushAll_readable _ _ hL _ ⟨_⟩ _ hread hpush)
  unfold AccountCore.fits
  rw [(extendable_ok hL).mpr ⟨hread, rfl⟩]
  show ((C.pushAll (Option.getD _ _) (plan staged)).mapError _).bind _ = _
  rw [getD_heldEntries, hpush]
  dsimp only [Except.mapError, Except.bind, AccountLogDraft.log]
  rw [hencode]
  by_cases hsize : (C.payloadOf (heldEntries (core.record addr) ++ plan staged)).length ≤
      C.maxPayloadBytes
  · rw [if_pos hsize, if_pos hsize]
  · rw [if_neg hsize, if_neg hsize]

/-- What is staged against the log that is shown is what that log takes. -/
theorem StagedFor.takes_record {staged : List StagedEdit}
    (h : StagedFor C (core.resolver addr) (core.answered addr) staged)
    (hshown : core.answered addr = true ∨ ∀ index, .revoke index ∉ staged)
    (hread : C.Readable (heldEntries (core.record addr))) :
    Takes C (heldEntries (core.record addr)) staged := by
  cases hrecord : core.record addr with
  | none =>
    refine h.takes_nil fun index hmem => ?_
    have hanswered := hshown.resolve_right fun hrevoke => hrevoke index hmem
    obtain ⟨record, hheld, -⟩ := h.revoke index hmem
    rw [record_of_answered hanswered, hheld] at hrecord
    cases hrecord
  | some record =>
    obtain ⟨hanswered, hheld⟩ := record_eq_some.mp hrecord
    rw [hheld] at h
    rw [hrecord] at hread
    exact h.takes (.inl hanswered) hread

/-- Where the log is hidden, an update that revokes something is refused by the empty log it is
measured against. -/
theorem fits_of_hidden_revoke (hL : C.LogLaws) {staged : List StagedEdit} {index : ℕ}
    (hrecord : core.record addr = none) (hmem : .revoke index ∈ staged) :
    ∃ e, core.fits C addr staged = .error (.log e) := by
  have hextendable : core.extendable C addr = .ok none := by
    rw [extendable_ok hL, hrecord]
    exact ⟨Crates.readable_nil hL, rfl⟩
  have hplan : ∃ i rest, plan staged = .remove i :: rest := by
    have hrevokes : staged.filter isRevoke ≠ [] :=
      List.ne_nil_of_mem (List.mem_filter.mpr ⟨hmem, rfl⟩)
    obtain ⟨edit, rest, hcons⟩ := List.exists_cons_of_ne_nil hrevokes
    have hedit : isRevoke edit = true :=
      (List.mem_filter.mp (hcons ▸ List.mem_cons_self : edit ∈ staged.filter isRevoke)).2
    cases edit with
    | revoke i => exact ⟨i, _, by rw [plan, hcons]; rfl⟩
    | addInstallation key => cases hedit
    | setDisplayName name => cases hedit
  obtain ⟨i, rest, hplan⟩ := hplan
  have hpush : ∃ e, C.push .new (.remove i) = .error e := by
    cases h : C.push .new (.remove i) with
    | error e => exact ⟨e, rfl⟩
    | ok draft =>
      have hlive := (@Crates.LogLaws.push_remove _ _ hL .new i (Crates.readable_nil hL)).mp
        ⟨draft, h⟩
      cases hlive
  obtain ⟨e, hpush⟩ := hpush
  have hpushAll : C.pushAll .new (plan staged) = .error e := by
    rw [hplan, Crates.pushAll_cons, hpush]
    rfl
  refine ⟨e, ?_⟩
  unfold AccountCore.fits
  rw [hextendable]
  show ((C.pushAll .new (plan staged)).mapError CoreError.log).bind _ = _
  rw [hpushAll]
  rfl

/-- Whether the log leaves something of an edit to do. -/
theorem needed_iff (hL : C.LogLaws) {log : AccountLog} {edit : StagedEdit} :
    AccountCore.needed C log ⟨log.entries⟩ edit = true ↔ match edit with
      | .revoke index => isLive log.entries index = true
      | .addInstallation key => ¬KeyLive log.entries key.bytes
      | .setDisplayName name => liveDisplayName C log ≠ some name := by
  cases edit with
  | revoke index =>
    have hany : (∃ entry ∈ C.liveEntries ⟨log.entries⟩, entry.index = index) ↔
        isLive log.entries index = true := any_liveEntries hL
    simpa [AccountCore.needed] using hany
  | addInstallation key =>
    have hkeys : key.bytes ∈ liveKeys C ⟨log.entries⟩ ↔ KeyLive log.entries key.bytes :=
      mem_liveKeys hL
    simpa [AccountCore.needed] using not_congr hkeys
  | setDisplayName name => simp [AccountCore.needed]

/-! ### What a longer log leaves of what is staged -/

section Keeps

variable {held held' : Option AccountRecord} {unmasked unmasked' : Bool} {staged : List StagedEdit}

/-- A log that grew, and that this build cannot read, asks no more of what is staged. -/
theorem StagedFor.grown (h : StagedFor C held unmasked staged)
    (hgrown : ∀ record, held = some record → ∃ record', held' = some record' ∧
      record.log.entries <+: record'.log.entries)
    (hread : ∀ record, held' = some record → ¬C.Readable record.log.entries) :
    StagedFor C held' unmasked' staged where
  toWellFormed := h.toWellFormed
  revoke index hmem := by
    obtain ⟨record, hrecord, hlt, -⟩ := h.revoke index hmem
    obtain ⟨record', hrecord', hpre⟩ := hgrown record hrecord
    exact ⟨record', hrecord', hlt.trans_le hpre.length_le, fun hr =>
      absurd hr (hread record' hrecord')⟩
  notLive _ record hrecord hr := absurd hr (hread record hrecord)
  otherName _ record hrecord hr := absurd hr (hread record hrecord)

/-- What settling keeps is what can be staged against the log it was settled against. -/
theorem StagedFor.settled (hL : C.LogLaws) (h : StagedFor C held unmasked staged)
    (record : AccountRecord) : StagedFor C (some record) unmasked'
      (staged.filter (AccountCore.needed C record.log ⟨record.log.entries⟩)) where
  toWellFormed := h.toWellFormed.filter _
  revoke index hmem := by
    have hlive : isLive record.log.entries index = true :=
      (needed_iff hL).mp (List.mem_filter.mp hmem).2
    exact ⟨record, rfl, isLive_lt hlive, fun _ => hlive⟩
  notLive _ record' hrecord _ key hmem := by
    obtain rfl := Option.some.inj hrecord
    exact (needed_iff hL).mp (List.mem_filter.mp hmem).2
  otherName _ record' hrecord _ name hmem := by
    obtain rfl := Option.some.inj hrecord
    exact (needed_iff hL).mp (List.mem_filter.mp hmem).2

/-- Hiding a log asks no more of what is staged against it. -/
theorem StagedFor.hidden (h : StagedFor C held unmasked staged) :
    StagedFor C held false staged where
  toWellFormed := h.toWellFormed
  revoke := h.revoke
  notLive hor := h.notLive (.inr (hor.resolve_left Bool.false_ne_true))
  otherName hfalse := absurd hfalse Bool.false_ne_true

end Keeps

/-- What a resolver holds after it resolved an account is a log that checks, and goes on from what
it held. -/
theorem Sound.resolved (hA : C.AccountLaws) (h : Sound C core) {held : Option AccountRecord}
    {fetched : Option SignedAccountLog}
    (hresolve : C.resolve addr (core.resolver addr) fetched = .ok held) :
    (∀ record, held = some record → C.verify addr record.signedLog = .ok record.log) ∧
      ∀ record, core.resolver addr = some record → ∃ record', held = some record' ∧
        record.log.entries <+: record'.log.entries := by
  rcases hA.resolve_adopts hresolve with rfl | ⟨signed, log, -, hverify, rfl, hpre⟩
  · exact ⟨h.resolver addr, fun record hrecord => ⟨record, hrecord, List.prefix_rfl⟩⟩
  · refine ⟨fun record hrecord => ?_, fun record hrecord => ⟨_, rfl, hpre record hrecord⟩⟩
    obtain rfl := Option.some.inj hrecord
    exact hverify

/-! ### What staging adds -/

section Adds

variable {held : Option AccountRecord} {unmasked : Bool} {staged : List StagedEdit}

theorem StagedFor.add (h : StagedFor C held unmasked staged) {key : Ed25519VerifyingKey}
    (hkey : (C.fromCanonicalBytes key.bytes).isSome) (hnew : .addInstallation key ∉ staged)
    (hlive : unmasked = true ∨ (∃ index, .revoke index ∈ staged) → ∀ record, held = some record →
      C.Readable record.log.entries → ¬KeyLive record.log.entries key.bytes) :
    StagedFor C held unmasked (staged ++ [.addInstallation key]) where
  nodup := List.nodup_append.mpr ⟨h.nodup, List.nodup_singleton _, by
    rintro edit hedit _ hmem rfl
    exact hnew (List.mem_singleton.mp hmem ▸ hedit)⟩
  oneRename := by
    rw [List.filter_append]
    simpa [isRename] using h.oneRename
  key key' hmem := by
    rcases List.mem_append.mp hmem with hmem | hmem
    · exact h.key key' hmem
    · obtain rfl := StagedEdit.addInstallation.inj (List.mem_singleton.mp hmem)
      exact hkey
  name name hmem := h.name name (by simpa using hmem)
  revoke index hmem := h.revoke index (by simpa using hmem)
  notLive hor record hrecord hread key' hmem := by
    have hor' : unmasked = true ∨ ∃ index, .revoke index ∈ staged := by simpa using hor
    rcases List.mem_append.mp hmem with hmem | hmem
    · exact h.notLive hor' record hrecord hread key' hmem
    · obtain rfl := StagedEdit.addInstallation.inj (List.mem_singleton.mp hmem)
      exact hlive hor' record hrecord hread
  otherName hun record hrecord hread name hmem :=
    h.otherName hun record hrecord hread name (by simpa using hmem)

theorem StagedFor.rename (h : StagedFor C held unmasked staged) {name : String}
    (hname : name.utf8ByteSize ≤ 64 ∧ name ≠ "")
    (hother : unmasked = true → ∀ record, held = some record →
      liveDisplayName C record.log ≠ some name) :
    StagedFor C held unmasked (staged.filter (!isRename ·) ++ [.setDisplayName name]) where
  nodup := List.nodup_append.mpr ⟨h.nodup.filter _, List.nodup_singleton _, by
    rintro edit hedit _ hmem rfl
    rw [List.mem_singleton.mp hmem] at hedit
    exact absurd (List.mem_filter.mp hedit).2 (by simp [isRename])⟩
  oneRename := by
    have hnone : (staged.filter (!isRename ·)).filter isRename = [] := by simp
    rw [List.filter_append, hnone]
    exact le_rfl
  key key hmem := h.key key (by simpa [isRename] using hmem)
  name name' hmem := by
    have hname' : name' = name := by simpa [isRename] using hmem
    exact hname' ▸ hname
  revoke index hmem := h.revoke index (by simpa [isRename] using hmem)
  notLive hor record hrecord hread key hmem :=
    h.notLive (by simpa [isRename] using hor) record hrecord hread key
      (by simpa [isRename] using hmem)
  otherName hun record hrecord _ name' hmem := by
    have hname' : name' = name := by simpa [isRename] using hmem
    exact hname' ▸ hother hun record hrecord

theorem StagedFor.revokes (h : StagedFor C held true staged) {index : ℕ} {record : AccountRecord}
    (hheld : held = some record) (hlive : isLive record.log.entries index = true)
    (hnew : .revoke index ∉ staged) : StagedFor C held true (staged ++ [.revoke index]) where
  nodup := List.nodup_append.mpr ⟨h.nodup, List.nodup_singleton _, by
    rintro edit hedit _ hmem rfl
    exact hnew (List.mem_singleton.mp hmem ▸ hedit)⟩
  oneRename := by
    rw [List.filter_append]
    simpa [isRename] using h.oneRename
  key key hmem := h.key key (by simpa using hmem)
  name name hmem := h.name name (by simpa using hmem)
  revoke index' hmem := by
    rcases List.mem_append.mp hmem with hmem | hmem
    · exact h.revoke index' hmem
    · obtain rfl := StagedEdit.revoke.inj (List.mem_singleton.mp hmem)
      exact ⟨record, hheld, isLive_lt hlive, fun _ => hlive⟩
  notLive _ record hrecord hread key hmem :=
    h.notLive (.inl rfl) record hrecord hread key (by simpa using hmem)
  otherName hun record hrecord hread name hmem :=
    h.otherName hun record hrecord hread name (by simpa using hmem)

end Adds

/-- An update that fits revokes nothing of a hidden log. -/
theorem shown_of_fits (hL : C.LogLaws) {staged : List StagedEdit}
    (hfits : core.fits C addr staged = .ok ()) :
    core.answered addr = true ∨ ∀ index, .revoke index ∉ staged := by
  by_cases hanswered : core.answered addr = true
  · exact .inl hanswered
  · refine .inr fun index hmem => ?_
    obtain ⟨e, herror⟩ := fits_of_hidden_revoke hL (record_of_not_answered hanswered) hmem
    rw [hfits] at herror
    cases herror

/-- What staging makes of the edits staged is as it has to be, unless it goes on with revocations
of a hidden log. -/
theorem Sound.restages (hL : C.LogLaws) (h : Sound C core) {staged : List StagedEdit}
    (hshown : core.answered addr = true ∨ ∀ index, .revoke index ∉ staged)
    (hrestages : core.Restages C addr staged) :
    StagedFor C (core.resolver addr) (core.answered addr) staged := by
  have hstaged := h.staged addr
  cases hrestages with
  | @add key draft hkey hdraft hlive hnew =>
    refine hstaged.add (by rw [hkey]; rfl) hnew fun hor record hheld hread hkeyLive => ?_
    have hanswered : core.answered addr = true := by
      rcases hor with hanswered | ⟨index, hindex⟩
      · exact hanswered
      · exact hshown.resolve_right fun hrevoke => hrevoke index (List.mem_append_left _ hindex)
    have hrecord := record_eq_some.mpr ⟨hanswered, hheld⟩
    obtain ⟨-, rfl⟩ := (extendable_ok hL).mp hdraft
    rw [hrecord] at hlive
    exact hlive _ rfl ((mem_liveKeys hL).mpr hkeyLive)
  | @rename name draft hname hdraft hlive =>
    refine hstaged.rename hname fun hanswered record hheld hsame => hlive ?_
    unfold AccountCore.liveName
    rw [record_eq_some.mpr ⟨hanswered, hheld⟩]
    exact hsame
  | withdraw => exact hstaged.filter _
  | @revoke index draft hdraft hlive hnew =>
    obtain ⟨-, hsome⟩ := (extendable_ok hL).mp hdraft
    obtain ⟨record, hrecord, rfl⟩ := Option.map_eq_some_iff.mp hsome.symm
    obtain ⟨hanswered, hheld⟩ := record_eq_some.mp hrecord
    rw [hanswered] at hstaged ⊢
    exact hstaged.revokes hheld ((any_liveEntries hL).mp hlive) hnew

/-- What a log read leaves to do of some edits: all of them, where this build cannot read it. -/
def leftToDo (C : Crates Addr) (held : Option AccountRecord) (staged : List StagedEdit) :
    List StagedEdit :=
  match held with
  | none => staged
  | some record =>
    match C.fromLog record.log with
    | .error _ => staged
    | .ok draft => staged.filter (AccountCore.needed C record.log draft)

@[simp] theorem leftToDo_nil (held : Option AccountRecord) : leftToDo C held [] = [] := by
  unfold leftToDo
  split
  · rfl
  · split <;> rfl

theorem leftToDo_sublist (held : Option AccountRecord) (staged : List StagedEdit) :
    (leftToDo C held staged).Sublist staged := by
  unfold leftToDo
  split
  · exact .refl _
  split
  · exact .refl _
  · exact List.filter_sublist

theorem leftToDo_readable {record : AccountRecord} (hread : C.Readable record.log.entries)
    (staged : List StagedEdit) : leftToDo C (some record) staged =
      staged.filter (AccountCore.needed C record.log ⟨record.log.entries⟩) := by
  have hfrom : C.fromLog record.log = .ok ⟨record.log.entries⟩ := hread
  unfold leftToDo
  dsimp only
  rw [hfrom]

theorem getD_waiting (staged : List StagedEdit) :
    (if staged.isEmpty then none else some staged : Option (List StagedEdit)).getD [] = staged := by
  cases staged <;> rfl

variable [DecidableEq Addr]

/-- What settling does: nothing, where no log this build can read is shown or nothing is staged;
otherwise it keeps the edits that the log leaves something of to do. -/
theorem settle_cases (hL : C.LogLaws) (core : AccountCore Addr) (addr : Addr) :
    core.settle C addr = core ∧ (core.staged addr = none ∨
        ∀ record, core.record addr = some record → ¬C.Readable record.log.entries) ∨
      ∃ record staged kept, core.record addr = some record ∧ C.Readable record.log.entries ∧
        core.staged addr = some staged ∧
        kept = staged.filter (AccountCore.needed C record.log ⟨record.log.entries⟩) ∧
        core.settle C addr = { core with
          staged := Function.update core.staged addr (if kept.isEmpty then none else some kept)
          dropped := if staged.length - kept.length > 0
            then Function.update core.dropped addr
              (some ((core.dropped addr).getD 0 + (staged.length - kept.length)))
            else core.dropped } := by
  unfold AccountCore.settle
  cases hrecord : core.record addr with
  | none => exact .inl ⟨rfl, .inr fun record h => by cases h⟩
  | some record =>
    cases hfrom : C.fromLog record.log with
    | error e =>
      dsimp only
      rw [hfrom]
      refine .inl ⟨rfl, .inr fun record' h hread => ?_⟩
      obtain rfl := Option.some.inj h
      have hread' : C.fromLog record.log = .ok ⟨record.log.entries⟩ := hread
      rw [hfrom] at hread'
      cases hread'
    | ok draft =>
      obtain ⟨hread, rfl⟩ := Crates.readable_of_fromLog hL hfrom
      dsimp only
      rw [hfrom]
      cases hstaged : core.staged addr with
      | none => exact .inl ⟨rfl, .inl rfl⟩
      | some staged => exact .inr ⟨record, staged, _, rfl, hread, rfl, rfl, rfl⟩

/-- What is staged once it was settled. -/
theorem getD_staged_settle (core : AccountCore Addr) (addr : Addr) :
    ((core.settle C addr).staged addr).getD [] =
      leftToDo C (core.record addr) ((core.staged addr).getD []) := by
  unfold AccountCore.settle leftToDo
  cases core.record addr with
  | none => rfl
  | some record =>
    dsimp only
    cases C.fromLog record.log with
    | error e => rfl
    | ok draft =>
      dsimp only
      cases hstaged : core.staged addr with
      | none => simp [hstaged]
      | some staged =>
        dsimp only
        rw [Function.update_self, getD_waiting]
        rfl

/-- Every edit dropped is counted. -/
theorem getD_dropped_settle (core : AccountCore Addr) (addr : Addr) :
    ((core.settle C addr).dropped addr).getD 0 +
        (leftToDo C (core.record addr) ((core.staged addr).getD [])).length =
      (core.dropped addr).getD 0 + ((core.staged addr).getD []).length := by
  unfold AccountCore.settle leftToDo
  cases core.record addr with
  | none => rfl
  | some record =>
    dsimp only
    cases C.fromLog record.log with
    | error e => rfl
    | ok draft =>
      dsimp only
      cases hstaged : core.staged addr with
      | none => rfl
      | some staged =>
        have hle := List.length_filter_le (AccountCore.needed C record.log draft) staged
        dsimp only [Option.getD_some]
        by_cases hdrops : staged.length -
            (staged.filter (AccountCore.needed C record.log draft)).length > 0
        · rw [if_pos hdrops, Function.update_self, Option.getD_some]
          omega
        · rw [if_neg hdrops]
          omega

/-- Settling one account is nothing to the others. -/
theorem settle_other (core : AccountCore Addr) {addr other : Addr} (hne : other ≠ addr) :
    (core.settle C addr).staged other = core.staged other ∧
      (core.settle C addr).dropped other = core.dropped other := by
  unfold AccountCore.settle
  split
  · exact ⟨rfl, rfl⟩
  split
  · exact ⟨rfl, rfl⟩
  split
  · exact ⟨rfl, rfl⟩
  · refine ⟨Function.update_of_ne hne .., ?_⟩
    dsimp only
    split
    · exact Function.update_of_ne hne ..
    · rfl

theorem settle_fields (core : AccountCore Addr) (addr : Addr) :
    (core.settle C addr).resolver = core.resolver ∧ (core.settle C addr).read = core.read ∧
      (core.settle C addr).unlocked = core.unlocked ∧
      (core.settle C addr).written = core.written := by
  unfold AccountCore.settle
  split
  · exact ⟨rfl, rfl, rfl, rfl⟩
  split
  · exact ⟨rfl, rfl, rfl, rfl⟩
  split <;> exact ⟨rfl, rfl, rfl, rfl⟩

/-! ### Every change keeps the invariant -/

theorem landed_answered (held : Option AccountRecord) (now : ℤ) :
    (core.landed addr held now).answered addr = true := by
  simp [AccountCore.answered, AccountCore.readAt, AccountCore.landed]

theorem landed_answered_ne {addr' : Addr} (haddr : addr' ≠ addr) (held : Option AccountRecord)
    (now : ℤ) : (core.landed addr held now).answered addr' = core.answered addr' := by
  simp [AccountCore.answered, AccountCore.readAt, AccountCore.landed, haddr]

/-- What was just read is shown. -/
theorem landed_record (held : Option AccountRecord) (now : ℤ) :
    (core.landed addr held now).record addr = held := by
  unfold AccountCore.record
  rw [landed_answered]
  have hheld : (core.landed addr held now).resolver addr = held := Function.update_self ..
  rw [hheld]
  cases held <;> rfl

/-- What the resolver holds for one account is replaced, and every log it holds checks. -/
theorem Sound.resolver_update (h : Sound C core) {held : Option AccountRecord}
    (hheld : ∀ record, held = some record → C.verify addr record.signedLog = .ok record.log)
    (addr' : Addr) (record : AccountRecord)
    (hrecord : Function.update core.resolver addr held addr' = some record) :
    C.verify addr' record.signedLog = .ok record.log := by
  by_cases haddr : addr' = addr
  · subst haddr
    rw [Function.update_self] at hrecord
    exact hheld record hrecord
  · rw [Function.update_of_ne haddr] at hrecord
    exact h.resolver addr' record hrecord

/-- What waits for one account is replaced. -/
theorem Sound.nonempty_update (h : Sound C core) (staged : List StagedEdit) (addr' : Addr) :
    Function.update core.staged addr (if staged.isEmpty then none else some staged) addr' ≠
      some [] := by
  by_cases haddr : addr' = addr
  · subst haddr
    rw [Function.update_self]
    split
    · simp
    · next hne => simpa using hne
  · rw [Function.update_of_ne haddr]
    exact h.nonempty addr'

/-- What waits for one account is as it has to be, and so is what waits for the others. -/
theorem staged_update {resolver : Addr → Option AccountRecord} {answered : Addr → Bool}
    {waiting : Addr → Option (List StagedEdit)} {staged : List StagedEdit}
    (hself : StagedFor C (resolver addr) (answered addr) staged)
    (hother : ∀ addr' ≠ addr,
      StagedFor C (resolver addr') (answered addr') ((waiting addr').getD [])) (addr' : Addr) :
    StagedFor C (resolver addr') (answered addr')
      ((Function.update waiting addr (if staged.isEmpty then none else some staged) addr').getD
        []) := by
  by_cases haddr : addr' = addr
  · subst haddr
    rw [Function.update_self, getD_waiting]
    exact hself
  · rw [Function.update_of_ne haddr]
    exact hother addr' haddr

/-- A read that landed. -/
theorem Sound.landed (hL : C.LogLaws) (hA : C.AccountLaws) (h : Sound C core)
    {held : Option AccountRecord} {fetched : Option SignedAccountLog} (now : ℤ)
    (hresolve : C.resolve addr (core.resolver addr) fetched = .ok held) :
    Sound C ((core.landed addr held now).settle C addr) := by
  obtain ⟨hverify, hgrown⟩ := h.resolved hA hresolve
  have hother : ∀ addr' ≠ addr, StagedFor C ((core.landed addr held now).resolver addr')
      ((core.landed addr held now).answered addr') ((core.staged addr').getD []) := by
    intro addr' haddr
    have hheld : (core.landed addr held now).resolver addr' = core.resolver addr' :=
      Function.update_of_ne haddr ..
    rw [landed_answered_ne haddr, hheld]
    exact h.staged addr'
  have hself : (core.landed addr held now).resolver addr = held := Function.update_self ..
  rcases settle_cases hL (core.landed addr held now) addr with
    ⟨hsettle, hnothing⟩ | ⟨record, staged, kept, hshown, -, hstaged, rfl, hsettle⟩
  -- Nothing was staged, or the log cannot be read and all of it stays.
  · rw [hsettle]
    refine ⟨h.unlocked, h.resolver_update hverify, h.nonempty, fun addr' => ?_⟩
    by_cases haddr : addr' = addr
    · subst haddr
      rw [hself]
      rcases hnothing with hnone | hunread
      · have hnone' : core.staged addr' = none := hnone
        show StagedFor C held _ ((core.staged addr').getD [])
        rw [hnone']
        exact .nil
      · rw [landed_record] at hunread
        exact (h.staged addr').grown hgrown hunread
    · exact hother addr' haddr
  -- What the log holds already is settled, and the rest stays.
  · rw [landed_record] at hshown
    subst hshown
    rw [hsettle]
    have hstaged' : (core.staged addr).getD [] = staged := by
      rw [show core.staged addr = some staged from hstaged]
      rfl
    refine ⟨h.unlocked, h.resolver_update hverify, h.nonempty_update _, staged_update ?_ hother⟩
    show StagedFor C ((core.landed addr (some record) now).resolver addr) _ _
    rw [hself]
    exact (hstaged' ▸ h.staged addr).settled hL record

/-- Every change to the app's own state keeps what holds of it. -/
theorem Sound.step (hL : C.LogLaws) (hA : C.AccountLaws) (h : Sound C core)
    (hstep : Step C core core') : Sound C core' := by
  have hnone : ∀ {answered : Addr → Bool} {resolver : Addr → Option AccountRecord} {addr : Addr},
      (∀ addr' ≠ addr, StagedFor C (resolver addr') (answered addr')
        ((core.staged addr').getD [])) →
      ∀ addr', StagedFor C (resolver addr') (answered addr')
        ((Function.update core.staged addr none addr').getD []) :=
    fun hother => staged_update .nil hother
  cases hstep with
  | landed now hresolve => exact h.landed hL hA now hresolve
  | failed addr e =>
    -- A read that failed leaves what is shown of the log as it was.
    refine ⟨h.unlocked, h.resolver, h.nonempty, fun addr' => ?_⟩
    have hanswered : (core.failed addr e).answered addr' = core.answered addr' := by
      by_cases haddr : addr' = addr
      · subst haddr
        cases hread : core.read addr' <;>
          simp [AccountCore.answered, AccountCore.readAt, AccountCore.failed, hread]
      · simp [AccountCore.answered, AccountCore.readAt, AccountCore.failed, haddr]
    rw [hanswered]
    exact h.staged addr'
  | collected addr => exact ⟨h.unlocked, h.resolver, h.nonempty, h.staged⟩
  | @unlocked addr key hkey =>
    refine ⟨fun addr' key' hkey' => ?_, h.resolver, h.nonempty, h.staged⟩
    by_cases haddr : addr' = addr
    · subst haddr
      dsimp only at hkey'
      rw [Function.update_self] at hkey'
      exact Option.some.inj hkey' ▸ hkey
    · dsimp only at hkey'
      rw [Function.update_of_ne haddr] at hkey'
      exact h.unlocked addr' key' hkey'
  | forgot addr =>
    refine ⟨fun addr' key' hkey' => ?_, h.resolver, fun addr' => ?_, fun addr' => ?_⟩
    · by_cases haddr : addr' = addr
      · subst haddr
        simp at hkey'
      · dsimp only at hkey'
        rw [Function.update_of_ne haddr] at hkey'
        exact h.unlocked addr' key' hkey'
    · exact h.nonempty_update [] addr'
    · refine hnone (fun addr'' haddr => ?_) addr'
      have hanswered := h.staged addr''
      simpa [AccountCore.answered, AccountCore.readAt, haddr] using hanswered
  | stopped addr =>
    refine ⟨h.unlocked, h.resolver, h.nonempty, fun addr' => ?_⟩
    by_cases haddr : addr' = addr
    -- Its log is no longer shown, and what is staged on it stays.
    · subst haddr
      have hhidden := (h.staged addr').hidden
      simpa [AccountCore.answered, AccountCore.readAt] using hhidden
    · have hstaged := h.staged addr'
      simpa [AccountCore.answered, AccountCore.readAt, haddr] using hstaged
  | discarded addr =>
    exact ⟨h.unlocked, h.resolver, h.nonempty_update [], hnone fun addr' _ => h.staged addr'⟩
  | restaged addr hfits hrestages =>
    exact ⟨h.unlocked, h.resolver, h.nonempty_update _,
      staged_update (h.restages hL (shown_of_fits hL hfits) hrestages) fun addr' _ =>
        h.staged addr'⟩
  | @published addr signed held hresolve =>
    obtain ⟨hverify, -⟩ := h.resolved hA hresolve
    refine ⟨h.unlocked, h.resolver_update hverify, h.nonempty_update [],
      hnone fun addr' haddr => ?_⟩
    have hstaged := h.staged addr'
    rw [← Function.update_of_ne haddr held core.resolver] at hstaged
    exact hstaged

theorem Sound.steps (hL : C.LogLaws) (hA : C.AccountLaws) (h : Sound C core)
    (hsteps : AccountCore.Steps C core core') : Sound C core' := by
  induction hsteps with
  | refl => exact h
  | tail _ hstep ih => exact ih.step hL hA hstep

end Manager

/-- What holds of the app's own state holds in every run. -/
theorem Reachable.sound {Addr : Type} [DecidableEq Addr] {C : Crates Addr} {w : World Addr}
    (hV : C.VaultLaws) (hL : C.LogLaws) (hA : C.AccountLaws) (h : Reachable C w) :
    Manager.Sound C w.core :=
  h.induction hV hA .new fun _ _ hsound hstep => hsound.step hL hA hstep

end AccountLogUi
