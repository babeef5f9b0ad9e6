import AccountLogUi.Manager.Equiv.Staged
import AccountLogUi.Reference.Equiv.Laws

/-!
# What a publish plans, it can sign

`Planned` is what holds of an update between the read a publish makes and its write: it is signed
with the account's own key, on top of the log just read, and made of entries that log takes.  So
`Account::update` signs it (`Planned.signed`), and a resolver that holds what was read takes it
(`Planned.resolves`).

`staged_plan_is_pushable_iff` puts this together with what holds of the staged edits in every run:
what goes wrong is a revocation staged while no log is shown.
-/

namespace AccountLogUi.Manager

variable {Addr : Type} {C : Crates Addr} {core : AccountCore Addr} {addr : Addr}

/-- An update planned on top of the log held. -/
structure Planned (C : Crates Addr) (addr : Addr) (core : AccountCore Addr) (update : Update) :
    Prop where
  answered : core.answered addr = true
  key : C.addrOf update.key = addr
  staged : ∃ staged, core.staged addr = some staged ∧ update.entries = plan staged
  takes : Takes C (heldEntries (core.resolver addr)) ((core.staged addr).getD [])
  base : update.base = (core.resolver addr).map (·.signedLog)
  firstNew : update.firstNew = (heldEntries (core.resolver addr)).length
  readable : C.Readable (heldEntries (core.resolver addr))
  size : (C.payloadOf (heldEntries (core.resolver addr) ++ update.entries)).length ≤
    C.maxPayloadBytes

/-- Its entries go onto the log held. -/
theorem Planned.pushAll (hL : C.LogLaws) {update : Update} (h : Planned C addr core update) :
    C.pushAll ⟨heldEntries (core.resolver addr)⟩ update.entries =
      .ok ⟨heldEntries (core.resolver addr) ++ update.entries⟩ := by
  obtain ⟨staged, hstaged, hentries⟩ := h.staged
  have htakes := h.takes
  rw [hstaged] at htakes
  rw [hentries]
  exact pushAll_plan hL h.readable htakes

theorem Planned.readable_append (hL : C.LogLaws) {update : Update}
    (h : Planned C addr core update) :
    C.Readable (heldEntries (core.resolver addr) ++ update.entries) :=
  @Crates.pushAll_readable _ _ hL _ ⟨_⟩ _ h.readable (h.pushAll hL)

/-- The log it makes encodes. -/
theorem Planned.encodes (hL : C.LogLaws) {update : Update} (h : Planned C addr core update) :
    C.encode ⟨heldEntries (core.resolver addr) ++ update.entries⟩ =
      .ok (C.payloadOf (heldEntries (core.resolver addr) ++ update.entries)) := by
  rw [hL.encode_eq (h.readable_append hL), if_pos h.size]

/-- The log it is made on top of checks, as the entries held. -/
theorem Planned.verified (hsound : Sound C core) {update : Update}
    (h : Planned C addr core update) :
    update.base = none ∧ heldEntries (core.resolver addr) = [] ∨
      ∃ base, update.base = some base ∧
        C.verify (C.addrOf update.key) base = .ok ⟨heldEntries (core.resolver addr)⟩ := by
  have hbase := h.base
  cases hheld : core.resolver addr with
  | none =>
    rw [hheld] at hbase
    exact .inl ⟨hbase, rfl⟩
  | some record =>
    rw [hheld] at hbase
    refine .inr ⟨record.signedLog, hbase, ?_⟩
    rw [h.key]
    exact hsound.resolver addr record hheld

/-- It is signed. -/
theorem Planned.signed (hL : C.LogLaws) (hA : C.AccountLaws) (hsound : Sound C core)
    {update : Update} (h : Planned C addr core update) :
    ∃ signed, C.update update.key update.base update.entries = .ok signed :=
  hA.update_of_pushAll (h.verified hsound) h.readable (h.pushAll hL) (h.encodes hL)

/-- What is signed is the log held with the update's entries after it, under the account's own
key. -/
theorem Planned.signed_eq (hL : C.LogLaws) (hA : C.AccountLaws) (hsound : Sound C core)
    {update : Update} (h : Planned C addr core update) {signed : SignedAccountLog}
    (hsigned : C.update update.key update.base update.entries = .ok signed) :
    signed.payload = C.payloadOf (heldEntries (core.resolver addr) ++ update.entries) ∧
      signed.signature = C.sign update.key signed.payload ∧
      C.verify addr signed = .ok ⟨heldEntries (core.resolver addr) ++ update.entries⟩ := by
  obtain ⟨held, draft, hbase, -, hpush, hencode, hsignature⟩ := hA.update_ok hsigned
  -- The log extended is the one held, since the base handed over is its own.
  have hheld : held = heldEntries (core.resolver addr) := by
    rcases hbase with ⟨hnone, rfl⟩ | ⟨base, hsome, hverify⟩
    · rcases h.verified hsound with ⟨-, hnil⟩ | ⟨base, hsome, -⟩
      · exact hnil.symm
      · rw [hnone] at hsome
        cases hsome
    · rcases h.verified hsound with ⟨hnone, -⟩ | ⟨base', hsome', hverify'⟩
      · rw [hnone] at hsome
        cases hsome
      · rw [hsome] at hsome'
        obtain rfl := Option.some.inj hsome'
        rw [hverify] at hverify'
        exact AccountLog.mk.inj (Except.ok.inj hverify')
  subst hheld
  rw [h.pushAll hL] at hpush
  obtain rfl := Except.ok.inj hpush
  have hpayload : signed.payload =
      C.payloadOf (heldEntries (core.resolver addr) ++ update.entries) := by
    have hencode' := h.encodes hL
    have hlog : (AccountLogDraft.mk (heldEntries (core.resolver addr) ++ update.entries)).log =
        ⟨heldEntries (core.resolver addr) ++ update.entries⟩ := rfl
    rw [hlog, hencode'] at hencode
    exact (Except.ok.inj hencode).symm
  refine ⟨hpayload, hsignature, ?_⟩
  -- Signed with the account's key, it verifies.
  have hdecode := hL.decode_encode (h.readable_append hL) (h.encodes hL)
  rw [← hpayload] at hdecode
  have hverify : C.verify (C.addrOf update.key)
      ⟨signed.payload, C.sign update.key signed.payload⟩ = .ok _ := hA.verify_sign hdecode
  rw [h.key, ← hsignature] at hverify
  exact hverify

/-- The resolver takes what was written. -/
theorem Planned.resolves (hL : C.LogLaws) (hA : C.AccountLaws) (hsound : Sound C core)
    {update : Update} (h : Planned C addr core update) {signed : SignedAccountLog}
    (hsigned : C.update update.key update.base update.entries = .ok signed) :
    C.resolve addr (core.resolver addr) (some signed) =
      .ok (some ⟨⟨heldEntries (core.resolver addr) ++ update.entries⟩, signed⟩) := by
  refine hA.resolve_extends (h.signed_eq hL hA hsound hsigned).2.2 fun record hrecord => ?_
  rw [hrecord]
  exact List.prefix_append _ _

/-! ### What can refuse it -/

/-- What a publish measures after its read: an update the log takes, refused for its size only, or
because this build cannot read the log. -/
theorem Sound.fits_read (hL : C.LogLaws) (hsound : Sound C core)
    (hanswered : core.answered addr = true) {staged : List StagedEdit}
    (hstaged : core.staged addr = some staged) :
    core.fits C addr staged = .error .unreadable ∨ core.fits C addr staged = .error .overBudget ∨
      core.fits C addr staged = .ok () ∧ C.Readable (heldEntries (core.resolver addr)) ∧
        Takes C (heldEntries (core.resolver addr)) staged ∧
        (C.payloadOf (heldEntries (core.resolver addr) ++ plan staged)).length ≤
          C.maxPayloadBytes := by
  by_cases hread : C.Readable (heldEntries (core.record addr))
  · have hfor := hsound.staged addr
    rw [hstaged, Option.getD_some] at hfor
    have htakes := hfor.takes_record (.inl hanswered) hread
    have hfits := fits_eq hL hread htakes
    rw [record_of_answered hanswered] at hread htakes hfits
    rw [hfits]
    by_cases hsize : (C.payloadOf (heldEntries (core.resolver addr) ++ plan staged)).length ≤
        C.maxPayloadBytes
    · rw [if_pos hsize]
      exact .inr (.inr ⟨rfl, hread, htakes, hsize⟩)
    · rw [if_neg hsize]
      exact .inr (.inl rfl)
  · exact .inl (fits_unreadable hL hread staged)

/-- No revocation is staged while no log is shown. -/
def RevokesShown (core : AccountCore Addr) (addr : Addr) : Prop :=
  core.record addr = none → ∀ index, .revoke index ∉ (core.staged addr).getD []

/-- A log that is not hidden shows what is revoked of it. -/
theorem Sound.revokesShown (hsound : Sound C core) (hheld : core.record addr = core.resolver addr) :
    RevokesShown core addr := by
  intro hnone index hmem
  obtain ⟨record, hrecord, -⟩ := (hsound.staged addr).revoke index hmem
  rw [← hheld, hnone] at hrecord
  cases hrecord

/-- The log shown takes what is staged, where no revocation is staged against a hidden one. -/
theorem Sound.takes (hsound : Sound C core) (hshows : RevokesShown core addr)
    (hread : C.Readable (heldEntries (core.record addr))) :
    Takes C (heldEntries (core.record addr)) ((core.staged addr).getD []) := by
  refine (hsound.staged addr).takes_record ?_ hread
  by_cases hanswered : core.answered addr = true
  · exact .inl hanswered
  · exact .inr (hshows (record_of_not_answered hanswered))

/-- What staging makes of the edits staged fits the log, or is past its size, unless it goes on with
revocations of a hidden log. -/
theorem Sound.restaged_fits (hL : C.LogLaws) (h : Sound C core)
    (hread : C.Readable (heldEntries (core.record addr))) {staged : List StagedEdit}
    (hshown : core.answered addr = true ∨ ∀ index, .revoke index ∉ staged)
    (hrestages : core.Restages C addr staged) : core.fits C addr staged =
      if (C.payloadOf (heldEntries (core.record addr) ++ plan staged)).length ≤ C.maxPayloadBytes
      then .ok () else .error .overBudget :=
  fits_eq hL hread ((h.restages hL hshown hrestages).takes_record hshown hread)

/-- What staging would make of the edits staged is refused for its size only, unless a revocation
is staged against a hidden log. -/
theorem Sound.restages_fits (hL : C.LogLaws) (h : Sound C core)
    (hshows : RevokesShown core addr) (hread : C.Readable (heldEntries (core.record addr)))
    {staged : List StagedEdit}
    (hrestages : core.Restages C addr staged) :
    core.fits C addr staged = .ok () ∨ core.fits C addr staged = .error .overBudget := by
  have hshown : core.answered addr = true ∨ ∀ index, .revoke index ∉ staged := by
    by_cases hanswered : core.answered addr = true
    · exact .inl hanswered
    have hnone := record_of_not_answered hanswered
    have hbefore := hshows hnone
    refine .inr fun index hmem => ?_
    cases hrestages with
    | add hkey hdraft hlive hnew => exact hbefore index (by simpa using hmem)
    | rename hname hdraft hlive => exact hbefore index (by simpa [isRename] using hmem)
    | withdraw => exact hbefore index (List.mem_of_mem_filter hmem)
    | revoke hdraft hlive hnew =>
      obtain ⟨-, hsome⟩ := (extendable_ok hL).mp hdraft
      rw [hnone] at hsome
      cases hsome
  rw [h.restaged_fits hL hread hshown hrestages]
  split
  · exact .inl rfl
  · exact .inr rfl

/-! ### Planning and writing -/

variable [DecidableEq Addr] {w w' : World Addr}

/-- What was read is shown, whatever was settled then. -/
theorem Landed.answered (hL : C.LogLaws) {held : Option AccountRecord}
    (h : Landed C addr held w w') : w'.core.answered addr = true := by
  rw [h.core]
  rcases settle_cases hL (w.core.landed addr held w.now) addr with
    ⟨hsettle, -⟩ | ⟨_, _, _, -, -, -, -, hsettle⟩
  · rw [hsettle]
    exact landed_answered held w.now
  · rw [hsettle]
    exact landed_answered held w.now

theorem Landed.resolver (hL : C.LogLaws) {held : Option AccountRecord}
    (h : Landed C addr held w w') :
    w'.core.resolver = Function.update w.core.resolver addr held := by
  rw [h.core]
  rcases settle_cases hL (w.core.landed addr held w.now) addr with
    ⟨hsettle, -⟩ | ⟨_, _, _, -, -, -, -, hsettle⟩
  · rw [hsettle]
    rfl
  · rw [hsettle]
    rfl

theorem Landed.sound (hL : C.LogLaws) (hA : C.AccountLaws) (hsound : Sound C w.core)
    {held : Option AccountRecord} (h : Landed C addr held w w') : Sound C w'.core := by
  obtain ⟨fetched, -, hresolve⟩ := h.resolved
  rw [h.core]
  exact hsound.landed hL hA w.now hresolve

omit [DecidableEq Addr] in
/-- The key a publish signs with is that of the account. -/
theorem Admitted.addrOf (hsound : Sound C w.core) {key : Ed25519SigningKey}
    (h : Admitted C addr key w) : C.addrOf key = addr := by
  rcases h.key with hunlocked | ⟨hkey, -⟩
  · exact hsound.unlocked addr key hunlocked
  · exact hkey

/-- What is measured after the read is refused for nothing but its size, or because this build
cannot read the log. -/
theorem Landed.unfit (hL : C.LogLaws) (hA : C.AccountLaws) (hsound : Sound C w.core)
    {held : Option AccountRecord} (hlanded : Landed C addr held w w') {staged : List StagedEdit}
    (hstaged : w'.core.staged addr = some staged) {e : CoreError Addr}
    (hfits : w'.core.fits C addr staged = .error e) : e = .unreadable ∨ e = .overBudget := by
  rcases (hlanded.sound hL hA hsound).fits_read hL (hlanded.answered hL) hstaged with
    hunreadable | hover | ⟨hok, -⟩
  · exact .inl (Except.error.inj (hfits.symm.trans hunreadable))
  · exact .inr (Except.error.inj (hfits.symm.trans hover))
  · cases hfits.symm.trans hok

/-- What is planned is an update the log takes. -/
theorem Landed.planned (hL : C.LogLaws) (hA : C.AccountLaws) (hsound : Sound C w.core)
    {key : Ed25519SigningKey} (hadmitted : Admitted C addr key w) {held : Option AccountRecord}
    (hlanded : Landed C addr held w w') {staged : List StagedEdit}
    (hstaged : w'.core.staged addr = some staged) (hfits : w'.core.fits C addr staged = .ok ())
    {draft : Option AccountLogDraft} (hdraft : w'.core.extendable C addr = .ok draft) :
    Planned C addr w'.core {
      key := key
      firstNew := draft.elim 0 (·.entries.length)
      entries := plan staged
      base := (w'.core.record addr).map (·.signedLog) } := by
  have hanswered := hlanded.answered hL
  have hrecord := record_of_answered hanswered
  obtain ⟨hread, htakes, hsize⟩ : C.Readable (heldEntries (w'.core.resolver addr)) ∧
      Takes C (heldEntries (w'.core.resolver addr)) staged ∧
      (C.payloadOf (heldEntries (w'.core.resolver addr) ++ plan staged)).length ≤
        C.maxPayloadBytes := by
    rcases (hlanded.sound hL hA hsound).fits_read hL hanswered hstaged with
      hunreadable | hover | ⟨-, hfits⟩
    · cases hfits.symm.trans hunreadable
    · cases hfits.symm.trans hover
    · exact hfits
  obtain ⟨-, rfl⟩ := (extendable_ok hL).mp hdraft
  exact {
    answered := hanswered
    key := hadmitted.addrOf hsound
    staged := ⟨staged, hstaged, rfl⟩
    takes := by
      rw [hstaged]
      exact htakes
    base := by rw [hrecord]
    firstNew := by
      dsimp only
      rw [hrecord]
      cases w'.core.resolver addr <;> rfl
    readable := hread
    size := hsize }

/-- In every run, what a publish goes on to write is an update the log takes. -/
theorem Planned.of_plan (hV : C.VaultLaws) (hL : C.LogLaws) (hA : C.AccountLaws)
    (hsound : Sound C w.core) (hwritten : w.core.written = none) {update : Update}
    (hplan : (planUpdate C addr).on w = (.ok (.inr update), w')) :
    Planned C addr w'.core update := by
  have houtcome := planUpdate_outcome hV hwritten hplan
  cases houtcome with
  | planned hadmitted hlanded hstaged hfits hdraft =>
    exact hlanded.planned hL hA hsound hadmitted hstaged hfits hdraft

/-- Writing what was planned is refused by the store only, and what the store takes is what the
resolver holds after it. -/
theorem Planned.writes (hL : C.LogLaws) (hA : C.AccountLaws) (hsound : Sound C w.core)
    {update : Update} (h : Planned C addr w.core update) {r : Except (CoreError Addr) Published}
    (hwrite : (writeUpdate C addr update).on w = (r, w')) :
    ∃ signed, C.update update.key update.base update.entries = .ok signed ∧
      ((∃ e, r = .error (.account (.provider e)) ∧ (w.store.publish addr signed).1 = .error e ∧
          w' = { w with
            store := (w.store.publish addr signed).2
            asked := .published addr signed :: w.asked }) ∨
        Wrote C update signed w w' ∧
          r = .ok ⟨some update.firstNew, (w.core.dropped addr).getD 0⟩ ∧
          w'.core = AccountCore.collected { w.core with
            staged := Function.update w.core.staged addr none
            resolver := Function.update w.core.resolver addr
              (some ⟨⟨heldEntries (w.core.resolver addr) ++ update.entries⟩, signed⟩)
            written := none } addr) := by
  rcases writeUpdate_cases hwrite with
    ⟨e, -, hunsigned, -⟩ | ⟨e, signed, hr, hsigned, hrefused, hw⟩ | ⟨signed, hwrote, hread⟩
  · obtain ⟨signed, hsigned⟩ := h.signed hL hA hsound
    rw [hsigned] at hunsigned
    cases hunsigned
  · rw [h.key] at hrefused hw
    exact ⟨signed, hsigned, .inl ⟨e, hr, hrefused, hw⟩⟩
  · have hresolves := h.resolves hL hA hsound hwrote.update_eq
    refine ⟨signed, hwrote.update_eq, .inr ⟨hwrote, ?_⟩⟩
    rcases hread with ⟨e, -, hunresolved, -⟩ | ⟨held, hresolve, hr, hcore⟩
    · rw [hresolves] at hunresolved
      cases hunresolved
    · rw [hresolves] at hresolve
      obtain rfl := Except.ok.inj hresolve
      exact ⟨hr, hcore⟩

/-! ### What is staged can be pushed -/

/-- The edits staged for an account can be pushed onto the log `entries`, whatever is staged next
included. -/
structure Pushable (C : Crates Addr) (w : World Addr) (addr : Addr) (entries : List AccountEntry) :
    Prop where
  revoke : ∀ index, .revoke index ∈ (w.core.staged addr).getD [] → isLive entries index = true
  key : ∀ key, .addInstallation key ∈ (w.core.staged addr).getD [] → ¬KeyLive entries key.bytes
  push : C.pushAll ⟨entries⟩ (w.core.plannedEntries addr) =
    .ok ⟨entries ++ w.core.plannedEntries addr⟩
  fits : w.core.fits C addr ((w.core.staged addr).getD []) = .ok () ∨
    w.core.fits C addr ((w.core.staged addr).getD []) = .error .overBudget
  stages : ∀ op : CoreOp Addr, op.Stages addr → ∀ error,
    (op.run C w).1 ≠ .error (.log error)

theorem Sound.pushable (hV : C.VaultLaws) (hL : C.LogLaws) (hA : C.AccountLaws)
    (hsound : Sound C w.core) (hshows : RevokesShown w.core addr)
    (hread : C.Readable (heldEntries (w.core.record addr))) :
    Pushable C w addr (heldEntries (w.core.record addr)) := by
  have htakes := hsound.takes hshows hread
  refine ⟨htakes.revoke, fun key hmem => (htakes.key key hmem).2, pushAll_plan hL hread htakes, ?_,
    fun op hop error herr => ?_⟩
  · rw [fits_eq hL hread htakes]
    split
    · exact .inl rfl
    · exact .inr rfl
  · -- A staging refused once it is measured is refused for its size.
    have hfailed : ∀ {e : CoreError Addr} {w' : World Addr}, StagingFailed C addr e w w' →
        e ≠ .log error := by
      rintro e w' ⟨-, hoff | ⟨staged, hrestages, hfits⟩⟩ rfl
      · exact hoff
      · rcases hsound.restages_fits hL hshows hread hrestages with hok | hover
        · rw [hok] at hfits
          cases hfits
        · rw [hover] at hfits
          cases hfits
    generalize hrun : op.run C w = ran at herr
    obtain ⟨r, w'⟩ := ran
    subst herr
    unfold CoreOp.run at hrun
    cases op with
    | stageAddInstallation addr' keyHex =>
      obtain rfl : addr' = addr := hop
      rcases Action.on_bind_error.mp hrun with h | ⟨u, w₁, -, h⟩
      · exact hfailed (stageAddInstallation_error hV hA h) rfl
      · cases (Prod.mk.inj h).1
    | stageSetDisplayName addr' name =>
      obtain rfl : addr' = addr := hop
      rcases Action.on_bind_error.mp hrun with h | ⟨u, w₁, -, h⟩
      · exact hfailed (stageSetDisplayName_error hV h) rfl
      · cases (Prod.mk.inj h).1
    | stageRevoke addr' index =>
      obtain rfl : addr' = addr := hop
      rcases Action.on_bind_error.mp hrun with h | ⟨u, w₁, -, h⟩
      · exact hfailed (stageRevoke_error hV h) rfl
      · cases (Prod.mk.inj h).1
    | _ => exact hop

/-- A publish is not refused for an entry the log does not take. -/
theorem Sound.publish_error (hV : C.VaultLaws) (hL : C.LogLaws) (hA : C.AccountLaws)
    (hsound : Sound C w.core) (hwritten : w.core.written = none) {e : CoreError Addr}
    (h : (publish C addr).on w = (.error e, w')) :
    OffLog e ∧ Looked w w' ∨ (∃ error, e = .account error ∧ Failed C addr error w w') ∨
      ∃ held w₁, Landed C addr held w w₁ ∧ (w' = w₁ ∧ (e = .unreadable ∨ e = .overBudget) ∨
        ∃ error update, e = .account (.provider error) ∧
          (planUpdate C addr).on w = (.ok (.inr update), w₁) ∧ Planned C addr w₁.core update ∧
          (writeUpdate C addr update).on w₁ = (.error e, w')) := by
  generalize hr : Except.error e = r at h
  cases publish_outcome hV hwritten h with
  | refused hoff hlooked =>
    obtain rfl := Except.error.inj hr
    exact .inl ⟨hoff, hlooked⟩
  | unread hadmitted hfailed => exact .inr (.inl ⟨_, Except.error.inj hr, hfailed⟩)
  | nothing => cases hr
  | unfit hadmitted hlanded hstaged hfits =>
    obtain rfl := Except.error.inj hr
    exact .inr (.inr ⟨_, _, hlanded, .inl ⟨rfl, hlanded.unfit hL hA hsound hstaged hfits⟩⟩)
  | written hadmitted hlanded hkey hplan hwrite =>
    subst hr
    have hplanned := Planned.of_plan hV hL hA hsound hwritten hplan
    obtain ⟨signed, -, ⟨error, he, -⟩ | ⟨-, hok, -⟩⟩ :=
      hplanned.writes hL hA (hlanded.sound hL hA hsound) hwrite
    · exact .inr (.inr ⟨_, _, hlanded,
        .inr ⟨error, _, Except.error.inj he, hplan, hplanned, hwrite⟩⟩)
    · cases hok

/-- What is to hold of the edits staged for an account: a list that is not empty, of distinct edits
and one rename at most; its plan is pushed onto the log shown, where this build can read it, and a
publish is never refused by the log but where the log it read does not check. -/
structure StagedPlan (C : Crates Addr) (w : World Addr) (addr : Addr) : Prop where
  nonempty : w.core.staged addr ≠ some []
  nodup : ((w.core.staged addr).getD []).Nodup
  oneRename : (((w.core.staged addr).getD []).filter isRename).length ≤ 1
  pushable : C.Readable (heldEntries (w.core.record addr)) →
    Pushable C w addr (heldEntries (w.core.record addr))
  publish : ∀ e w', (publish C addr).on w = (.error e, w') → (∀ error, e ≠ .log error) ∧
    ∀ error, e = .account (.log error) → Failed C addr (.log error) w w'

/-- In every run, the edits staged for an account are as they are to be exactly where none of them
revokes an entry of a log that is not shown. -/
theorem staged_plan_is_pushable_iff (hV : C.VaultLaws) (hL : C.LogLaws) (hA : C.AccountLaws)
    (h : Reachable C w) (addr : Addr) : StagedPlan C w addr ↔ RevokesShown w.core addr := by
  have hsound := h.sound hV hL hA
  constructor
  · -- No log takes a revocation it has no entry for, and the empty one has none.
    intro hplan hnone index hmem
    obtain ⟨e, hrefused⟩ := fits_of_hidden_revoke hL hnone hmem
    have hread : C.Readable (heldEntries (w.core.record addr)) := by
      rw [hnone]
      exact Crates.readable_nil hL
    rcases (hplan.pushable hread).fits with hok | hover
    · rw [hrefused] at hok
      cases hok
    · rw [hrefused] at hover
      cases hover
  · intro hshows
    refine ⟨hsound.nonempty addr, (hsound.staged addr).nodup, (hsound.staged addr).oneRename,
      hsound.pushable hV hL hA hshows, fun e w' hpublish => ?_⟩
    rcases hsound.publish_error hV hL hA (h.written_eq hV hA) hpublish with
      ⟨hoff, -⟩ | ⟨error, rfl, hfailed⟩ | ⟨held, w₁, -, ⟨-, rfl | rfl⟩ | ⟨error, update, rfl, -⟩⟩
    · exact ⟨fun error he => by rw [he] at hoff; exact hoff,
        fun error he => by rw [he] at hoff; exact hoff.elim⟩
    · refine ⟨by simp, fun error' he => ?_⟩
      obtain rfl := CoreError.account.inj he
      exact hfailed
    · exact ⟨by simp, by simp⟩
    · exact ⟨by simp, by simp⟩
    · exact ⟨by simp, by simp⟩

/-- An account that published its name, and is about to replace it. -/
def renamedTwice : World Reference.Addr :=
  CoreOp.runs Crates.reference [.createAccount (Reference.someKey 1) none 0,
    .stageSetDisplayName ⟨(Reference.someKey 1).bytes⟩ "Saro",
    .publish ⟨(Reference.someKey 1).bytes⟩, .stageRevoke ⟨(Reference.someKey 1).bytes⟩ 0,
    .stageSetDisplayName ⟨(Reference.someKey 1).bytes⟩ "Raya"] (.start [])

theorem staged_plan_is_pushable_iff_renaming :
    StagedPlan Crates.reference renamedTwice ⟨(Reference.someKey 1).bytes⟩ := by
  have hreachable : Reachable Crates.reference renamedTwice := (Reachable.fresh rfl).runs _
  have hshown : (renamedTwice.core.record ⟨(Reference.someKey 1).bytes⟩).isSome = true := by
    decide +kernel
  refine (staged_plan_is_pushable_iff Reference.vaultLaws Reference.logLaws Reference.accountLaws
    hreachable _).mpr fun hnone => ?_
  rw [hnone] at hshown
  cases hshown

/-- The app observes the account, whose name another app published. -/
def observing : World Reference.Addr :=
  CoreOp.runs Crates.reference [.observe ⟨(Reference.someKey 1).bytes⟩]
    { World.start [] with store := (CoreOp.runs Crates.reference
      [.createAccount (Reference.someKey 1) none 0,
        .stageSetDisplayName ⟨(Reference.someKey 1).bytes⟩ "Saro",
        .publish ⟨(Reference.someKey 1).bytes⟩] (.start [])).store }

/-- Of an import, the first call that would write the list of observed accounts will fail. -/
def unwritable : World Reference.Addr :=
  { observing with disk := ⟨observing.disk.fs, List.replicate 16 none ++ [some ⟨28, none⟩]⟩ }

/-- The key is imported, and the account is held, and still listed.  The name is about to be revoked
when the app stops observing the account. -/
def hiddenRevoke : World Reference.Addr :=
  CoreOp.runs Crates.reference
    [.importAccount (String.ofList (Hex.encode (Reference.someKey 1).bytes.toList)) none 0,
      .refresh ⟨(Reference.someKey 1).bytes⟩, .stageRevoke ⟨(Reference.someKey 1).bytes⟩ 0,
      .stopObserving ⟨(Reference.someKey 1).bytes⟩] unwritable

/-- What is staged there is refused by the log it is measured against. -/
theorem staged_plan_not_pushable : Reachable Crates.reference hiddenRevoke ∧
    ¬StagedPlan Crates.reference hiddenRevoke ⟨(Reference.someKey 1).bytes⟩ := by
  have hfacts : (hiddenRevoke.core.record ⟨(Reference.someKey 1).bytes⟩).isNone = true ∧
      .revoke 0 ∈ (hiddenRevoke.core.staged ⟨(Reference.someKey 1).bytes⟩).getD [] := by
    decide +kernel
  have hobserving : Reachable Crates.reference observing := (Reachable.fresh rfl).runs _
  have hunwritable : Reachable Crates.reference unwritable := .elsewhere hobserving (by
    unfold unwritable
    dsimp only)
  have hreachable : Reachable Crates.reference hiddenRevoke := hunwritable.runs _
  refine ⟨hreachable, fun hplan => ?_⟩
  have hnone := Option.isNone_iff_eq_none.mp hfacts.1
  obtain ⟨e, hrefused⟩ := fits_of_hidden_revoke Reference.logLaws hnone hfacts.2
  have hread : Crates.reference.Readable
      (heldEntries (hiddenRevoke.core.record ⟨(Reference.someKey 1).bytes⟩)) := by
    rw [hnone]
    exact Crates.readable_nil Reference.logLaws
  rcases (hplan.pushable hread).fits with hok | hover
  · rw [hrefused] at hok
    cases hok
  · rw [hrefused] at hover
    cases hover

end AccountLogUi.Manager
