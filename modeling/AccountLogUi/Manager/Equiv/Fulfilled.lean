import AccountLogUi.Manager.Equiv.Repeating

/-!
# A publish does what was staged

Settling judges each staged edit on its own against the log just read, and what it keeps is written
as one update.  A revocation or a key that it drops stays done whatever the rest of the update does.
A name does not: dropped since it is in force already, it goes out of force with the entry it is,
where a revocation of that entry was staged beside it.

`Undone` is that case, and `publish_fulfils_iff` says it is the only one.
-/

namespace AccountLogUi.Manager

variable {Addr : Type} {C : Crates Addr} {entries : List AccountEntry} {staged : List StagedEdit}
  {held : Option AccountRecord} {unmasked : Bool}

/-- The log does what was staged. -/
structure Fulfilled (C : Crates Addr) (staged : List StagedEdit) (entries : List AccountEntry) :
    Prop where
  revoked : ∀ index, .revoke index ∈ staged → isLive entries index = false
  added : ∀ key, .addInstallation key ∈ staged → KeyLive entries key.bytes
  named : ∀ name, .setDisplayName name ∈ staged → liveDisplayName C ⟨entries⟩ = some name

/-- Of the live names the edits do not revoke, the highest-indexed one is `name`. -/
def LastLeft (entries : List AccountEntry) (staged : List StagedEdit) (name : String) : Prop :=
  ∃ index, NameLive entries index name ∧ .revoke index ∉ staged ∧
    ∀ index' name', NameLive entries index' name' → .revoke index' ∉ staged → index' ≤ index

/-- The name staged is in force in the log, and what is revoked beside it takes it out of force. -/
def Undone (C : Crates Addr) (entries : List AccountEntry) (staged : List StagedEdit) : Prop :=
  ∃ name, .setDisplayName name ∈ staged ∧ liveDisplayName C ⟨entries⟩ = some name ∧
    ¬LastLeft entries staged name

/-- What settling against a log keeps. -/
def kept (C : Crates Addr) (entries : List AccountEntry) (staged : List StagedEdit) :
    List StagedEdit :=
  staged.filter (AccountCore.needed C ⟨entries⟩ ⟨entries⟩)

theorem mem_kept {edit : StagedEdit} : edit ∈ kept C entries staged ↔
    edit ∈ staged ∧ AccountCore.needed C ⟨entries⟩ ⟨entries⟩ edit = true := List.mem_filter

theorem kept_staged (hL : C.LogLaws) (h : StagedFor C held unmasked staged)
    (hread : C.Readable entries) :
    Takes C entries (kept C entries staged) ∧ WellFormed C (kept C entries staged) := by
  have hsettled : StagedFor C (some ⟨⟨entries⟩, ⟨[], []⟩⟩) true (kept C entries staged) :=
    h.settled hL ⟨⟨entries⟩, ⟨[], []⟩⟩
  exact ⟨hsettled.takes (.inl rfl) hread, hsettled.toWellFormed⟩

/-- An edit kept is done by the update. -/
theorem done_of_kept (hL : C.LogLaws) (h : StagedFor C held unmasked staged)
    (hread : C.Readable entries) {edit : StagedEdit} (hmem : edit ∈ kept C entries staged) :
    AccountCore.needed C ⟨entries ++ plan (kept C entries staged)⟩
      ⟨entries ++ plan (kept C entries staged)⟩ edit = false :=
  not_needed_of_plan hL hread (kept_staged hL h hread).1 (kept_staged hL h hread).2 hmem

/-- A revocation is of an entry below the end of the log. -/
theorem revoke_lt (h : StagedFor C held unmasked staged) (hextends : heldEntries held <+: entries)
    {index : ℕ} (hmem : .revoke index ∈ staged) : index < (heldEntries held).length ∧
      index < entries.length := by
  obtain ⟨record, rfl, hlt, -⟩ := h.revoke index hmem
  exact ⟨hlt, hlt.trans_le hextends.length_le⟩

theorem revoked_of_staged (hL : C.LogLaws) (h : StagedFor C held unmasked staged)
    (hextends : heldEntries held <+: entries) {index : ℕ}
    (hmem : .revoke index ∈ staged) :
    isLive (entries ++ plan (kept C entries staged)) index = false := by
  rw [Bool.eq_false_iff]
  intro hlive
  obtain ⟨hbefore, hspared⟩ := (isLive_before_plan (revoke_lt h hextends hmem).2).mp hlive
  refine hspared (mem_kept.mpr ⟨hmem, ?_⟩)
  exact (@needed_iff _ _ hL ⟨entries⟩ _).mpr hbefore

/-- No revocation staged is of a key staged: a key live when it was staged was refused. -/
theorem key_spared (hL : C.LogLaws) (h : StagedFor C held unmasked staged)
    (hread : C.Readable entries) (hextends : heldEntries held <+: entries)
    {key : Ed25519VerifyingKey} (hmem : .addInstallation key ∈ staged) {index : ℕ}
    {context : Context} (hentry : entries[index]? = some (.add context (.ed25519Key key.bytes)))
    (hlive : isLive entries index = true) : .revoke index ∉ staged := by
  intro hrevoke
  obtain ⟨hlt, -⟩ := revoke_lt h hextends hrevoke
  obtain ⟨record, rfl, -⟩ := h.revoke index hrevoke
  have hread' : C.Readable record.log.entries := hread.of_prefix hL hextends
  refine h.notLive (.inr ⟨index, hrevoke⟩) record rfl hread' key hmem ⟨index, context, ?_, ?_⟩
  · obtain ⟨more, rfl⟩ := hextends
    exact (List.getElem?_append_left hlt).symm.trans hentry
  · exact isLive_of_prefix hextends hlt hlive

theorem added_of_staged (hL : C.LogLaws) (h : StagedFor C held unmasked staged)
    (hread : C.Readable entries) (hextends : heldEntries held <+: entries)
    {key : Ed25519VerifyingKey} (hmem : .addInstallation key ∈ staged) :
    KeyLive (entries ++ plan (kept C entries staged)) key.bytes := by
  by_cases hneeded : AccountCore.needed C ⟨entries⟩ ⟨entries⟩ (.addInstallation key) = true
  · have hdone := done_of_kept hL h hread (mem_kept.mpr ⟨hmem, hneeded⟩)
    rw [Bool.eq_false_iff, Ne, @needed_iff _ _ hL ⟨_⟩, not_not] at hdone
    exact hdone
  · -- Dropped since it is live, and the entry that makes it so stays.
    rw [@needed_iff _ _ hL ⟨entries⟩, not_not] at hneeded
    obtain ⟨index, context, hentry, hlive⟩ := hneeded
    have hlt := isLive_lt hlive
    refine ⟨index, context, (List.getElem?_append_left hlt).trans hentry,
      (isLive_before_plan hlt).mpr ⟨hlive, fun hrevoke => ?_⟩⟩
    exact key_spared hL h hread hextends hmem hentry hlive (mem_kept.mp hrevoke).1

/-- Where no name is written, the names live after the update are those it does not revoke. -/
theorem nameLive_kept (hL : C.LogLaws)
    (hnames : ∀ name, .setDisplayName name ∉ kept C entries staged) {index : ℕ} {name : String} :
    NameLive (entries ++ plan (kept C entries staged)) index name ↔
      NameLive entries index name ∧ .revoke index ∉ staged := by
  rcases Nat.lt_or_ge index entries.length with hlt | hge
  · have hrevoked : isLive entries index = true →
        (.revoke index ∉ kept C entries staged ↔ .revoke index ∉ staged) := by
      intro hlive
      rw [mem_kept, @needed_iff _ _ hL ⟨entries⟩]
      simp [hlive]
    unfold NameLive
    rw [List.getElem?_append_left hlt, isLive_before_plan hlt, and_assoc]
    exact and_congr_right fun _ => and_congr_right hrevoked
  · constructor
    · rintro ⟨hentry, -⟩
      rw [List.getElem?_append_right hge] at hentry
      obtain ⟨edit, hedit, hname⟩ := mem_plan.mp (List.mem_of_getElem? hentry)
      obtain rfl : edit = .setDisplayName name := entryOf_injective hname
      exact absurd hedit (hnames name)
    · rintro ⟨⟨hentry, -⟩, -⟩
      exact absurd (List.getElem?_eq_some_iff.mp hentry).1 (by omega)

/-- A name is in force after the update, unless it was in force before it and is undone. -/
theorem named_iff (hL : C.LogLaws) (h : StagedFor C held unmasked staged)
    (hread : C.Readable entries) {name : String} (hmem : .setDisplayName name ∈ staged) :
    liveDisplayName C ⟨entries ++ plan (kept C entries staged)⟩ = some name ↔
      (liveDisplayName C ⟨entries⟩ = some name → LastLeft entries staged name) := by
  by_cases hforce : liveDisplayName C ⟨entries⟩ = some name
  · have hnames : ∀ name', .setDisplayName name' ∉ kept C entries staged := by
      intro name' hkept
      obtain ⟨hmem', hneeded⟩ := mem_kept.mp hkept
      obtain rfl := h.rename_unique hmem hmem'
      exact (@needed_iff _ _ hL ⟨entries⟩ _).mp hneeded hforce
    rw [liveDisplayName_eq_some hL]
    simp only [nameLive_kept hL hnames, hforce, forall_const, and_imp]
    unfold LastLeft
    simp only [and_assoc]
  · have hneeded : AccountCore.needed C ⟨entries⟩ ⟨entries⟩ (.setDisplayName name) = true :=
      (@needed_iff _ _ hL ⟨entries⟩ _).mpr hforce
    have hdone := done_of_kept hL h hread (mem_kept.mpr ⟨hmem, hneeded⟩)
    rw [Bool.eq_false_iff, Ne, @needed_iff _ _ hL ⟨_⟩, not_not] at hdone
    exact ⟨fun _ hforce' => absurd hforce' hforce, fun _ => hdone⟩

/-- The update does what was staged, unless it undoes a name. -/
theorem fulfilled_iff (hL : C.LogLaws) (h : StagedFor C held unmasked staged)
    (hread : C.Readable entries) (hextends : heldEntries held <+: entries) :
    Fulfilled C staged (entries ++ plan (kept C entries staged)) ↔ ¬Undone C entries staged := by
  constructor
  · rintro hfulfilled ⟨name, hmem, hforce, hspares⟩
    exact hspares ((named_iff hL h hread hmem).mp (hfulfilled.named name hmem) hforce)
  · intro hundone
    refine ⟨fun index => revoked_of_staged hL h hextends,
      fun key => added_of_staged hL h hread hextends, fun name hmem => ?_⟩
    refine (named_iff hL h hread hmem).mpr fun hforce => ?_
    by_contra hspares
    exact hundone ⟨name, hmem, hforce, hspares⟩

/-! ### Publishing -/

variable [DecidableEq Addr] {w w' : World Addr} {addr : Addr}

/-- The log the store holds for an account checks, and has these entries; or it holds none. -/
def Holds (C : Crates Addr) (store : Store Addr) (addr : Addr)
    (entries : List AccountEntry) : Prop :=
  match store.held addr with
  | none => entries = []
  | some signed => C.verify addr signed = .ok ⟨entries⟩

instance (store : Store Addr) : Decidable (Holds C store addr entries) :=
  match h : store.held addr with
  | none => decidable_of_iff (entries = []) (by unfold Holds; rw [h])
  | some signed => decidable_of_iff (C.verify addr signed = .ok ⟨entries⟩) (by unfold Holds; rw [h])

theorem Holds.congr {store store' : Store Addr} (h : Holds C store addr entries)
    (heq : store'.held addr = store.held addr) : Holds C store' addr entries := by
  unfold Holds at h ⊢
  rwa [heq]

/-- The store answers a read with the log it holds, which goes on from the one the app holds. -/
structure Serves (C : Crates Addr) (w : World Addr) (addr : Addr) (entries : List AccountEntry) :
    Prop where
  answers : (w.store.fetch addr).1 = .ok (w.store.held addr)
  holds : Holds C w.store addr entries
  goesOn : heldEntries (w.core.resolver addr) <+: entries

/-- What is served is what a read brings. -/
theorem Serves.landed (hA : C.AccountLaws) (h : Serves C w addr entries)
    {held : Option AccountRecord} (hlanded : Landed C addr held w w') :
    heldEntries held = entries := by
  obtain ⟨fetched, hfetch, hresolve⟩ := hlanded.resolved
  have hgoesOn := h.goesOn
  have hholds := h.holds
  rw [h.answers] at hfetch
  obtain rfl := Except.ok.inj hfetch
  unfold Holds at hholds
  cases hheld : w.store.held addr with
  | none =>
    -- Nothing is held, so the record was empty, and nothing was fetched to adopt.
    rw [hheld] at hholds hresolve
    obtain rfl : entries = [] := hholds
    rcases hA.resolve_adopts hresolve with rfl | ⟨signed, log, hnone, -⟩
    · exact List.prefix_nil.mp hgoesOn
    · cases hnone
  | some signed =>
    rw [hheld] at hholds hresolve
    have hverify : C.verify addr signed = .ok ⟨entries⟩ := hholds
    have hextends : ∀ record, w.core.resolver addr = some record →
        record.log.entries <+: entries := by
      intro record hrecord
      rw [hrecord] at hgoesOn
      exact hgoesOn
    rw [hA.resolve_extends hverify hextends] at hresolve
    rw [← Except.ok.inj hresolve]
    rfl

/-- A read keeps what settling against the log served does. -/
theorem Serves.kept (hL : C.LogLaws) (hA : C.AccountLaws) (hsound : Sound C w.core)
    (h : Serves C w addr entries) (hread : C.Readable entries) {held : Option AccountRecord}
    (hlanded : Landed C addr held w w') :
    (w'.core.staged addr).getD [] = Manager.kept C entries ((w.core.staged addr).getD []) := by
  have hheld := h.landed hA hlanded
  have hstaged := @getD_staged_settle _ C _ (w.core.landed addr held w.now) addr
  rw [landed_record] at hstaged
  have hsame : (w.core.landed addr held w.now).staged = w.core.staged := rfl
  rw [hlanded.core, hstaged, hsame]
  cases held with
  | some record =>
    obtain rfl : record.log.entries = entries := hheld
    exact leftToDo_readable hread _
  | none =>
    -- On an empty log there is all of it to do, as there is nothing to revoke.
    obtain rfl : [] = entries := hheld
    refine (List.filter_eq_self.mpr fun edit hmem => ?_).symm
    refine (@needed_iff _ _ hL ⟨[]⟩ edit).mpr ?_
    cases edit with
    | revoke index => exact absurd (revoke_lt (hsound.staged addr) h.goesOn hmem).2 (by simp)
    | addInstallation key =>
      rintro ⟨index, context, hentry, -⟩
      cases hentry
    | setDisplayName name =>
      dsimp only
      rw [Ne, liveDisplayName_eq_some hL]
      rintro ⟨index, ⟨hentry, -⟩, -⟩
      cases hentry

/-- What the store holds after a publish: the log served, with what was kept of the edits staged. -/
theorem Serves.publish (hV : C.VaultLaws) (hL : C.LogLaws) (hA : C.AccountLaws)
    (hsound : Sound C w.core) (hwritten : w.core.written = none) (h : Serves C w addr entries)
    (hread : C.Readable entries) {published : Published}
    (hrun : (publish C addr).on w = (.ok published, w')) : Holds C w'.store addr
      (entries ++ plan (Manager.kept C entries ((w.core.staged addr).getD []))) := by
  generalize hanswer : Except.ok published = r at hrun
  cases publish_outcome hV hwritten hrun with
  | refused | unread | unfit => cases hanswer
  | @nothing key held w₁ hadmitted hlanded hnone =>
    -- All that was staged is in the log served.
    have hkept := h.kept hL hA hsound hread hlanded
    rw [hnone] at hkept
    rw [← hkept]
    have hstore : w₁.store.held addr = w.store.held addr := by
      rw [hlanded.store, Store.held_fetch]
    have hholds := h.holds.congr hstore
    rwa [← List.append_nil entries] at hholds
  | @written key held update r w₁ w' hadmitted hlanded hkey hplan hwrite =>
    subst hanswer
    have hplanned := Planned.of_plan hV hL hA hsound hwritten hplan
    have hsound₁ := hlanded.sound hL hA hsound
    have hshown : heldEntries (w₁.core.resolver addr) = entries := by
      rw [hlanded.resolver hL, Function.update_self]
      exact h.landed hA hlanded
    have hentries : update.entries =
        plan (Manager.kept C entries ((w.core.staged addr).getD [])) := by
      obtain ⟨staged, hsome, hentries⟩ := hplanned.staged
      rw [← h.kept hL hA hsound hread hlanded, hsome]
      exact hentries
    obtain ⟨signed, hsigned, ⟨e, hr, -⟩ | ⟨hwrote, -⟩⟩ := hplanned.writes hL hA hsound₁ hwrite
    · cases hr
    obtain ⟨-, -, hverify⟩ := hplanned.signed_eq hL hA hsound₁ hsigned
    have htaken := hwrote.taken
    rw [hplanned.key] at htaken
    unfold Holds
    rw [hwrote.store, hplanned.key, Store.held_publish_ok htaken, ← hentries, ← hshown]
    exact hverify

/-- In every run, where the store serves a readable log that goes on from the one held, a publish
that answers leaves the store with a log that does what was staged: what is revoked is not live,
what is endorsed is, and the name is in force; unless the name was in force in the log served, and
is undone by what is revoked beside it. -/
theorem publish_fulfils_iff (hV : C.VaultLaws) (hL : C.LogLaws) (hA : C.AccountLaws)
    (h : Reachable C w) (hserves : Serves C w addr entries) (hread : C.Readable entries)
    {published : Published} (hrun : (publish C addr).on w = (.ok published, w')) :
    ∃ entries', Holds C w'.store addr entries' ∧
      (Fulfilled C ((w.core.staged addr).getD []) entries' ↔
        ¬Undone C entries ((w.core.staged addr).getD [])) := by
  have hsound := h.sound hV hL hA
  exact ⟨_, hserves.publish hV hL hA hsound (h.written_eq hV hA) hread hrun,
    fulfilled_iff hL (hsound.staged addr) hread hserves.goesOn⟩

theorem renamedTwice_serves : Serves Crates.reference renamedTwice ⟨(Reference.someKey 1).bytes⟩
    [.add displayNameContext (.text "Saro")] := by
  have hfacts : ((renamedTwice.store.fetch ⟨(Reference.someKey 1).bytes⟩).1 =
        .ok (renamedTwice.store.held ⟨(Reference.someKey 1).bytes⟩)) ∧
      Holds Crates.reference renamedTwice.store ⟨(Reference.someKey 1).bytes⟩
        [.add displayNameContext (.text "Saro")] ∧
      heldEntries (renamedTwice.core.resolver ⟨(Reference.someKey 1).bytes⟩) <+:
        [.add displayNameContext (.text "Saro")] := by
    decide +kernel
  generalize renamedTwice = w at *
  exact ⟨hfacts.1, hfacts.2.1, hfacts.2.2⟩

/-- The name published is revoked, and the one staged beside it is in force. -/
theorem publish_fulfils_renamed : ∃ published w' entries',
    (publish Crates.reference ⟨(Reference.someKey 1).bytes⟩).on renamedTwice = (.ok published, w') ∧
      Holds Crates.reference w'.store ⟨(Reference.someKey 1).bytes⟩ entries' ∧
      Fulfilled Crates.reference
        ((renamedTwice.core.staged ⟨(Reference.someKey 1).bytes⟩).getD []) entries' := by
  have hfacts : ((publish Crates.reference ⟨(Reference.someKey 1).bytes⟩).on
        renamedTwice).1.toOption.isSome = true ∧
      renamedTwice.core.staged ⟨(Reference.someKey 1).bytes⟩ =
        some [.revoke 0, .setDisplayName "Raya"] := by
    decide +kernel
  have hserves := renamedTwice_serves
  have hreachable : Reachable Crates.reference renamedTwice := (Reachable.fresh rfl).runs _
  generalize renamedTwice = w at *
  obtain ⟨hanswers, hstaged⟩ := hfacts
  rcases hpublish : (publish Crates.reference ⟨(Reference.someKey 1).bytes⟩).on w with ⟨r, w'⟩
  rw [hpublish] at hanswers
  rcases r with e | published
  · cases hanswers
  obtain ⟨entries', hholds, hiff⟩ := publish_fulfils_iff Reference.vaultLaws Reference.logLaws
    Reference.accountLaws hreachable hserves rfl hpublish
  refine ⟨published, w', entries', rfl, hholds, hiff.mpr ?_⟩
  rw [hstaged]
  rintro ⟨name, hmem, hforce, -⟩
  obtain rfl : name = "Raya" := by simpa using hmem
  exact absurd hforce (by decide +kernel)

/-- An account with two names published, about to revoke the first entry and take its name again. -/
def takingBack : World Reference.Addr :=
  CoreOp.runs Crates.reference [.createAccount (Reference.someKey 1) none 0,
    .stageSetDisplayName ⟨(Reference.someKey 1).bytes⟩ "Saro",
    .publish ⟨(Reference.someKey 1).bytes⟩,
    .stageSetDisplayName ⟨(Reference.someKey 1).bytes⟩ "Raya",
    .publish ⟨(Reference.someKey 1).bytes⟩, .stageRevoke ⟨(Reference.someKey 1).bytes⟩ 0,
    .stageSetDisplayName ⟨(Reference.someKey 1).bytes⟩ "Saro"] (.start [])

/-- Meanwhile another device revoked the second one. -/
def revokedElsewhere : World Reference.Addr :=
  { takingBack with store := (CoreOp.runs Crates.reference [
      .refresh ⟨(Reference.someKey 1).bytes⟩, .stageRevoke ⟨(Reference.someKey 1).bytes⟩ 1,
      .publish ⟨(Reference.someKey 1).bytes⟩] { takingBack with core := .new }).store }

theorem revokedElsewhere_reachable : Reachable Crates.reference revokedElsewhere := by
  have hreachable : Reachable Crates.reference takingBack := (Reachable.fresh rfl).runs _
  unfold revokedElsewhere
  generalize takingBack = w at *
  exact .elsewhere hreachable rfl

/-- The log the other device left, in which the first name is in force. -/
def swapped : List AccountEntry :=
  [.add displayNameContext (.text "Saro"), .add displayNameContext (.text "Raya"), .remove 1]

/-- A publish that answers may leave no name in force, though one was staged. -/
theorem name_undone : ∃ w published w' entries', Reachable Crates.reference w ∧
    Serves Crates.reference w ⟨(Reference.someKey 1).bytes⟩ swapped ∧
    Crates.reference.Readable swapped ∧
    (publish Crates.reference ⟨(Reference.someKey 1).bytes⟩).on w = (.ok published, w') ∧
    Holds Crates.reference w'.store ⟨(Reference.someKey 1).bytes⟩ entries' ∧
    ¬Fulfilled Crates.reference
      ((w.core.staged ⟨(Reference.someKey 1).bytes⟩).getD []) entries' := by
  have hserved : ((revokedElsewhere.store.fetch ⟨(Reference.someKey 1).bytes⟩).1 =
        .ok (revokedElsewhere.store.held ⟨(Reference.someKey 1).bytes⟩)) ∧
      Holds Crates.reference revokedElsewhere.store ⟨(Reference.someKey 1).bytes⟩ swapped ∧
      heldEntries (revokedElsewhere.core.resolver ⟨(Reference.someKey 1).bytes⟩) <+: swapped := by
    decide +kernel
  have hfacts : ((publish Crates.reference ⟨(Reference.someKey 1).bytes⟩).on
        revokedElsewhere).1.toOption.isSome = true ∧
      revokedElsewhere.core.staged ⟨(Reference.someKey 1).bytes⟩ =
        some [.revoke 0, .setDisplayName "Saro"] ∧
      Holds Crates.reference ((publish Crates.reference ⟨(Reference.someKey 1).bytes⟩).on
        revokedElsewhere).2.store ⟨(Reference.someKey 1).bytes⟩ (swapped ++ [.remove 0]) := by
    decide +kernel
  have hreachable := revokedElsewhere_reachable
  generalize revokedElsewhere = w at *
  obtain ⟨hanswers, hstaged, hholds⟩ := hfacts
  rcases hpublish : (publish Crates.reference ⟨(Reference.someKey 1).bytes⟩).on w with ⟨r, w'⟩
  rw [hpublish] at hanswers hholds
  rcases r with e | published
  · cases hanswers
  refine ⟨w, published, w', swapped ++ [.remove 0], hreachable,
    ⟨hserved.1, hserved.2.1, hserved.2.2⟩, rfl, hpublish, hholds, fun hfulfilled => ?_⟩
  rw [hstaged] at hfulfilled
  have hnamed := hfulfilled.named "Saro" (by simp)
  exact absurd hnamed (by decide +kernel)

end AccountLogUi.Manager
