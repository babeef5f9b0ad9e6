import AccountLogUi.Manager.Equiv.Sizes

/-!
# Replacing a staged name, and withdrawing it

A name staged is replaced by the next one, and withdrawn by the name in force.
`rename_replaces_or_withdraws_iff` says when that is so: what is left is measured like any other
list of edits, though it only got shorter, and is refused where the log grew past it since
(`rename_not_withdrawn`); and revocations of a log that is not shown keep every name out.
-/

namespace AccountLogUi.Manager

variable {Addr : Type} {C : Crates Addr} {addr : Addr} {core : AccountCore Addr}

/-- A name is staged for the account. -/
def StagesName (core : AccountCore Addr) (addr : Addr) : Prop :=
  ∃ edit ∈ (core.staged addr).getD [], isRename edit = true

theorem length_withoutRename :
    (withoutRename core addr).length = ((core.staged addr).getD []).length ↔
      ¬StagesName core addr := by
  unfold withoutRename StagesName
  rw [List.length_filter_eq_length_iff]
  simp

theorem revoke_mem_renamed {index : ℕ} (n : String) :
    .revoke index ∈ withoutRename core addr ++ [.setDisplayName n] ↔
      .revoke index ∈ (core.staged addr).getD [] := by
  unfold withoutRename
  simp [isRename]

/-- The edits staged beside the name are past the budget of the log, as last read. -/
def PastBudget (C : Crates Addr) (core : AccountCore Addr) (addr : Addr) : Prop :=
  C.maxPayloadBytes <
    (C.payloadOf (heldEntries (core.record addr) ++ plan (withoutRename core addr))).length

/-- An edit staged revokes an entry of a log that is not shown. -/
def RevokesHidden (core : AccountCore Addr) (addr : Addr) : Prop :=
  core.record addr = none ∧ ∃ index, .revoke index ∈ (core.staged addr).getD []

/-! ### What the edits are measured against -/

/-- A name that is not in force is refused for its size only, unless it is staged beside a
revocation of a log that is not shown. -/
theorem Sound.rename_fits (hL : C.LogLaws) (hsound : Sound C core)
    (hread : C.Readable (heldEntries (core.record addr))) {name n : String}
    (hname : displayName name = (.ok n : Except (CoreError Addr) _))
    (hlive : core.liveName C addr ≠ some n) (hshown : ¬RevokesHidden core addr) :
    let fits := core.fits C addr (withoutRename core addr ++ [.setDisplayName n])
    fits = .ok () ∨ fits = .error .overBudget := by
  have hrevokes : core.answered addr = true ∨
      ∀ index, .revoke index ∉ withoutRename core addr ++ [.setDisplayName n] := by
    by_cases hanswered : core.answered addr = true
    · exact .inl hanswered
    · refine .inr fun index hmem => hshown ⟨record_of_not_answered hanswered, index, ?_⟩
      exact (revoke_mem_renamed n).mp hmem
  have hfits := hsound.restaged_fits hL hread hrevokes
    (.rename (displayName_ok hname).2 ((extendable_ok hL).mpr ⟨hread, rfl⟩) hlive)
  dsimp only
  rw [hfits]
  split
  · exact .inl rfl
  · exact .inr rfl

/-- What is left where a name is withdrawn is refused exactly where it is past the budget. -/
theorem Sound.withdrawn_fits (hL : C.LogLaws) (hsound : Sound C core)
    (hread : C.Readable (heldEntries (core.record addr))) {n : String}
    (hlive : core.liveName C addr = some n) :
    core.fits C addr (withoutRename core addr) = .ok () ↔ ¬PastBudget C core addr := by
  have hanswered : core.answered addr = true := by
    obtain ⟨record, hrecord, -⟩ := Option.bind_eq_some_iff.mp hlive
    exact (record_eq_some.mp hrecord).1
  have hfits := hsound.restaged_fits hL hread (.inl hanswered) .withdraw
  unfold PastBudget
  rw [not_lt]
  rw [show core.fits C addr (withoutRename core addr) = _ from hfits]
  split
  · next hsize => exact ⟨fun _ => hsize, fun _ => rfl⟩
  · next hsize => exact ⟨nofun, fun h => absurd h hsize⟩

/-! ### What renaming does -/

variable [DecidableEq Addr] {w w' : World Addr}

/-- Staging the name `n` replaces the one staged, or withdraws it where `n` is the name in force. -/
structure ReplacesOrWithdraws (C : Crates Addr) (addr : Addr) (n : String) (w : World Addr)
    (r : Except (CoreError Addr) Unit) (w' : World Addr) : Prop where
  withdraws : w.core.liveName C addr = some n → StagesName w.core addr →
    r = .ok () ∧ (w'.core.staged addr).getD [] = withoutRename w.core addr
  unchanged : w.core.liveName C addr = some n → ¬StagesName w.core addr →
    r = .error .nameUnchanged ∧ Looked w w'
  replaces : w.core.liveName C addr ≠ some n →
    r = .ok () ∧
        (w'.core.staged addr).getD [] = withoutRename w.core addr ++ [.setDisplayName n] ∨
      r = .error .overBudget ∧ Looked w w'

/-- The edits were made `staged`, or do not fit. -/
def Restaged (C : Crates Addr) (addr : Addr) (staged : List StagedEdit) (w : World Addr)
    (r : Except (CoreError Addr) Unit) (w' : World Addr) : Prop :=
  r = .ok () ∧ Staged C addr staged w w' ∨
    ∃ e, r = .error e ∧ Looked w w' ∧ w.core.fits C addr staged = .error e

theorem restage_cases {w₁ : World Addr} (hlooked : Looked w w₁) {staged : List StagedEdit}
    {r : Except (CoreError Addr) Unit} (h : (restage C addr staged).on w₁ = (r, w')) :
    Restaged C addr staged w r w' := by
  rcases r with e | u
  · obtain ⟨rfl, hfits⟩ := restage_error h
    rw [hlooked.core] at hfits
    exact .inr ⟨e, rfl, hlooked, hfits⟩
  · exact .inl ⟨rfl, (restage_ok h).looked hlooked⟩

theorem Staged.getD {staged : List StagedEdit} (h : Staged C addr staged w w') :
    (w'.core.staged addr).getD [] = staged := by
  rw [h.core]
  show ((Function.update w.core.staged addr _) addr).getD [] = staged
  rw [Function.update_self]
  exact getD_waiting staged

theorem requireManaged_of_manages {w₁ : World Addr}
    (h : (manages C addr).on w = (.ok true, w₁)) : (requireManaged C addr).on w = (.ok (), w₁) := by
  unfold requireManaged
  rw [Action.on_bind, h]
  rfl

theorem requireKnown_of_manages {w₁ : World Addr}
    (h : (manages C addr).on w = (.ok true, w₁)) : (requireKnown C addr).on w = (.ok (), w₁) := by
  unfold requireKnown
  rw [Action.on_bind, h]
  rfl

/-- What a rename does for an account held, whose log this build can read. -/
theorem stageSetDisplayName_cases (hV : C.VaultLaws) (hL : C.LogLaws) {w₁ : World Addr}
    (hmanages : (manages C addr).on w = (.ok true, w₁))
    (hread : C.Readable (heldEntries (w.core.record addr))) {name n : String}
    (hname : displayName name = (.ok n : Except (CoreError Addr) _))
    {r : Except (CoreError Addr) Unit} (h : (stageSetDisplayName C addr name).on w = (r, w')) :
    w.core.liveName C addr ≠ some n ∧
        Restaged C addr (withoutRename w.core addr ++ [.setDisplayName n]) w r w' ∨
      w.core.liveName C addr = some n ∧ (StagesName w.core addr ∧
          Restaged C addr (withoutRename w.core addr) w r w' ∨
        ¬StagesName w.core addr ∧ r = .error .nameUnchanged ∧ Looked w w') := by
  have hlooked := (manages_ok hV hmanages).1
  unfold stageSetDisplayName at h
  rw [Action.on_bind, requireManaged_of_manages hmanages] at h
  dsimp only at h
  rw [hname, Action.on_bind, Action.on_orFail] at h
  dsimp only at h
  rw [Action.on_look_bind, hlooked.core, (extendable_ok hL).mpr ⟨hread, rfl⟩, Action.on_bind,
    Action.on_orFail] at h
  dsimp only at h
  by_cases hlive : w.core.liveName C addr = some n
  · rw [if_neg (not_not.mpr hlive)] at h
    refine .inr ⟨hlive, ?_⟩
    rcases Action.on_refuse_bind_cases h with ⟨hlength, hr, rfl⟩ | ⟨hlength, h⟩
    · exact .inr ⟨length_withoutRename.mp hlength, hr, hlooked⟩
    · exact .inl ⟨not_not.mp (mt length_withoutRename.mpr hlength), restage_cases hlooked h⟩
  · rw [if_pos hlive] at h
    exact .inl ⟨hlive, restage_cases hlooked h⟩

/-- A name that is withdrawn leaves edits within the budget. -/
theorem ReplacesOrWithdraws.not_pastBudget (hL : C.LogLaws) (hsound : Sound C w.core)
    (hread : C.Readable (heldEntries (w.core.record addr))) {n : String}
    (hlive : w.core.liveName C addr = some n) (hstages : StagesName w.core addr)
    {r : Except (CoreError Addr) Unit}
    (hrestaged : Restaged C addr (withoutRename w.core addr) w r w')
    (h : ReplacesOrWithdraws C addr n w r w') : ¬PastBudget C w.core addr := by
  obtain ⟨hok, -⟩ := h.withdraws hlive hstages
  rcases hrestaged with ⟨-, hstaged⟩ | ⟨e, hr, -, -⟩
  · exact (hsound.withdrawn_fits hL hread hlive).mp hstaged.fits
  · cases hr.symm.trans hok

/-- In every run, for an account held whose log, if one is held, this build can read, and every
name the app accepts: staging it replaces the name staged or withdraws it, exactly where a name to
withdraw does not leave edits past the budget, and where no edit staged revokes an entry of a log
that is not shown. -/
theorem rename_replaces_or_withdraws_iff (hV : C.VaultLaws) (hL : C.LogLaws) (hA : C.AccountLaws)
    (h : Reachable C w) {w₁ : World Addr} (hmanages : (manages C addr).on w = (.ok true, w₁))
    (hread : C.Readable (heldEntries (w.core.record addr))) {name n : String}
    (hname : displayName name = (.ok n : Except (CoreError Addr) _))
    {r : Except (CoreError Addr) Unit}
    (hrun : (stageSetDisplayName C addr name).on w = (r, w')) :
    ReplacesOrWithdraws C addr n w r w' ↔
      ¬(w.core.liveName C addr = some n ∧ StagesName w.core addr ∧ PastBudget C w.core addr) ∧
        ¬RevokesHidden w.core addr := by
  have hsound := h.sound hV hL hA
  rcases stageSetDisplayName_cases hV hL hmanages hread hname hrun with
    ⟨hlive, hrestaged⟩ | ⟨hlive, ⟨hstages, hrestaged⟩ | ⟨hstages, hr, hlooked⟩⟩
  · -- Another name than the one in force is staged.
    constructor
    · intro hreplaces
      refine ⟨fun hpast => hlive hpast.1, fun ⟨hnone, index, hmem⟩ => ?_⟩
      obtain ⟨e, herror⟩ := fits_of_hidden_revoke hL hnone ((revoke_mem_renamed n).mpr hmem)
      rcases hrestaged with ⟨-, hstaged⟩ | ⟨e', hr, -, hfits⟩
      · rw [hstaged.fits] at herror
        cases herror
      · rw [herror] at hfits
        obtain rfl := Except.error.inj hfits
        rcases hreplaces.replaces hlive with ⟨hok, -⟩ | ⟨hover, -⟩
        · cases hr.symm.trans hok
        · cases hr.symm.trans hover
    · rintro ⟨-, hshown⟩
      refine ⟨fun hlive' => absurd hlive' hlive, fun hlive' => absurd hlive' hlive, fun _ => ?_⟩
      rcases hrestaged with ⟨hr, hstaged⟩ | ⟨e, hr, hlooked, hfits⟩
      · exact .inl ⟨hr, hstaged.getD⟩
      · rcases hsound.rename_fits hL hread hname hlive hshown with hok | hover
        · rw [hok] at hfits
          cases hfits
        · rw [hover] at hfits
          obtain rfl := Except.error.inj hfits
          exact .inr ⟨hr, hlooked⟩
  · -- The name in force withdraws the one staged, if what is left fits.
    constructor
    · intro hreplaces
      refine ⟨fun ⟨_, _, hpast⟩ => ?_, fun hhidden => ?_⟩
      · exact hreplaces.not_pastBudget hL hsound hread hlive hstages hrestaged hpast
      · obtain ⟨record, hrecord, -⟩ := Option.bind_eq_some_iff.mp hlive
        cases hhidden.1.symm.trans hrecord
    · rintro ⟨hpast, -⟩
      refine ⟨fun _ _ => ?_, fun _ h => absurd hstages h, fun h => absurd hlive h⟩
      rcases hrestaged with ⟨hr, hstaged⟩ | ⟨e, -, -, herror⟩
      · exact ⟨hr, hstaged.getD⟩
      · rw [(hsound.withdrawn_fits hL hread hlive).mpr fun hpast' =>
          hpast ⟨hlive, hstages, hpast'⟩] at herror
        cases herror
  · constructor
    · intro _
      refine ⟨fun ⟨_, h, _⟩ => hstages h, fun hhidden => ?_⟩
      obtain ⟨record, hrecord, -⟩ := Option.bind_eq_some_iff.mp hlive
      cases hhidden.1.symm.trans hrecord
    · intro _
      exact ⟨fun _ h => absurd h hstages, fun _ _ => ⟨hr, hlooked⟩, fun h => absurd hlive h⟩

/-- An account that published its name, and is about to publish another. -/
def renamedBack : World Reference.Addr :=
  CoreOp.runs Crates.reference [.createAccount (Reference.someKey 1) none 0,
    .stageSetDisplayName ⟨(Reference.someKey 1).bytes⟩ "Saro",
    .publish ⟨(Reference.someKey 1).bytes⟩,
    .stageAddInstallation ⟨(Reference.someKey 1).bytes⟩
      (String.ofList (Hex.encode (Reference.someKey 2).bytes.toList)),
    .stageSetDisplayName ⟨(Reference.someKey 1).bytes⟩ "Raya"] (.start [])

/-- What it is: held, with the name published and two edits staged. -/
theorem renamedBack_eq :
    ((manages Crates.reference ⟨(Reference.someKey 1).bytes⟩).on
        ⟨.new, renamedBack.disk, .memory ⟨[]⟩, 0, []⟩).1 = .ok true ∧
      (renamedBack.core.record ⟨(Reference.someKey 1).bytes⟩).map (·.log.entries) =
        some [.add displayNameContext (.text "Saro")] ∧
      (renamedBack.core.staged ⟨(Reference.someKey 1).bytes⟩).getD [] =
        [.addInstallation ⟨(Reference.someKey 2).bytes⟩, .setDisplayName "Raya"] := by
  decide +kernel

/-- The account is held, whatever the store and the app hold. -/
theorem manages_renamedBack {w : World Reference.Addr} (hdisk : w.disk = renamedBack.disk) :
    ∃ w₁, (manages Crates.reference ⟨(Reference.someKey 1).bytes⟩).on w = (.ok true, w₁) := by
  have hsame : ((manages Crates.reference ⟨(Reference.someKey 1).bytes⟩).on w).1 =
      ((manages Crates.reference ⟨(Reference.someKey 1).bytes⟩).on
        ⟨.new, w.disk, .memory ⟨[]⟩, 0, []⟩).1 := by
    unfold manages
    rw [Action.on_bind, Action.on_bind, vault_on, vault_on]
    cases (w.disk.run (Vault.accounts Crates.reference).run).1 <;> rfl
  rw [hdisk, renamedBack_eq.1] at hsame
  exact ⟨_, Prod.ext hsame rfl⟩

theorem rename_replaces_or_withdraws_iff_back : ∃ w₁ r w',
    (manages Crates.reference ⟨(Reference.someKey 1).bytes⟩).on renamedBack = (.ok true, w₁) ∧
      (ReplacesOrWithdraws Crates.reference ⟨(Reference.someKey 1).bytes⟩ "Saro" renamedBack r w' ↔
        ¬(renamedBack.core.liveName Crates.reference ⟨(Reference.someKey 1).bytes⟩ = some "Saro" ∧
            StagesName renamedBack.core ⟨(Reference.someKey 1).bytes⟩ ∧
            PastBudget Crates.reference renamedBack.core ⟨(Reference.someKey 1).bytes⟩) ∧
          ¬RevokesHidden renamedBack.core ⟨(Reference.someKey 1).bytes⟩) := by
  obtain ⟨-, hentries, -⟩ := renamedBack_eq
  obtain ⟨w₁, hmanages⟩ := manages_renamedBack (Eq.refl renamedBack.disk)
  have hread : Crates.reference.Readable (heldEntries
      (renamedBack.core.record ⟨(Reference.someKey 1).bytes⟩)) := by
    obtain ⟨record, hrecord, hlog⟩ := Option.map_eq_some_iff.mp hentries
    rw [hrecord]
    show Crates.reference.Readable record.log.entries
    rw [hlog]
    rfl
  have hname : displayName " Saro " = (.ok "Saro" : Except (CoreError Reference.Addr) _) := by
    decide +kernel
  have hreachable : Reachable Crates.reference renamedBack := (Reachable.fresh rfl).runs _
  rcases hrun : (stageSetDisplayName Crates.reference ⟨(Reference.someKey 1).bytes⟩
    " Saro ").on renamedBack with ⟨r, w'⟩
  exact ⟨w₁, r, w', hmanages, rename_replaces_or_withdraws_iff Reference.vaultLaws
    Reference.logLaws Reference.accountLaws hreachable hmanages hread hname hrun⟩

/-! ### A name that is not withdrawn -/

/-- An entry of some size that another app wrote. -/
def note (size : ℕ) : AccountEntry := .add "notes" (.other 3 (List.replicate size 0))

/-- The name published, and what another app wrote behind it. -/
def annotated (size : ℕ) : List AccountEntry :=
  [.add displayNameContext (.text "Saro"), note size, note size]

theorem annotated_readable {size : ℕ} (hsize : size ≤ 65500) :
    Crates.reference.Readable (annotated size) := by
  have hnote : Reference.fitsFrame "notes" (.other 3 (List.replicate size 0)) = true := by
    have hcontext : (Reference.textBytes "notes").length = 5 := by decide
    simp [Reference.fitsFrame, Reference.addBytes, Reference.dataBytes, hcontext]
    omega
  have hname : Reference.fitsFrame displayNameContext (.text "Saro") = true := by decide
  show Reference.fromLog ⟨annotated size⟩ = .ok ⟨annotated size⟩
  simp only [Reference.fromLog, annotated, note, List.foldlM_cons, List.foldlM_nil, Reference.push,
    hnote, hname, Reference.repeatsKey, Bool.not_true, Bool.false_eq_true, if_false]
  rfl

theorem length_annotated {size : ℕ} :
    (Crates.reference.payloadOf (annotated size)).length = 65 + 2 * size := by
  have hcontext : (Reference.textBytes "notes").length = 5 := by decide
  have hname : (Reference.entryBytes (.add displayNameContext (.text "Saro"))).length = 28 := by
    decide
  have hdomain : Reference.domain.length = 17 := by decide
  show (Reference.domain ++ (annotated size).flatMap Reference.entryBytes).length = _
  simp [annotated, note, Reference.entryBytes, Reference.frame, Reference.addBytes,
    Reference.dataBytes, hcontext, hdomain] at hname ⊢
  omega

/-- The log with notes of some size, signed. -/
def annotatedLog (size : ℕ) : SignedAccountLog :=
  ⟨Crates.reference.payloadOf (annotated size), (Reference.someKey 1).bytes.toList⟩

theorem annotatedLog_verifies {size : ℕ} (hsize : size ≤ 65500) :
    Crates.reference.verify ⟨(Reference.someKey 1).bytes⟩ (annotatedLog size) =
      .ok ⟨annotated size⟩ := by
  have hread := annotated_readable hsize
  have hencode := Reference.logLaws.encode_eq hread
  have hcap : (Crates.reference.payloadOf (annotated size)).length ≤
      Crates.reference.maxPayloadBytes := by
    rw [length_annotated]
    show 65 + 2 * size ≤ 131072
    omega
  rw [if_pos hcap] at hencode
  exact Reference.accountLaws.verify_sign (Reference.logLaws.decode_encode hread hencode)

/-- The store, with notes of some size behind the name. -/
def annotatedStore (size : ℕ) : World Reference.Addr :=
  { renamedBack with store := .memory ⟨[(⟨(Reference.someKey 1).bytes⟩, annotatedLog size)]⟩ }

theorem annotatedStore_core (size : ℕ) : (annotatedStore size).core = renamedBack.core := by
  unfold annotatedStore
  dsimp only

theorem annotatedStore_disk (size : ℕ) : (annotatedStore size).disk = renamedBack.disk := by
  unfold annotatedStore
  dsimp only

/-- The app, once it read them. -/
def outgrown (size : ℕ) : World Reference.Addr :=
  { renamedBack with core :=
      ((refresh Crates.reference ⟨(Reference.someKey 1).bytes⟩).on (annotatedStore size)).2.core }

theorem outgrown_reachable (size : ℕ) : Reachable Crates.reference (outgrown size) := by
  have hback : Reachable Crates.reference renamedBack := (Reachable.fresh rfl).runs _
  have hstore : Reachable Crates.reference (annotatedStore size) := .elsewhere hback
    (annotatedStore_core size)
  refine .elsewhere (.op (.refresh ⟨(Reference.someKey 1).bytes⟩) hstore) ?_
  generalize hrun : (CoreOp.refresh ⟨(Reference.someKey 1).bytes⟩).run Crates.reference
    (annotatedStore size) = ran
  obtain ⟨r, w'⟩ := ran
  obtain ⟨r', hrefresh, -⟩ := Action.on_map_cases hrun
  unfold outgrown
  dsimp only
  rw [hrefresh]

/-- What the app holds once it read them: the log, and all that was staged. -/
theorem outgrown_core {size : ℕ} (hsize : size ≤ 65500) :
    (outgrown size).core.record ⟨(Reference.someKey 1).bytes⟩ =
        some ⟨⟨annotated size⟩, annotatedLog size⟩ ∧
      ((outgrown size).core.staged ⟨(Reference.someKey 1).bytes⟩).getD [] =
        [.addInstallation ⟨(Reference.someKey 2).bytes⟩, .setDisplayName "Raya"] := by
  have hread := annotated_readable hsize
  have hback : Reachable Crates.reference renamedBack := (Reachable.fresh rfl).runs _
  have hwritten := hback.written_eq Reference.vaultLaws Reference.accountLaws
  rw [← annotatedStore_core size] at hwritten
  obtain ⟨-, hbefore, hstaged⟩ := renamedBack_eq
  rw [← annotatedStore_core size] at hbefore hstaged
  have hfetch : ((annotatedStore size).store.fetch ⟨(Reference.someKey 1).bytes⟩).1 =
      .ok (some (annotatedLog size)) := by
    unfold annotatedStore
    simp [Store.fetch, MemoryStore.fetch, MemoryStore.held]
  have hresolve : Crates.reference.resolve ⟨(Reference.someKey 1).bytes⟩
      ((annotatedStore size).core.resolver ⟨(Reference.someKey 1).bytes⟩)
      (some (annotatedLog size)) = .ok (some ⟨⟨annotated size⟩, annotatedLog size⟩) := by
    refine Reference.accountLaws.resolve_extends (annotatedLog_verifies hsize) fun record h => ?_
    obtain ⟨shown, hshown, hlog⟩ := Option.map_eq_some_iff.mp hbefore
    obtain rfl := Option.some.inj (h.symm.trans (record_eq_some.mp hshown).2)
    show record.log.entries <+: _
    rw [hlog]
    exact ⟨[note size, note size], rfl⟩
  -- The read lands, and settling leaves both edits.
  obtain ⟨w₁, hmanages⟩ := manages_renamedBack (annotatedStore_disk size)
  have hlooked := (manages_ok Reference.vaultLaws hmanages).1
  rcases hrun : (readStore Crates.reference ⟨(Reference.someKey 1).bytes⟩).on w₁ with ⟨r, w₂⟩
  rcases readStore_cases (by rw [hlooked.core, hwritten]) hrun with
    ⟨rfl, held, hlanded⟩ | ⟨e, -, hfailed⟩
  · have hcore : (outgrown size).core = w₂.core.collected ⟨(Reference.someKey 1).bytes⟩ := by
      unfold outgrown refresh
      rw [Action.on_bind, requireKnown_of_manages hmanages]
      dsimp only
      rw [Action.on_bind, hrun]
      rfl
    have hlanded := hlanded.looked hlooked
    obtain ⟨fetched, hfetched, hresolved⟩ := hlanded.resolved
    obtain rfl := Except.ok.inj (hfetch.symm.trans hfetched)
    obtain rfl := Except.ok.inj (hresolve.symm.trans hresolved)
    have hrecord : w₂.core.record ⟨(Reference.someKey 1).bytes⟩ =
        some ⟨⟨annotated size⟩, annotatedLog size⟩ := by
      rw [record_of_answered (hlanded.answered Reference.logLaws),
        hlanded.resolver Reference.logLaws, Function.update_self]
    rw [hcore]
    refine ⟨hrecord, ?_⟩
    show (w₂.core.staged _).getD [] = _
    have hkept : ∀ (core : AccountCore Reference.Addr) addr held now,
        (core.landed addr held now).staged = core.staged := fun _ _ _ _ => rfl
    have hleft : [StagedEdit.addInstallation ⟨(Reference.someKey 2).bytes⟩,
        .setDisplayName "Raya"].filter (AccountCore.needed Crates.reference ⟨annotated size⟩
          ⟨annotated size⟩) = [.addInstallation ⟨(Reference.someKey 2).bytes⟩,
        .setDisplayName "Raya"] := by
      rfl
    rw [hlanded.core, getD_staged_settle, landed_record, leftToDo_readable hread, hkept, hstaged,
      hleft]
  · have hfailed := hfailed.looked hlooked
    rcases hfailed.reason with ⟨error, herror, -⟩ | ⟨fetched, hfetched, herror⟩
    · cases hfetch.symm.trans herror
    · obtain rfl := Except.ok.inj (hfetch.symm.trans hfetched)
      cases hresolve.symm.trans herror

/-- A log that grew leaves no room for the key staged beside the name. -/
theorem outgrown_past {size : ℕ} (hsize : size ≤ 65500) (hlarge : 65480 ≤ size) :
    PastBudget Crates.reference (outgrown size).core ⟨(Reference.someKey 1).bytes⟩ := by
  obtain ⟨hrecord, hstaged⟩ := outgrown_core hsize
  have hplan : plan ([StagedEdit.addInstallation ⟨(Reference.someKey 2).bytes⟩,
      .setDisplayName "Raya"].filter (!isRename ·)) =
      [.add signerContext (.ed25519Key (Reference.someKey 2).bytes)] := rfl
  have hkey : (Crates.reference.entryBytes
      (.add signerContext (.ed25519Key (Reference.someKey 2).bytes))).length = 48 := by decide
  have hlength := @length_annotated size
  rw [length_payloadOf] at hlength
  unfold PastBudget withoutRename
  rw [hrecord, hstaged, hplan]
  show Crates.reference.maxPayloadBytes < (Crates.reference.payloadOf (annotated size ++ _)).length
  rw [length_payloadOf, List.map_append, List.sum_append, ← Nat.add_assoc, hlength,
    List.map_singleton, List.sum_singleton, hkey]
  show 131072 < _
  omega

/-- What a rename to the name in force leaves, where the log grew. -/
theorem rename_not_withdrawn_past {size : ℕ} (hsize : size ≤ 65500) (hlarge : 65480 ≤ size) :
    ∃ w₁ r w', Reachable Crates.reference (outgrown size) ∧
      (manages Crates.reference ⟨(Reference.someKey 1).bytes⟩).on (outgrown size) =
        (.ok true, w₁) ∧
      Crates.reference.Readable
        (heldEntries ((outgrown size).core.record ⟨(Reference.someKey 1).bytes⟩)) ∧
      displayName "Saro" = (.ok "Saro" : Except (CoreError Reference.Addr) _) ∧
      (stageSetDisplayName Crates.reference ⟨(Reference.someKey 1).bytes⟩ "Saro").on
        (outgrown size) = (r, w') ∧
      ¬ReplacesOrWithdraws Crates.reference ⟨(Reference.someKey 1).bytes⟩ "Saro"
        (outgrown size) r w' := by
  obtain ⟨hrecord, hstaged⟩ := outgrown_core hsize
  have hdisk : (outgrown size).disk = renamedBack.disk := by
    unfold outgrown
    dsimp only
  obtain ⟨w₁, hmanages⟩ := manages_renamedBack hdisk
  have hreachable := outgrown_reachable size
  have hsound := hreachable.sound Reference.vaultLaws Reference.logLaws Reference.accountLaws
  have hread : Crates.reference.Readable
      (heldEntries ((outgrown size).core.record ⟨(Reference.someKey 1).bytes⟩)) := by
    rw [hrecord]
    exact annotated_readable hsize
  have hname : displayName "Saro" = (.ok "Saro" : Except (CoreError Reference.Addr) _) := by
    decide +kernel
  have hlive : (outgrown size).core.liveName Crates.reference ⟨(Reference.someKey 1).bytes⟩ =
      some "Saro" := by
    unfold AccountCore.liveName
    rw [hrecord]
    rfl
  have hstages : StagesName (outgrown size).core ⟨(Reference.someKey 1).bytes⟩ := by
    unfold StagesName
    rw [hstaged]
    exact ⟨.setDisplayName "Raya", by simp, rfl⟩
  rcases hrun : (stageSetDisplayName Crates.reference ⟨(Reference.someKey 1).bytes⟩
    "Saro").on (outgrown size) with ⟨r, w'⟩
  refine ⟨w₁, r, w', hreachable, hmanages, hread, hname, rfl, fun hreplaces => ?_⟩
  rcases stageSetDisplayName_cases Reference.vaultLaws Reference.logLaws hmanages hread hname hrun
    with ⟨hother, -⟩ | ⟨-, ⟨-, hrestaged⟩ | ⟨hnone, -⟩⟩
  · exact hother hlive
  · exact hreplaces.not_pastBudget Reference.logLaws hsound hread hlive hstages hrestaged
      (outgrown_past hsize hlarge)
  · exact hnone hstages

/-- A name that is in force is not withdrawn, where the log grew since the edits beside it were
staged. -/
theorem rename_not_withdrawn : ∃ w₁ r w', Reachable Crates.reference (outgrown 65500) ∧
    (manages Crates.reference ⟨(Reference.someKey 1).bytes⟩).on (outgrown 65500) = (.ok true, w₁) ∧
    Crates.reference.Readable
      (heldEntries ((outgrown 65500).core.record ⟨(Reference.someKey 1).bytes⟩)) ∧
    displayName "Saro" = (.ok "Saro" : Except (CoreError Reference.Addr) _) ∧
    (stageSetDisplayName Crates.reference ⟨(Reference.someKey 1).bytes⟩ "Saro").on
      (outgrown 65500) = (r, w') ∧
    ¬ReplacesOrWithdraws Crates.reference ⟨(Reference.someKey 1).bytes⟩ "Saro"
      (outgrown 65500) r w' :=
  rename_not_withdrawn_past (by omega) (by omega)

end AccountLogUi.Manager
