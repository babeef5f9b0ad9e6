import AccountLogUi.Manager.Equiv.Accounts
import AccountLogUi.Manager.Steps

/-!
# What staging, reading and publishing did

For every operation that stages an edit or asks the store, what it did where it answers and where
it fails.  `Staged` says what a staging that goes through did, `Landed` and `Failed` what a read of
the store did, and `planUpdate_inr` and `writeUpdate_ok` what the two halves of a publish did.
-/

namespace AccountLogUi.Manager

variable {Addr : Type} {C : Crates Addr} {w w' : World Addr} {addr : Addr}

/-! ### What is typed in -/

theorem parseInstallationKey_ok (hA : C.AccountLaws) {keyHex : String}
    {key : Ed25519VerifyingKey}
    (h : parseInstallationKey C keyHex = (.ok key : Except (CoreError Addr) _)) :
    C.fromCanonicalBytes key.bytes = some key := by
  unfold parseInstallationKey at h
  split at h
  · cases h
  split at h
  · next bytes hlen =>
    split at h
    · next key' hkey =>
      obtain rfl := Except.ok.inj h
      rwa [hA.fromCanonicalBytes_bytes hkey]
    · cases h
  · cases h

/-- An error that says nothing of a log. -/
def OffLog : CoreError Addr → Prop
  | .log _ | .account _ => False
  | _ => True

theorem parseInstallationKey_error {keyHex : String} {e : CoreError Addr}
    (h : parseInstallationKey C keyHex = .error e) : OffLog e := by
  unfold parseInstallationKey at h
  split at h
  · rw [← Except.error.inj h]
    trivial
  split at h
  · split at h
    · cases h
    · rw [← Except.error.inj h]
      trivial
  · rw [← Except.error.inj h]
    trivial

theorem displayName_error {name : String} {e : CoreError Addr} (h : displayName name = .error e) :
    OffLog e := by
  dsimp only [displayName] at h
  split at h
  · rw [← Except.error.inj h]
    trivial
  split at h
  · rw [← Except.error.inj h]
    trivial
  split at h
  · rw [← Except.error.inj h]
    trivial
  · cases h

theorem extendable_error {core : AccountCore Addr} {e : CoreError Addr}
    (h : core.extendable C addr = .error e) : e = .unreadable := by
  unfold AccountCore.extendable at h
  split at h
  · cases h
  split at h
  · cases h
  · exact (Except.error.inj h).symm

variable [DecidableEq Addr]

/-! ### Staging -/

/-- The edits staged for the account are `staged` now. -/
structure Staged (C : Crates Addr) (addr : Addr) (staged : List StagedEdit) (w w' : World Addr) :
    Prop where
  fits : w.core.fits C addr staged = .ok ()
  core : w'.core = { w.core with
    staged := Function.update w.core.staged addr (if staged.isEmpty then none else some staged) }
  fs : w'.disk.fs = w.disk.fs
  offline : Offline w w'

theorem restage_ok {staged : List StagedEdit} {u : Unit}
    (h : (restage C addr staged).on w = (.ok u, w')) : Staged C addr staged w w' := by
  unfold restage at h
  rw [Action.on_look_bind] at h
  obtain ⟨u', hfits, h⟩ := Action.on_orFail_bind_ok.mp h
  obtain ⟨-, rfl⟩ := Prod.mk.inj h
  exact ⟨hfits, rfl, rfl, rfl, rfl, rfl⟩

theorem restage_error {staged : List StagedEdit} {e : CoreError Addr}
    (h : (restage C addr staged).on w = (.error e, w')) :
    w' = w ∧ w.core.fits C addr staged = .error e := by
  unfold restage at h
  rw [Action.on_look_bind] at h
  rcases Action.on_orFail_bind_error.mp h with ⟨hfits, hw⟩ | ⟨u', -, h⟩
  · exact ⟨hw, hfits⟩
  · cases (Prod.mk.inj h).1

theorem Staged.looked {staged : List StagedEdit} {w₁ : World Addr} (hlooked : Looked w w₁)
    (h : Staged C addr staged w₁ w') : Staged C addr staged w w' where
  fits := by
    rw [← hlooked.core]
    exact h.fits
  core := by rw [h.core, hlooked.core]
  fs := h.fs.trans hlooked.fs
  offline := ⟨h.offline.store.trans hlooked.store, h.offline.now.trans hlooked.now,
    h.offline.asked.trans hlooked.asked⟩

/-- How a staging fails: before the edits it would make are measured, with an error that says
nothing of the log but that this build cannot read it, or because they do not fit. -/
def StagingFailed (C : Crates Addr) (addr : Addr) (e : CoreError Addr) (w w' : World Addr) : Prop :=
  Looked w w' ∧ (OffLog e ∨
    ∃ staged, w.core.Restages C addr staged ∧ w.core.fits C addr staged = .error e)

theorem requireManaged_offLog {e : CoreError Addr}
    (h : (requireManaged C addr).on w = (.error e, w')) : OffLog e := by
  unfold requireManaged at h
  rcases Action.on_bind_error.mp h with h | ⟨managed, w₁, -, h⟩
  · unfold manages at h
    rcases Action.on_bind_error.mp h with h | ⟨held, w₁, -, h⟩
    · obtain ⟨e', -, rfl⟩ := mapError_eq_error.mp (Prod.mk.inj h).1
      trivial
    · cases (Prod.mk.inj h).1
  split at h
  · cases (Prod.mk.inj h).1
  rcases Action.on_bind_error.mp h with h | ⟨observed, w₂, -, h⟩
  · unfold observes at h
    rcases Action.on_bind_error.mp h with h | ⟨held, w₂, -, h⟩
    · obtain ⟨e', -, rfl⟩ := mapError_eq_error.mp (Prod.mk.inj h).1
      trivial
    · cases (Prod.mk.inj h).1
  · rcases Action.on_bind_error.mp h with h | ⟨u, w₃, -, h⟩
    · rw [(Action.on_refuse_error.mp h).2.1]
      trivial
    · rw [← Except.error.inj (Prod.mk.inj h).1]
      trivial

theorem signingKey_offLog {e : CoreError Addr}
    (h : (signingKey C addr).on w = (.error e, w')) : OffLog e := by
  unfold signingKey at h
  rw [Action.on_look_bind] at h
  split at h
  · cases (Prod.mk.inj h).1
  · obtain ⟨e', -, rfl⟩ := mapError_eq_error.mp (Prod.mk.inj h).1
    split <;> trivial

theorem stageAddInstallation_ok (hV : C.VaultLaws) (hA : C.AccountLaws) {keyHex : String} {u : Unit}
    (h : (stageAddInstallation C addr keyHex).on w = (.ok u, w')) :
    ∃ key, parseInstallationKey C keyHex = (.ok key : Except (CoreError Addr) _) ∧
      w.core.Restages C addr ((w.core.staged addr).getD [] ++ [.addInstallation key]) ∧
      Staged C addr ((w.core.staged addr).getD [] ++ [.addInstallation key]) w w' := by
  unfold stageAddInstallation at h
  obtain ⟨u', w₁, hmanaged, h⟩ := Action.on_bind_ok.mp h
  have hlooked := (requireManaged_ok hV hmanaged).1
  obtain ⟨key, hkey, h⟩ := Action.on_orFail_bind_ok.mp h
  rw [Action.on_look_bind, hlooked.core] at h
  obtain ⟨draft, hdraft, h⟩ := Action.on_orFail_bind_ok.mp h
  obtain ⟨hlive, h⟩ := Action.on_refuse_bind_ok.mp h
  obtain ⟨hnew, h⟩ := Action.on_refuse_bind_ok.mp h
  refine ⟨key, hkey, .add (parseInstallationKey_ok hA hkey) hdraft ?_ hnew,
    (restage_ok h).looked hlooked⟩
  rintro d rfl hmem
  exact hlive ⟨d, rfl, hmem⟩

theorem stageAddInstallation_error (hV : C.VaultLaws) (hA : C.AccountLaws) {keyHex : String}
    {e : CoreError Addr} (h : (stageAddInstallation C addr keyHex).on w = (.error e, w')) :
    StagingFailed C addr e w w' := by
  unfold stageAddInstallation at h
  rcases Action.on_bind_error.mp h with h | ⟨u', w₁, hmanaged, h⟩
  · exact ⟨requireManaged_error hV h, .inl (requireManaged_offLog h)⟩
  have hlooked := (requireManaged_ok hV hmanaged).1
  rcases Action.on_orFail_bind_error.mp h with ⟨hkey, rfl⟩ | ⟨key, hkey, h⟩
  · exact ⟨hlooked, .inl (parseInstallationKey_error hkey)⟩
  rw [Action.on_look_bind, hlooked.core] at h
  rcases Action.on_orFail_bind_error.mp h with ⟨hdraft, rfl⟩ | ⟨draft, hdraft, h⟩
  · exact ⟨hlooked, .inl (by rw [extendable_error hdraft]; trivial)⟩
  rcases Action.on_refuse_bind_error.mp h with ⟨-, rfl, rfl⟩ | ⟨hlive, h⟩
  · exact ⟨hlooked, .inl trivial⟩
  rcases Action.on_refuse_bind_error.mp h with ⟨-, rfl, rfl⟩ | ⟨hnew, h⟩
  · exact ⟨hlooked, .inl trivial⟩
  obtain ⟨rfl, hfits⟩ := restage_error h
  rw [hlooked.core] at hfits
  refine ⟨hlooked, .inr ⟨_, .add (parseInstallationKey_ok hA hkey) hdraft ?_ hnew, hfits⟩⟩
  rintro d rfl hmem
  exact hlive ⟨d, rfl, hmem⟩

theorem stageRevoke_ok (hV : C.VaultLaws) {index : ℕ} {u : Unit}
    (h : (stageRevoke C addr index).on w = (.ok u, w')) :
    w.core.Restages C addr ((w.core.staged addr).getD [] ++ [.revoke index]) ∧
      Staged C addr ((w.core.staged addr).getD [] ++ [.revoke index]) w w' := by
  unfold stageRevoke at h
  obtain ⟨u', w₁, hmanaged, h⟩ := Action.on_bind_ok.mp h
  have hlooked := (requireManaged_ok hV hmanaged).1
  rw [Action.on_look_bind, hlooked.core] at h
  obtain ⟨draft, hdraft, h⟩ := Action.on_orFail_bind_ok.mp h
  obtain ⟨hlive, h⟩ := Action.on_refuse_bind_ok.mp h
  obtain ⟨d, hd, hentry⟩ := not_not.mp hlive
  obtain ⟨hnew, h⟩ := Action.on_refuse_bind_ok.mp h
  exact ⟨.revoke (hd ▸ hdraft) hentry hnew, (restage_ok h).looked hlooked⟩

theorem stageRevoke_error (hV : C.VaultLaws) {index : ℕ} {e : CoreError Addr}
    (h : (stageRevoke C addr index).on w = (.error e, w')) : StagingFailed C addr e w w' := by
  unfold stageRevoke at h
  rcases Action.on_bind_error.mp h with h | ⟨u', w₁, hmanaged, h⟩
  · exact ⟨requireManaged_error hV h, .inl (requireManaged_offLog h)⟩
  have hlooked := (requireManaged_ok hV hmanaged).1
  rw [Action.on_look_bind, hlooked.core] at h
  rcases Action.on_orFail_bind_error.mp h with ⟨hdraft, rfl⟩ | ⟨draft, hdraft, h⟩
  · exact ⟨hlooked, .inl (by rw [extendable_error hdraft]; trivial)⟩
  rcases Action.on_refuse_bind_error.mp h with ⟨-, rfl, rfl⟩ | ⟨hlive, h⟩
  · exact ⟨hlooked, .inl trivial⟩
  obtain ⟨d, hd, hentry⟩ := not_not.mp hlive
  rcases Action.on_refuse_bind_error.mp h with ⟨-, rfl, rfl⟩ | ⟨hnew, h⟩
  · exact ⟨hlooked, .inl trivial⟩
  obtain ⟨rfl, hfits⟩ := restage_error h
  rw [hlooked.core] at hfits
  exact ⟨hlooked, .inr ⟨_, .revoke (hd ▸ hdraft) hentry hnew, hfits⟩⟩

/-- The staged edits with any rename taken out. -/
def withoutRename (core : AccountCore Addr) (addr : Addr) : List StagedEdit :=
  ((core.staged addr).getD []).filter (!isRename ·)

theorem stageSetDisplayName_ok (hV : C.VaultLaws) {name : String} {u : Unit}
    (h : (stageSetDisplayName C addr name).on w = (.ok u, w')) :
    ∃ name' staged, displayName name = (.ok name' : Except (CoreError Addr) _) ∧
      (w.core.liveName C addr ≠ some name' ∧
          staged = withoutRename w.core addr ++ [.setDisplayName name'] ∨
        w.core.liveName C addr = some name' ∧ staged = withoutRename w.core addr ∧
          (withoutRename w.core addr).length ≠ ((w.core.staged addr).getD []).length) ∧
      w.core.Restages C addr staged ∧ Staged C addr staged w w' := by
  unfold stageSetDisplayName at h
  obtain ⟨u', w₁, hmanaged, h⟩ := Action.on_bind_ok.mp h
  have hlooked := (requireManaged_ok hV hmanaged).1
  obtain ⟨name', hname, h⟩ := Action.on_orFail_bind_ok.mp h
  rw [Action.on_look_bind, hlooked.core] at h
  obtain ⟨draft, hdraft, h⟩ := Action.on_orFail_bind_ok.mp h
  dsimp only at h
  split at h
  · next hlive =>
    exact ⟨name', _, hname, .inl ⟨hlive, rfl⟩, .rename (displayName_ok hname).2 hdraft hlive,
      (restage_ok h).looked hlooked⟩
  · next hlive =>
    obtain ⟨hsome, h⟩ := Action.on_refuse_bind_ok.mp h
    exact ⟨name', _, hname, .inr ⟨not_not.mp hlive, rfl, hsome⟩, .withdraw,
      (restage_ok h).looked hlooked⟩

theorem stageSetDisplayName_error (hV : C.VaultLaws) {name : String} {e : CoreError Addr}
    (h : (stageSetDisplayName C addr name).on w = (.error e, w')) :
    StagingFailed C addr e w w' := by
  unfold stageSetDisplayName at h
  rcases Action.on_bind_error.mp h with h | ⟨u', w₁, hmanaged, h⟩
  · exact ⟨requireManaged_error hV h, .inl (requireManaged_offLog h)⟩
  have hlooked := (requireManaged_ok hV hmanaged).1
  rcases Action.on_orFail_bind_error.mp h with ⟨hname, rfl⟩ | ⟨name', hname, h⟩
  · exact ⟨hlooked, .inl (displayName_error hname)⟩
  rw [Action.on_look_bind, hlooked.core] at h
  rcases Action.on_orFail_bind_error.mp h with ⟨hdraft, rfl⟩ | ⟨draft, hdraft, h⟩
  · exact ⟨hlooked, .inl (by rw [extendable_error hdraft]; trivial)⟩
  dsimp only at h
  split at h
  · next hlive =>
    obtain ⟨rfl, hfits⟩ := restage_error h
    rw [hlooked.core] at hfits
    exact ⟨hlooked, .inr ⟨_, .rename (displayName_ok hname).2 hdraft hlive, hfits⟩⟩
  · rcases Action.on_refuse_bind_error.mp h with ⟨-, rfl, rfl⟩ | ⟨hsome, h⟩
    · exact ⟨hlooked, .inl trivial⟩
    obtain ⟨rfl, hfits⟩ := restage_error h
    rw [hlooked.core] at hfits
    exact ⟨hlooked, .inr ⟨_, .withdraw, hfits⟩⟩

theorem discardPending_ok (hV : C.VaultLaws) {u : Unit}
    (h : (discardPending C addr).on w = (.ok u, w')) :
    w'.core = { w.core with staged := Function.update w.core.staged addr none } ∧
      w'.disk.fs = w.disk.fs ∧ Offline w w' := by
  unfold discardPending at h
  obtain ⟨u', w₁, hmanaged, h⟩ := Action.on_bind_ok.mp h
  have hlooked := (requireManaged_ok hV hmanaged).1
  obtain ⟨-, rfl⟩ := Prod.mk.inj h
  refine ⟨?_, hlooked.fs, hlooked.store, hlooked.now, hlooked.asked⟩
  dsimp only
  rw [hlooked.core]

theorem discardPending_error (hV : C.VaultLaws) {e : CoreError Addr}
    (h : (discardPending C addr).on w = (.error e, w')) : Looked w w' := by
  unfold discardPending at h
  obtain h | ⟨u', w₁, hmanaged, h⟩ := Action.on_bind_error.mp h
  · exact requireManaged_error hV h
  · cases (Prod.mk.inj h).1

/-! ### Reading the store -/

/-- The store was asked once for the account's log. -/
structure Asked (addr : Addr) (w w' : World Addr) : Prop where
  fs : w'.disk.fs = w.disk.fs
  store : w'.store = (w.store.fetch addr).2
  now : w'.now = w.now
  asked : w'.asked = .fetched addr :: w.asked

theorem Asked.looked {w₁ w₂ : World Addr} (h : Looked w w₁) (h' : Asked addr w₁ w₂) :
    Asked addr w w₂ where
  fs := h'.fs.trans h.fs
  store := by rw [h'.store, h.store]
  now := h'.now.trans h.now
  asked := by rw [h'.asked, h.asked]

/-- The store answered, and the resolver holds `held` now. -/
structure Landed (C : Crates Addr) (addr : Addr) (held : Option AccountRecord) (w w' : World Addr) :
    Prop extends Asked addr w w' where
  resolved : ∃ fetched, (w.store.fetch addr).1 = .ok fetched ∧
    C.resolve addr (w.core.resolver addr) fetched = .ok held
  core : w'.core = (w.core.landed addr held w.now).settle C addr

/-- The read failed, since the store did not answer, or with a log the resolver does not take. -/
structure Failed (C : Crates Addr) (addr : Addr) (e : AccountError) (w w' : World Addr) : Prop
    extends Asked addr w w' where
  reason : (∃ error, (w.store.fetch addr).1 = .error error ∧ e = .provider error) ∨
    ∃ fetched, (w.store.fetch addr).1 = .ok fetched ∧
      C.resolve addr (w.core.resolver addr) fetched = .error e
  core : w'.core = w.core.failed addr e

theorem Landed.looked {held : Option AccountRecord} {w₁ w₂ : World Addr} (h : Looked w w₁)
    (h' : Landed C addr held w₁ w₂) : Landed C addr held w w₂ where
  toAsked := h'.toAsked.looked h
  resolved := by
    rw [← h.store, ← h.core]
    exact h'.resolved
  core := by rw [h'.core, h.core, h.now]

theorem Failed.looked {e : AccountError} {w₁ w₂ : World Addr} (h : Looked w w₁)
    (h' : Failed C addr e w₁ w₂) : Failed C addr e w w₂ where
  toAsked := h'.toAsked.looked h
  reason := by
    rw [← h.store, ← h.core]
    exact h'.reason
  core := by rw [h'.core, h.core]

/-- Where nothing was handed over, the store is asked. -/
theorem fetch_eq (hwritten : w.core.written = none) :
    w.fetch addr = ((w.store.fetch addr).1,
      { w with store := (w.store.fetch addr).2, asked := .fetched addr :: w.asked }) := by
  unfold World.fetch
  rw [hwritten]

theorem readStore_cases (hwritten : w.core.written = none) {r : Except (CoreError Addr) Unit}
    (h : (readStore C addr).on w = (r, w')) :
    r = .ok () ∧ (∃ held, Landed C addr held w w') ∨
      ∃ e, r = .error (.account e) ∧ Failed C addr e w w' := by
  have hon : (readStore C addr).on w =
      ((w.readStore C addr).1.mapError .account, (w.readStore C addr).2) := rfl
  rw [hon] at h
  unfold World.readStore World.resolve at h
  rw [fetch_eq hwritten] at h
  dsimp only at h
  cases hfetch : (w.store.fetch addr).1 with
  | error e =>
    rw [hfetch] at h
    obtain ⟨rfl, rfl⟩ := Prod.mk.inj h
    exact .inr ⟨_, rfl, ⟨rfl, rfl, rfl, rfl⟩, .inl ⟨e, hfetch, rfl⟩, rfl⟩
  | ok fetched =>
    rw [hfetch] at h
    dsimp only at h
    cases hresolve : C.resolve addr (w.core.resolver addr) fetched with
    | error e =>
      rw [hresolve] at h
      obtain ⟨rfl, rfl⟩ := Prod.mk.inj h
      exact .inr ⟨e, rfl, ⟨rfl, rfl, rfl, rfl⟩, .inr ⟨fetched, hfetch, hresolve⟩, rfl⟩
    | ok held =>
      rw [hresolve] at h
      obtain ⟨rfl, rfl⟩ := Prod.mk.inj h
      exact .inl ⟨rfl, held, ⟨rfl, rfl, rfl, rfl⟩, ⟨fetched, hfetch, hresolve⟩, rfl⟩

/-- What the next answer counts is what was dropped. -/
theorem takeDropped_on (w : World Addr) :
    (takeDropped addr).on w =
      (.ok ((w.core.dropped addr).getD 0), { w with core := w.core.collected addr }) := rfl

theorem refresh_ok (hV : C.VaultLaws) (hwritten : w.core.written = none) {n : ℕ}
    (h : (refresh C addr).on w = (.ok n, w')) :
    ∃ held w₁, Landed C addr held w w₁ ∧ n = (w₁.core.dropped addr).getD 0 ∧
      w' = { w₁ with core := w₁.core.collected addr } := by
  unfold refresh at h
  obtain ⟨u, w₁, hknown, h⟩ := Action.on_bind_ok.mp h
  have hlooked := requireKnown_looked hV hknown
  obtain ⟨u', w₂, hread, h⟩ := Action.on_bind_ok.mp h
  rw [takeDropped_on] at h
  obtain ⟨hn, rfl⟩ := Prod.mk.inj h
  rcases readStore_cases (by rw [hlooked.core, hwritten]) hread with
    ⟨-, held, hlanded⟩ | ⟨e, he, -⟩
  · exact ⟨held, w₂, hlanded.looked hlooked, (Except.ok.inj hn).symm, rfl⟩
  · cases he

theorem refresh_error (hV : C.VaultLaws) (hwritten : w.core.written = none) {e : CoreError Addr}
    (h : (refresh C addr).on w = (.error e, w')) :
    Looked w w' ∨ ∃ error, Failed C addr error w w' := by
  unfold refresh at h
  rcases Action.on_bind_error.mp h with h | ⟨u, w₁, hknown, h⟩
  · exact .inl (requireKnown_looked hV h)
  have hlooked := requireKnown_looked hV hknown
  rcases Action.on_bind_error.mp h with h | ⟨u', w₂, hread, h⟩
  · rcases readStore_cases (by rw [hlooked.core, hwritten]) h with ⟨hr, -⟩ | ⟨error, -, hfailed⟩
    · cases hr
    · exact .inr ⟨error, hfailed.looked hlooked⟩
  · rw [takeDropped_on] at h
    cases (Prod.mk.inj h).1

/-! ### Publishing -/

/-- What a publish went through before its read: the account is the vault's, something is staged,
and a key to sign with was found. -/
structure Admitted (C : Crates Addr) (addr : Addr) (key : Ed25519SigningKey) (w : World Addr) :
    Prop where
  present : Vault.Present C w.disk.fs addr
  single : ¬Vault.Doubled C w.disk.fs addr
  staged : (w.core.staged addr).getD [] ≠ []
  key : w.core.unlocked addr = some key ∨ C.addrOf key = addr ∧
    (w.disk.fs.node (Vault.pathOf C addr false)).isSome

/-- The second half of planning an update: what to write, on top of what was just read. -/
theorem plan_landed {key : Ed25519SigningKey} {r : Except (CoreError Addr) (Published ⊕ Update)}
    (h : (do
      let core ← .look World.core
      match core.staged addr with
      | none => return .inl ⟨none, ← takeDropped addr⟩
      | some staged =>
        .orFail (core.fits C addr staged)
        let draft ← .orFail (core.extendable C addr)
        return .inr {
          key := key
          firstNew := draft.elim 0 (·.entries.length)
          entries := core.plannedEntries addr
          base := (core.record addr).map (·.signedLog) } :
      CoreM Addr (Published ⊕ Update)).on w = (r, w')) :
    w.core.staged addr = none ∧ r = .ok (.inl ⟨none, (w.core.dropped addr).getD 0⟩) ∧
        w' = { w with core := w.core.collected addr } ∨
      ∃ staged, w.core.staged addr = some staged ∧ w' = w ∧
        ((∃ e, r = .error e ∧ w.core.fits C addr staged = .error e) ∨
          ∃ draft, w.core.fits C addr staged = .ok () ∧ w.core.extendable C addr = .ok draft ∧
            r = .ok (.inr {
              key := key
              firstNew := draft.elim 0 (·.entries.length)
              entries := plan staged
              base := (w.core.record addr).map (·.signedLog) })) := by
  rw [Action.on_look_bind] at h
  cases hstaged : w.core.staged addr with
  | none =>
    rw [hstaged] at h
    dsimp only at h
    rcases Action.on_bind_cases h with ⟨e, htake, -⟩ | ⟨n, w₁, htake, h⟩
    · rw [takeDropped_on] at htake
      cases (Prod.mk.inj htake).1
    · rw [takeDropped_on] at htake
      obtain ⟨hn, rfl⟩ := Prod.mk.inj htake
      obtain ⟨hr, rfl⟩ := Prod.mk.inj h
      exact .inl ⟨rfl, by rw [← hr, Except.ok.inj hn], rfl⟩
  | some staged =>
    rw [hstaged] at h
    dsimp only at h
    refine .inr ⟨staged, rfl, ?_⟩
    rcases Action.on_orFail_bind_cases h with ⟨e, hfits, hr, hw⟩ | ⟨u, hfits, h⟩
    · exact ⟨hw, .inl ⟨e, hr, hfits⟩⟩
    rcases Action.on_orFail_bind_cases h with ⟨e, hdraft, hr, hw⟩ | ⟨draft, hdraft, h⟩
    · -- What fits was extended, so the log can be.
      have hfits' : w.core.fits C addr staged = .error e := by
        unfold AccountCore.fits
        rw [hdraft]
        rfl
      exact ⟨hw, .inl ⟨e, hr, hfits'⟩⟩
    · obtain ⟨hr, hw⟩ := Prod.mk.inj h
      have hentries : w.core.plannedEntries addr = plan staged := by
        rw [AccountCore.plannedEntries, hstaged]
        rfl
      refine ⟨hw.symm, .inr ⟨draft, hfits, hdraft, ?_⟩⟩
      rw [← hentries]
      exact hr.symm

/-- The account's key is not in the vault, or not at hand: what a publish of staged edits is refused
for before the store is read. -/
def Unkeyed (C : Crates Addr) (addr : Addr) (e : CoreError Addr) (w w' : World Addr) : Prop :=
  (requireManaged C addr).on w = (.error e, w') ∨
    ∃ w₁, (requireManaged C addr).on w = (.ok (), w₁) ∧ (signingKey C addr).on w₁ = (.error e, w')

/-- How planning an update goes: it is refused before the store is read, or the read fails, or the
read lands and either nothing is left to write, or what is left does not fit, or there is an update
to write. -/
inductive PlanOutcome (C : Crates Addr) (addr : Addr) (w : World Addr) :
    Except (CoreError Addr) (Published ⊕ Update) → World Addr → Prop
  | refused {e w'} (hoff : OffLog e) (hlooked : Looked w w')
      (hunkeyed : (w.core.staged addr).getD [] = [] ∨ Unkeyed C addr e w w') :
      PlanOutcome C addr w (.error e) w'
  | unread {key e w'} (hadmitted : Admitted C addr key w) (hfailed : Failed C addr e w w') :
      PlanOutcome C addr w (.error (.account e)) w'
  | nothing {key held w'} (hadmitted : Admitted C addr key w) (hlanded : Landed C addr held w w')
      (hnone : w'.core.staged addr = none) :
      PlanOutcome C addr w (.ok (.inl ⟨none, (w'.core.dropped addr).getD 0⟩))
        { w' with core := w'.core.collected addr }
  | unfit {key held staged e w'} (hadmitted : Admitted C addr key w)
      (hlanded : Landed C addr held w w') (hstaged : w'.core.staged addr = some staged)
      (hfits : w'.core.fits C addr staged = .error e) : PlanOutcome C addr w (.error e) w'
  | planned {key held staged draft w'} (hadmitted : Admitted C addr key w)
      (hlanded : Landed C addr held w w') (hstaged : w'.core.staged addr = some staged)
      (hfits : w'.core.fits C addr staged = .ok ())
      (hdraft : w'.core.extendable C addr = .ok draft) :
      PlanOutcome C addr w (.ok (.inr {
        key := key
        firstNew := draft.elim 0 (·.entries.length)
        entries := plan staged
        base := (w'.core.record addr).map (·.signedLog) })) w'

theorem planUpdate_outcome (hV : C.VaultLaws) (hwritten : w.core.written = none)
    {r : Except (CoreError Addr) (Published ⊕ Update)}
    (h : (planUpdate C addr).on w = (r, w')) : PlanOutcome C addr w r w' := by
  unfold planUpdate at h
  rcases Action.on_bind_cases h with ⟨e, hmanaged, rfl⟩ | ⟨u, w₁, hmanaged, h⟩
  · exact .refused (requireManaged_offLog hmanaged) (requireManaged_error hV hmanaged)
      (.inr (.inl hmanaged))
  obtain ⟨hlooked, hsingle, hpresent⟩ := requireManaged_ok hV hmanaged
  rw [Action.on_look_bind, hlooked.core] at h
  rcases Action.on_refuse_bind_cases h with ⟨hnothing, rfl, hw⟩ | ⟨hstaged, h⟩
  · exact .refused trivial (hw ▸ hlooked) (.inl hnothing)
  rcases Action.on_bind_cases h with ⟨e, hkey, rfl⟩ | ⟨key, w₂, hkey, h⟩
  · exact .refused (signingKey_offLog hkey) (hlooked.trans (signingKey_looked hkey))
      (.inr (.inr ⟨w₁, hmanaged, hkey⟩))
  have hlooked' := hlooked.trans (signingKey_looked hkey)
  have hkey' := signingKey_ok hV hkey
  rw [hlooked.core, hlooked.fs] at hkey'
  have hadmitted : Admitted C addr key w := ⟨hpresent, hsingle, hstaged, hkey'⟩
  have hwritten' : w₂.core.written = none := by rw [hlooked'.core, hwritten]
  -- The account and its key are at hand: the store is read.
  rcases Action.on_bind_cases h with ⟨e, hread, rfl⟩ | ⟨u', w₃, hread, h⟩
  · rcases readStore_cases hwritten' hread with ⟨he, -⟩ | ⟨e', he, hfailed⟩
    · cases he
    · obtain rfl := Except.error.inj he
      exact .unread hadmitted (hfailed.looked hlooked')
  · rcases readStore_cases hwritten' hread with ⟨-, held, hlanded⟩ | ⟨e', he, -⟩
    · have hlanded' := hlanded.looked hlooked'
      rcases plan_landed h with
        ⟨hnone, rfl, rfl⟩ | ⟨staged, hsome, rfl, ⟨e, rfl, hfits⟩ | ⟨draft, hfits, hdraft, rfl⟩⟩
      · exact .nothing hadmitted hlanded' hnone
      · exact .unfit hadmitted hlanded' hsome hfits
      · exact .planned hadmitted hlanded' hsome hfits hdraft
    · cases he

/-- A write that the store took. -/
structure Wrote (C : Crates Addr) (update : Update) (signed : SignedAccountLog)
    (w w' : World Addr) : Prop where
  update_eq : C.update update.key update.base update.entries = .ok signed
  taken : (w.store.publish (C.addrOf update.key) signed).1 = .ok ()
  fs : w'.disk.fs = w.disk.fs
  store : w'.store = (w.store.publish (C.addrOf update.key) signed).2
  now : w'.now = w.now
  asked : w'.asked = .published (C.addrOf update.key) signed :: w.asked

/-- A log handed over is the one the resolver reads next. -/
theorem resolve_written {signed : SignedAccountLog} {r : Except AccountError Unit}
    (hwritten : w.core.written = some (addr, signed)) (h : w.resolve C addr = (r, w')) :
    (∃ e, r = .error e ∧ C.resolve addr (w.core.resolver addr) (some signed) = .error e ∧
        w' = { w with core := { w.core with written := none } }) ∨
      ∃ held, r = .ok () ∧ C.resolve addr (w.core.resolver addr) (some signed) = .ok held ∧
        w' = { w with core := { w.core with
          written := none, resolver := Function.update w.core.resolver addr held } } := by
  unfold World.resolve World.fetch at h
  rw [hwritten] at h
  dsimp only at h
  rw [if_pos rfl] at h
  dsimp only at h
  cases hresolve : C.resolve addr (w.core.resolver addr) (some signed) with
  | error e =>
    rw [hresolve] at h
    obtain ⟨rfl, rfl⟩ := Prod.mk.inj h
    exact .inl ⟨e, rfl, rfl, rfl⟩
  | ok held =>
    rw [hresolve] at h
    obtain ⟨rfl, rfl⟩ := Prod.mk.inj h
    exact .inr ⟨held, rfl, rfl, rfl⟩

/-- How handing a log to the store goes. -/
theorem writeLog_cases {key : Ed25519SigningKey} {base : Option SignedAccountLog}
    {entries : List AccountEntry} {r : Except AccountError SignedAccountLog}
    (h : w.writeLog C key base entries = (r, w')) :
    (∃ e, r = .error e ∧ C.update key base entries = .error e ∧ w' = w) ∨
      ∃ signed, C.update key base entries = .ok signed ∧
        w' = { w with
          store := (w.store.publish (C.addrOf key) signed).2
          asked := .published (C.addrOf key) signed :: w.asked } ∧
        ((∃ e, r = .error (.provider e) ∧
            (w.store.publish (C.addrOf key) signed).1 = .error e) ∨
          r = .ok signed ∧ (w.store.publish (C.addrOf key) signed).1 = .ok ()) := by
  unfold World.writeLog at h
  cases hsigned : C.update key base entries with
  | error e =>
    rw [hsigned] at h
    obtain ⟨rfl, rfl⟩ := Prod.mk.inj h
    exact .inl ⟨e, rfl, rfl, rfl⟩
  | ok signed =>
    rw [hsigned] at h
    dsimp only at h
    refine .inr ⟨signed, rfl, ?_⟩
    cases htaken : (w.store.publish (C.addrOf key) signed).1 with
    | error e =>
      rw [htaken] at h
      obtain ⟨rfl, rfl⟩ := Prod.mk.inj h
      exact ⟨rfl, .inl ⟨e, rfl, rfl⟩⟩
    | ok u =>
      rw [htaken] at h
      obtain ⟨rfl, rfl⟩ := Prod.mk.inj h
      exact ⟨rfl, .inr ⟨rfl, rfl⟩⟩

/-- How writing an update goes: it is not signed, or the store refuses it, or the store takes it
and the resolver is handed it. -/
theorem writeUpdate_cases {update : Update} {r : Except (CoreError Addr) Published}
    (h : (writeUpdate C addr update).on w = (r, w')) :
    (∃ e, r = .error (.account e) ∧
        C.update update.key update.base update.entries = .error e ∧ w' = w) ∨
      (∃ e signed, r = .error (.account (.provider e)) ∧
        C.update update.key update.base update.entries = .ok signed ∧
        (w.store.publish (C.addrOf update.key) signed).1 = .error e ∧ w' = { w with
          store := (w.store.publish (C.addrOf update.key) signed).2
          asked := .published (C.addrOf update.key) signed :: w.asked }) ∨
      ∃ signed, Wrote C update signed w w' ∧
        ((∃ e, r = .error (.account e) ∧
            C.resolve addr (w.core.resolver addr) (some signed) = .error e ∧
            w'.core = { w.core with
              staged := Function.update w.core.staged addr none
              written := none }) ∨
          ∃ held, C.resolve addr (w.core.resolver addr) (some signed) = .ok held ∧
            r = .ok ⟨some update.firstNew, (w.core.dropped addr).getD 0⟩ ∧
            w'.core = AccountCore.collected { w.core with
              staged := Function.update w.core.staged addr none
              resolver := Function.update w.core.resolver addr held
              written := none } addr) := by
  unfold writeUpdate at h
  rcases Action.on_bind_cases h with ⟨e, hcall, hr⟩ | ⟨signed, w₁, hcall, hrest⟩
  -- Nothing was handed over, or the store refused what was.
  · obtain ⟨he, hw⟩ := Prod.mk.inj hcall
    obtain ⟨e', he', rfl⟩ := mapError_eq_error.mp he
    have hwrite : w.writeLog C update.key update.base update.entries = (.error e', w') :=
      Prod.ext he' hw
    rcases writeLog_cases hwrite with ⟨e, he, hsigned, hw⟩ | ⟨signed, hsigned, hw, hans⟩
    · obtain rfl := Except.error.inj he
      exact .inl ⟨e', hr, hsigned, hw⟩
    · rcases hans with ⟨e, he, hrefused⟩ | ⟨he, -⟩
      · obtain rfl := Except.error.inj he
        exact .inr (.inl ⟨e, signed, hr, hsigned, hrefused, hw⟩)
      · cases he
  · obtain ⟨hs, hw₁⟩ := Prod.mk.inj hcall
    have hwrite : w.writeLog C update.key update.base update.entries = (.ok signed, w₁) :=
      Prod.ext (mapError_eq_ok.mp hs) hw₁
    obtain ⟨hsigned, htaken, rfl⟩ :
        C.update update.key update.base update.entries = .ok signed ∧
        (w.store.publish (C.addrOf update.key) signed).1 = .ok () ∧ w₁ = { w with
          store := (w.store.publish (C.addrOf update.key) signed).2
          asked := .published (C.addrOf update.key) signed :: w.asked } := by
      rcases writeLog_cases hwrite with
        ⟨e, he, -⟩ | ⟨signed', hsigned, hw, ⟨e, he, -⟩ | ⟨he, htaken⟩⟩
      · cases he
      · cases he
      · obtain rfl := Except.ok.inj he
        exact ⟨hsigned, htaken, hw⟩
    -- The store took it, so the resolver reads it back.
    refine .inr (.inr ⟨signed, ?_⟩)
    unfold changeCore at hrest
    rw [Action.on_change_bind] at hrest
    rcases Action.on_bind_cases hrest with ⟨e, hresolve, hr⟩ | ⟨u, w₂, hresolve, hrest⟩
    · obtain ⟨he, hw⟩ := Prod.mk.inj hresolve
      obtain ⟨e', he', rfl⟩ := mapError_eq_error.mp he
      rcases resolve_written (C := C) rfl (Prod.ext he' hw) with ⟨e, he, hres, rfl⟩ | ⟨held, he, -⟩
      · obtain rfl := Except.error.inj he
        exact ⟨⟨hsigned, htaken, rfl, rfl, rfl, rfl⟩, .inl ⟨e', hr, hres, rfl⟩⟩
      · cases he
    · obtain ⟨he, hw⟩ := Prod.mk.inj hresolve
      rcases resolve_written (C := C) rfl (Prod.ext (mapError_eq_ok.mp he) hw) with
        ⟨e, he, -⟩ | ⟨held, -, hres, rfl⟩
      · cases he
      rcases Action.on_bind_cases hrest with ⟨e, htake, -⟩ | ⟨n, w₃, htake, hdone⟩
      · rw [takeDropped_on] at htake
        cases (Prod.mk.inj htake).1
      · rw [takeDropped_on] at htake
        obtain ⟨hn, rfl⟩ := Prod.mk.inj htake
        obtain ⟨hr, rfl⟩ := Prod.mk.inj hdone
        refine ⟨⟨hsigned, htaken, rfl, rfl, rfl, rfl⟩, .inr ⟨held, hres, ?_, rfl⟩⟩
        rw [← hr, ← Except.ok.inj hn]

/-- How a publish goes: as planning an update does, and what was planned is written. -/
inductive PublishOutcome (C : Crates Addr) (addr : Addr) (w : World Addr) :
    Except (CoreError Addr) Published → World Addr → Prop
  | refused {e w'} (hoff : OffLog e) (hlooked : Looked w w')
      (hunkeyed : (w.core.staged addr).getD [] = [] ∨ Unkeyed C addr e w w') :
      PublishOutcome C addr w (.error e) w'
  | unread {key e w'} (hadmitted : Admitted C addr key w) (hfailed : Failed C addr e w w') :
      PublishOutcome C addr w (.error (.account e)) w'
  | nothing {key held w'} (hadmitted : Admitted C addr key w) (hlanded : Landed C addr held w w')
      (hnone : w'.core.staged addr = none) :
      PublishOutcome C addr w (.ok ⟨none, (w'.core.dropped addr).getD 0⟩)
        { w' with core := w'.core.collected addr }
  | unfit {key held staged e w'} (hadmitted : Admitted C addr key w)
      (hlanded : Landed C addr held w w') (hstaged : w'.core.staged addr = some staged)
      (hfits : w'.core.fits C addr staged = .error e) : PublishOutcome C addr w (.error e) w'
  | written {key held update r w₁ w'} (hadmitted : Admitted C addr key w)
      (hlanded : Landed C addr held w w₁) (hkey : update.key = key)
      (hplan : (planUpdate C addr).on w = (.ok (.inr update), w₁))
      (hwrite : (writeUpdate C addr update).on w₁ = (r, w')) : PublishOutcome C addr w r w'

theorem publish_outcome (hV : C.VaultLaws) (hwritten : w.core.written = none)
    {r : Except (CoreError Addr) Published} (h : (publish C addr).on w = (r, w')) :
    PublishOutcome C addr w r w' := by
  unfold publish at h
  rcases Action.on_bind_cases h with ⟨e, hplan, rfl⟩ | ⟨planned, w₁, hplan, h⟩
  · cases planUpdate_outcome hV hwritten hplan with
    | refused hoff hlooked hunkeyed => exact .refused hoff hlooked hunkeyed
    | unread hadmitted hfailed => exact .unread hadmitted hfailed
    | unfit hadmitted hlanded hstaged hfits => exact .unfit hadmitted hlanded hstaged hfits
  rcases planned with published | update
  · obtain ⟨rfl, rfl⟩ := Prod.mk.inj h
    cases planUpdate_outcome hV hwritten hplan with
    | nothing hadmitted hlanded hnone => exact .nothing hadmitted hlanded hnone
  · have houtcome := planUpdate_outcome hV hwritten hplan
    cases houtcome with
    | planned hadmitted hlanded => exact .written hadmitted hlanded rfl hplan h

end AccountLogUi.Manager
