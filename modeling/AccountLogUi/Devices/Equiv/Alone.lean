import AccountLogUi.Devices.Account
import AccountLogUi.Devices.Equiv.Converging
import AccountLogUi.Manager.Equiv.Fulfilled

/-!
# A device alone edits an account

A device that holds all of the log the store holds, and has the store to itself, answers every call
about the account as `Account.apply` does of what is published, staged and uncounted, or refuses it
for a reason that has nothing to do with the log: the account is not the vault's, or its key is not
to be had.  In particular a publish that was refused because the store had moved on is not refused
for that again.

`Current` is what holds of such a device, `Current.edit` one call of it, and `alone_is_an_account`
any number.
-/

namespace AccountLogUi

open Manager

variable {Addr : Type} [DecidableEq Addr] {C : Crates Addr} {w w' w₁ : World Addr} {addr : Addr}

/-- The account, as it is spread over the store and the app. -/
def World.account (C : Crates Addr) (addr : Addr) (w : World Addr) : Account where
  published := w.store.entries C addr
  staged := (w.core.staged addr).getD []
  uncounted := (w.core.dropped addr).getD 0

/-- What the app makes sure of before it looks at the log. -/
def Edit.admits (C : Crates Addr) (addr : Addr) : Edit → CoreM Addr Unit
  | .refresh => requireKnown C addr
  | .publish => do
    requireManaged C addr
    let staged ← .look (·.core.staged addr)
    if staged.getD [] = [] then return ()
    else
      let _ ← signingKey C addr
      return ()
  | _ => requireManaged C addr

/-- The app holds all of the log the store holds for the account, and shows it. -/
structure Current (C : Crates Addr) (addr : Addr) (w : World Addr) : Prop extends Follows C w where
  backed : w.Backed
  answered : w.core.answered addr = true
  caughtUp : heldEntries (w.core.resolver addr) = w.store.entries C addr

namespace Current

theorem record_eq (h : Current C addr w) : w.core.record addr = w.core.resolver addr :=
  record_of_answered h.answered

theorem shown (h : Current C addr w) :
    heldEntries (w.core.record addr) = (w.account C addr).published := by
  rw [h.record_eq]
  exact h.caughtUp

/-- Where nothing of the log changes. -/
theorem kept (h : Current C addr w) (hstore : w'.store = w.store)
    (hresolver : w'.core.resolver = w.core.resolver) (hread : w'.core.read = w.core.read)
    (hsound : Sound C w'.core) (hwritten : w'.core.written = none) : Current C addr w' where
  toFollows := h.toFollows.kept hstore hresolver hsound hwritten
  backed other := by
    rw [hstore, hresolver]
    exact h.backed other
  answered := by
    have hanswered := h.answered
    unfold AccountCore.answered AccountCore.readAt at hanswered ⊢
    rw [hread]
    exact hanswered
  caughtUp := by
    rw [hstore, hresolver]
    exact h.caughtUp

theorem looked (h : Current C addr w) (hlooked : Looked w w') :
    Current C addr w' ∧ w'.account C addr = w.account C addr := by
  refine ⟨h.kept hlooked.store (by rw [hlooked.core]) (by rw [hlooked.core])
    (hlooked.core ▸ h.sound) (by rw [hlooked.core, h.written]), ?_⟩
  unfold World.account
  rw [hlooked.store, hlooked.core]

/-! ### Staging -/

theorem liveName_iff (hL : C.LogLaws) (h : Current C addr w) (name : String) :
    w.core.liveName C addr = some name ↔ InForce (w.account C addr).published name := by
  rw [← h.shown]
  unfold AccountCore.liveName InForce
  cases w.core.record addr with
  | none =>
    constructor
    · intro hnone
      cases hnone
    · rintro ⟨index, ⟨hentry, -⟩, -⟩
      cases hentry
  | some record => exact liveDisplayName_eq_some hL

theorem restaged (hL : C.LogLaws) (hA : C.AccountLaws) (h : Current C addr w)
    (hread : C.Readable (w.account C addr).published) {staged : List StagedEdit}
    (hrestages : w.core.Restages C addr staged) {r : Except (CoreError Addr) Unit}
    (hrun : (Manager.restage C addr staged).on w = (r, w')) :
    (r.map fun _ => CoreAnswer.done, w'.account C addr) = (w.account C addr).restage C staged ∧
      Current C addr w' := by
  have hfits := h.sound.restaged_fits hL (h.shown ▸ hread) (.inl h.answered) hrestages
  rw [h.shown] at hfits
  unfold Manager.restage at hrun
  rw [Action.on_look_bind, hfits] at hrun
  unfold Account.restage Account.Fits
  by_cases hsize : (C.payloadOf ((w.account C addr).published ++ plan staged)).length ≤
      C.maxPayloadBytes
  · rw [if_pos hsize] at hrun hfits ⊢
    obtain ⟨hr, hw⟩ := Prod.mk.inj hrun
    have hsteps := h.sound.step hL hA (.restaged addr hfits hrestages)
    rw [← hr, ← hw]
    refine ⟨Prod.ext rfl ?_, h.kept rfl rfl rfl hsteps h.written⟩
    unfold World.account
    dsimp only
    rw [Function.update_self, getD_waiting]
  · rw [if_neg hsize] at hrun ⊢
    obtain ⟨rfl, rfl⟩ := Prod.mk.inj hrun
    exact ⟨rfl, h⟩

/-- The log is extended where this build can read it. -/
theorem extendable_cases (hL : C.LogLaws) (h : Current C addr w) :
    w.core.extendable C addr = .error .unreadable ∧ ¬C.Readable (w.account C addr).published ∨
      C.Readable (w.account C addr).published ∧ w.core.extendable C addr =
        .ok ((w.core.record addr).map fun record => ⟨record.log.entries⟩) := by
  rcases @extendable_eq _ C w.core addr hL with ⟨heq, hread⟩ | ⟨heq, hread⟩
  · exact .inr ⟨h.shown ▸ hread, heq⟩
  · exact .inl ⟨heq, h.shown ▸ hread⟩

/-- What is asked of the draft of the log shown, where there is one, is asked of the log
published. -/
theorem drafted_iff (h : Current C addr w) {P : AccountLogDraft → Prop}
    {Q : List AccountEntry → Prop} (hdraft : ∀ entries, P ⟨entries⟩ ↔ Q entries) (hempty : ¬Q []) :
    (∃ d, (w.core.record addr).map (fun record => AccountLogDraft.mk record.log.entries) = some d ∧
      P d) ↔ Q (w.account C addr).published := by
  rw [← h.shown]
  cases w.core.record addr with
  | none =>
    constructor
    · rintro ⟨d, hnone, -⟩
      cases hnone
    · exact fun hyes => absurd hyes hempty
  | some record =>
    constructor
    · rintro ⟨d, hd, hyes⟩
      rw [← Option.some.inj hd] at hyes
      exact (hdraft _).mp hyes
    · exact fun hyes => ⟨_, rfl, (hdraft _).mpr hyes⟩

theorem stageAddInstallation (hL : C.LogLaws) (hA : C.AccountLaws) (hV : C.VaultLaws)
    (h : Current C addr w) {keyHex : String} {u : Unit}
    (hadmits : (requireManaged C addr).on w = (.ok u, w₁)) {r : Except (CoreError Addr) Unit}
    (hrun : (Manager.stageAddInstallation C addr keyHex).on w = (r, w')) :
    (r.map fun _ => CoreAnswer.done, w'.account C addr) =
      (w.account C addr).apply C (.stageAddInstallation keyHex) ∧ Current C addr w' := by
  obtain ⟨h₁, haccount⟩ := h.looked (requireManaged_ok hV hadmits).1
  unfold Manager.stageAddInstallation at hrun
  rw [Action.on_bind, hadmits] at hrun
  unfold Account.apply
  dsimp only at hrun ⊢
  rcases Action.on_orFail_bind_cases hrun with ⟨e, hkey, rfl, rfl⟩ | ⟨key, hkey, hrun⟩
  · rw [hkey, haccount]
    exact ⟨rfl, h₁⟩
  rw [hkey, ← haccount]
  dsimp only
  unfold Account.addInstallation
  rw [Action.on_look_bind] at hrun
  -- An unreadable log is refused on both sides, before anything is looked up in it.
  rcases h₁.extendable_cases hL with ⟨hdraft, hread⟩ | ⟨hread, hdraft⟩
  · rw [hdraft] at hrun
    obtain ⟨rfl, rfl⟩ := Prod.mk.inj hrun
    rw [if_pos hread]
    exact ⟨rfl, h₁⟩
  rw [if_neg (not_not.mpr hread)]
  rw [hdraft] at hrun
  have hlive := h₁.drafted_iff (P := fun d => key.bytes ∈ liveKeys C d)
    (Q := fun entries => KeyLive entries key.bytes) (fun _ => mem_liveKeys hL) (by
      rintro ⟨index, context, hentry, -⟩
      cases hentry)
  rcases Action.on_refuse_bind_cases hrun with ⟨hyes, rfl, rfl⟩ | ⟨hno, hrun⟩
  · rw [if_pos (hlive.mp hyes)]
    exact ⟨rfl, h₁⟩
  rw [if_neg fun hyes => hno (hlive.mpr hyes)]
  rcases Action.on_refuse_bind_cases hrun with ⟨hyes, rfl, rfl⟩ | ⟨hnew, hrun⟩
  · have hstaged : .addInstallation key ∈ (w'.account C addr).staged := hyes
    rw [if_pos hstaged]
    exact ⟨rfl, h₁⟩
  have hstaged : .addInstallation key ∉ (w₁.account C addr).staged := hnew
  rw [if_neg hstaged]
  have hcanonical := parseInstallationKey_ok hA hkey
  exact h₁.restaged hL hA hread
    (.add hcanonical hdraft (fun d hd hmem => hno ⟨d, hd, hmem⟩) hnew) hrun

theorem stageSetDisplayName (hL : C.LogLaws) (hA : C.AccountLaws) (hV : C.VaultLaws)
    (h : Current C addr w) {text : String} {u : Unit}
    (hadmits : (requireManaged C addr).on w = (.ok u, w₁)) {r : Except (CoreError Addr) Unit}
    (hrun : (Manager.stageSetDisplayName C addr text).on w = (r, w')) :
    (r.map fun _ => CoreAnswer.done, w'.account C addr) =
      (w.account C addr).apply C (.stageSetDisplayName text) ∧ Current C addr w' := by
  obtain ⟨h₁, haccount⟩ := h.looked (requireManaged_ok hV hadmits).1
  unfold Manager.stageSetDisplayName at hrun
  rw [Action.on_bind, hadmits] at hrun
  unfold Account.apply
  dsimp only at hrun ⊢
  rcases Action.on_orFail_bind_cases hrun with ⟨e, hname, rfl, rfl⟩ | ⟨name, hname, hrun⟩
  · rw [hname, haccount]
    exact ⟨rfl, h₁⟩
  rw [hname, ← haccount]
  dsimp only
  unfold Account.setDisplayName
  rw [Action.on_look_bind] at hrun
  rcases h₁.extendable_cases hL with ⟨hdraft, hread⟩ | ⟨hread, hdraft⟩
  · rw [hdraft] at hrun
    obtain ⟨rfl, rfl⟩ := Prod.mk.inj hrun
    rw [if_pos hread]
    exact ⟨rfl, h₁⟩
  rw [if_neg (not_not.mpr hread)]
  rw [hdraft, Action.on_bind, Action.on_orFail] at hrun
  dsimp only at hrun
  have hforce := h₁.liveName_iff hL name
  split at hrun
  -- The name is not in force: it takes the place of the one staged.
  · next hlive =>
    rw [if_pos fun hyes => hlive (hforce.mpr hyes)]
    exact h₁.restaged hL hA hread (.rename (displayName_ok hname).2 hdraft hlive) hrun
  -- The name is in force: what is left to do is to take the staged one away, if there is one.
  · next hlive =>
    rw [if_neg (not_not.mpr (hforce.mp (not_not.mp hlive)))]
    have hrename : (((w₁.core.staged addr).getD []).filter (!isRename ·)).length =
        ((w₁.core.staged addr).getD []).length ↔
          ¬∃ name, .setDisplayName name ∈ (w₁.account C addr).staged := by
      rw [List.length_filter_eq_length_iff]
      constructor
      · rintro hall ⟨name, hmem⟩
        have hrename := hall _ hmem
        cases hrename
      · intro hnone edit hmem
        cases edit with
        | setDisplayName name => exact absurd ⟨name, hmem⟩ hnone
        | addInstallation key => rfl
        | revoke index => rfl
    rcases Action.on_refuse_bind_cases hrun with ⟨hyes, rfl, rfl⟩ | ⟨hno, hrun⟩
    · rw [if_neg (hrename.mp hyes)]
      exact ⟨rfl, h₁⟩
    · rw [if_pos (not_not.mp fun hnone => hno (hrename.mpr hnone))]
      exact h₁.restaged hL hA hread .withdraw hrun

theorem stageRevoke (hL : C.LogLaws) (hA : C.AccountLaws) (hV : C.VaultLaws)
    (h : Current C addr w) {index : ℕ} {u : Unit}
    (hadmits : (requireManaged C addr).on w = (.ok u, w₁)) {r : Except (CoreError Addr) Unit}
    (hrun : (Manager.stageRevoke C addr index).on w = (r, w')) :
    (r.map fun _ => CoreAnswer.done, w'.account C addr) =
      (w.account C addr).apply C (.stageRevoke index) ∧ Current C addr w' := by
  obtain ⟨h₁, haccount⟩ := h.looked (requireManaged_ok hV hadmits).1
  unfold Manager.stageRevoke at hrun
  rw [Action.on_bind, hadmits] at hrun
  unfold Account.apply Account.revoke
  rw [← haccount]
  dsimp only at hrun ⊢
  rw [Action.on_look_bind] at hrun
  -- The checks, in the order of the account: the log is read, the entry lives, it is not staged.
  rcases h₁.extendable_cases hL with ⟨hdraft, hread⟩ | ⟨hread, hdraft⟩
  · rw [hdraft] at hrun
    obtain ⟨rfl, rfl⟩ := Prod.mk.inj hrun
    rw [if_pos hread]
    exact ⟨rfl, h₁⟩
  rw [if_neg (not_not.mpr hread)]
  rw [hdraft, Action.on_bind, Action.on_orFail] at hrun
  dsimp only at hrun
  have hlive := h₁.drafted_iff (P := fun d => ∃ entry ∈ C.liveEntries d, entry.index = index)
    (Q := fun entries => isLive entries index = true) (fun _ => any_liveEntries hL)
    fun hyes => absurd (isLive_lt hyes) (by simp)
  rcases Action.on_refuse_bind_cases hrun with ⟨hdead, rfl, rfl⟩ | ⟨hno, hrun⟩
  · rw [if_pos (Bool.eq_false_iff.mpr fun hyes => hdead (hlive.mpr hyes))]
    exact ⟨rfl, h₁⟩
  have hyes := hlive.mp (not_not.mp hno)
  rw [if_neg (by rw [hyes]; simp)]
  rcases Action.on_refuse_bind_cases hrun with ⟨halready, rfl, rfl⟩ | ⟨hnew, hrun⟩
  · have hstaged : .revoke index ∈ (w'.account C addr).staged := halready
    rw [if_pos hstaged]
    exact ⟨rfl, h₁⟩
  have hstaged : .revoke index ∉ (w₁.account C addr).staged := hnew
  rw [if_neg hstaged]
  obtain ⟨d, hd, hmem⟩ := not_not.mp hno
  rw [hd] at hdraft
  exact h₁.restaged hL hA hread (.revoke hdraft hmem hnew) hrun

theorem discardPending (hL : C.LogLaws) (hA : C.AccountLaws) (hV : C.VaultLaws)
    (h : Current C addr w) {u : Unit} (hadmits : (requireManaged C addr).on w = (.ok u, w₁))
    {r : Except (CoreError Addr) Unit}
    (hrun : (Manager.discardPending C addr).on w = (r, w')) :
    (r.map fun _ => CoreAnswer.done, w'.account C addr) =
      (w.account C addr).apply C .discardPending ∧ Current C addr w' := by
  obtain ⟨h₁, haccount⟩ := h.looked (requireManaged_ok hV hadmits).1
  unfold Manager.discardPending at hrun
  rw [Action.on_bind, hadmits] at hrun
  dsimp only at hrun
  obtain ⟨hr, hw⟩ := Prod.mk.inj hrun
  rw [← hr, ← hw, ← haccount]
  refine ⟨Prod.ext rfl ?_, h₁.kept rfl rfl rfl (h₁.sound.step hL hA (.discarded addr)) h₁.written⟩
  unfold World.account
  dsimp only
  rw [Function.update_self]
  rfl

end Current

/-! ### Reading -/

omit [DecidableEq Addr] in
/-- What settling keeps is what the log does not do. -/
theorem needed_iff_not_done (hL : C.LogLaws) {entries : List AccountEntry} {edit : StagedEdit} :
    AccountCore.needed C ⟨entries⟩ ⟨entries⟩ edit = true ↔ ¬Done entries edit := by
  have hneeded := @needed_iff _ C hL ⟨entries⟩ edit
  unfold Done
  cases edit with
  | revoke index => simpa using hneeded
  | addInstallation key => exact hneeded
  | setDisplayName name => exact hneeded.trans (not_congr (liveDisplayName_eq_some hL))

namespace Follows

theorem serves (h : Follows C w) (addr : Addr) :
    Serves C w addr (w.store.entries C addr) where
  answers := by rw [Store.fetch_memory h.memory]
  holds := by
    unfold Holds
    cases hheld : w.store.held addr with
    | none => exact Store.entries_none hheld
    | some signed =>
      obtain ⟨log, hverify⟩ := h.checks addr signed hheld
      rw [Store.entries_held hheld hverify]
      exact hverify
  goesOn := h.behind addr

open Classical in
/-- A read brings the log of the store, and drops what it does. -/
theorem landed_account (hL : C.LogLaws) (hA : C.AccountLaws) (h : Follows C w) (hbacked : w.Backed)
    {held : Option AccountRecord} (hlanded : Landed C addr held w w') :
    Current C addr w' ∧ w'.account C addr = (w.account C addr).settled C := by
  obtain ⟨hfollows, hstore, hentries⟩ := h.landed hL hA hlanded
  have hheld := (h.serves addr).landed hA hlanded
  have hbacked' : w'.Backed := by
    intro other hsome
    rw [hstore]
    exact (hlanded.adopts hL hA).backed h.memory hbacked hsome
  refine ⟨⟨hfollows, hbacked', hlanded.answered hL, by rw [hstore, hentries]⟩, ?_⟩
  -- `settle` is stated of what is left to do; the account counts what is done.
  have hstaged := @getD_staged_settle _ C _ (w.core.landed addr held w.now) addr
  have hdropped := @getD_dropped_settle _ C _ (w.core.landed addr held w.now) addr
  rw [← hlanded.core, landed_record] at hstaged hdropped
  have hbefore : (w.core.landed addr held w.now).staged = w.core.staged ∧
      (w.core.landed addr held w.now).dropped = w.core.dropped := ⟨rfl, rfl⟩
  rw [hbefore.1] at hstaged
  rw [hbefore.1, hbefore.2, ← hstaged] at hdropped
  unfold World.account Account.settled
  rw [hstore]
  dsimp only
  by_cases hread : C.Readable (w.store.entries C addr)
  · have hkept := (h.serves addr).kept hL hA h.sound hread hlanded
    rw [if_pos hread]
    have hfilter : Manager.kept C (w.store.entries C addr) ((w.core.staged addr).getD []) =
        ((w.core.staged addr).getD []).filter fun edit =>
          decide ¬Done (w.store.entries C addr) edit := by
      refine List.filter_congr fun edit _ => ?_
      rw [Bool.eq_iff_iff, decide_eq_true_iff]
      exact needed_iff_not_done hL
    rw [hkept, hfilter] at hdropped
    rw [hkept, hfilter]
    have hcount := List.length_eq_countP_add_countP
      (fun edit => decide (Done (w.store.entries C addr) edit)) (l := (w.core.staged addr).getD [])
    rw [← List.countP_eq_length_filter] at hdropped
    simp only [decide_eq_true_eq] at hcount
    congr 1
    omega
  -- Nothing is settled against a log this build cannot read.
  · rw [if_neg hread]
    have hsame : leftToDo C held ((w.core.staged addr).getD []) = (w.core.staged addr).getD [] := by
      unfold leftToDo
      cases held with
      | none => rfl
      | some record =>
        dsimp only
        cases hfrom : C.fromLog record.log with
        | error e => rfl
        | ok draft =>
          have hread' := (Crates.readable_of_fromLog hL hfrom).1
          rw [← hheld] at hread
          exact absurd hread' hread
    rw [hstaged, hsame]
    rw [hstaged, hsame] at hdropped
    congr 1
    omega

end Follows

/-! ### Publishing -/

/-- A publish let through: with nothing staged it is refused, and otherwise the store is read. -/
theorem planUpdate_admitted (hV : C.VaultLaws) (h : Follows C w) (hA : C.AccountLaws)
    (hbacked : w.Backed) {u : Unit} (hadmits : (Edit.publish.admits C addr).on w = (.ok u, w₁))
    {r : Except (CoreError Addr) (Published ⊕ Update)}
    (hplan : (planUpdate C addr).on w = (r, w')) :
    (w.core.staged addr).getD [] = [] ∧ r = .error .nothingStaged ∧ Looked w w' ∨
      (w.core.staged addr).getD [] ≠ [] ∧ ∃ held w₂, Landed C addr held w w₂ ∧
        (w₂.core.staged addr = none ∧ r = .ok (.inl ⟨none, (w₂.core.dropped addr).getD 0⟩) ∧
            w' = { w₂ with core := w₂.core.collected addr } ∨
          ∃ staged, w₂.core.staged addr = some staged ∧ w' = w₂ ∧
            ((∃ e, r = .error e ∧ w₂.core.fits C addr staged = .error e) ∨
              w₂.core.fits C addr staged = .ok () ∧
                ∃ update, r = .ok (.inr update) ∧ update.entries = plan staged)) := by
  unfold Edit.admits at hadmits
  obtain ⟨u', w₂, hmanaged, hadmits⟩ := Action.on_bind_ok.mp hadmits
  have hlooked := (requireManaged_ok hV hmanaged).1
  unfold planUpdate at hplan
  rw [Action.on_bind, hmanaged] at hplan
  dsimp only at hplan
  rw [Action.on_look_bind] at hplan hadmits
  rw [hlooked.core] at hplan hadmits
  rcases Action.on_refuse_bind_cases hplan with ⟨hnothing, rfl, rfl⟩ | ⟨hstaged, hplan⟩
  · exact .inl ⟨hnothing, rfl, hlooked⟩
  rw [if_neg hstaged] at hadmits
  -- What is let through has its key, and with the store to itself its read lands.
  obtain ⟨key, w₃, hkey, -⟩ := Action.on_bind_ok.mp hadmits
  rw [Action.on_bind, hkey] at hplan
  dsimp only at hplan
  have hlooked' := hlooked.trans (signingKey_looked hkey)
  have hwritten : w₃.core.written = none := by rw [hlooked'.core, h.written]
  rcases Action.on_bind_cases hplan with ⟨e, hread, -⟩ | ⟨u'', w₄, hread, hplan⟩
  · rcases readStore_cases hwritten hread with ⟨hr, -⟩ | ⟨error, -, hfailed⟩
    · cases hr
    · exact absurd (hfailed.looked hlooked') (h.not_failed hA hbacked)
  rcases readStore_cases hwritten hread with ⟨-, held, hlanded⟩ | ⟨error, hr, -⟩
  · refine .inr ⟨hstaged, held, w₄, hlanded.looked hlooked', ?_⟩
    rcases plan_landed hplan with hnone | ⟨staged, hsome, hw, hfailed | ⟨draft, hfits, -, hr⟩⟩
    · exact .inl hnone
    · exact .inr ⟨staged, hsome, hw, .inl hfailed⟩
    · exact .inr ⟨staged, hsome, hw, .inr ⟨hfits, _, hr, rfl⟩⟩
  · cases hr

/-- What was planned is written, since the store holds what it was planned against. -/
theorem Current.writes (hL : C.LogLaws) (hA : C.AccountLaws) (h : Current C addr w)
    {update : Update} (hplanned : Planned C addr w.core update)
    {r : Except (CoreError Addr) Published} (hwrite : (writeUpdate C addr update).on w = (r, w')) :
    r = .ok ⟨some (w.account C addr).published.length, (w.account C addr).uncounted⟩ ∧
      w'.account C addr = ⟨(w.account C addr).published ++ update.entries, [], 0⟩ ∧
      Current C addr w' := by
  have hfirst : update.firstNew = (w.account C addr).published.length := by
    rw [hplanned.firstNew, h.caughtUp]
    rfl
  rcases h.toFollows.write hL hA hplanned hwrite with
    ⟨-, -, -, hpast⟩ | ⟨⟨dropped, hr⟩, -, hentries, -, hfollows⟩
  · -- What is held is what was read, and so where the log written starts.
    rw [h.caughtUp] at hpast
    exact absurd (List.prefix_append _ _) hpast
  obtain ⟨signed, -, ⟨e, hr', -⟩ | ⟨-, hr', hcore⟩⟩ := hplanned.writes hL hA h.sound hwrite
  · rw [hr'] at hr
    cases hr
  obtain ⟨-, hbacked⟩ := h.toFollows.write_backed hL hA hplanned hwrite
  rw [h.caughtUp] at hentries
  have hresolver : w'.core.resolver addr =
      some ⟨⟨heldEntries (w.core.resolver addr) ++ update.entries⟩, signed⟩ := by
    rw [hcore]
    exact Function.update_self ..
  refine ⟨by rw [hr', hfirst]; rfl, ?_, hfollows, hbacked h.backed, ?_, ?_⟩
  · unfold World.account
    rw [hentries, hcore]
    unfold AccountCore.collected
    dsimp only
    rw [Function.update_self, Function.update_self]
    rfl
  · rw [hcore]
    exact h.answered
  · rw [hresolver, hentries, ← h.caughtUp]
    rfl

/-- How much there is to write is measured, once the log was read. -/
theorem Current.fits_cases (hL : C.LogLaws) (h : Current C addr w) {staged : List StagedEdit}
    (hstaged : w.core.staged addr = some staged) :
    (w.account C addr).staged = staged ∧ staged ≠ [] ∧
      (¬C.Readable (w.account C addr).published ∧
          w.core.fits C addr staged = .error .unreadable ∨
        C.Readable (w.account C addr).published ∧
          ((w.account C addr).Fits C staged ∧ w.core.fits C addr staged = .ok () ∨
            ¬(w.account C addr).Fits C staged ∧
              w.core.fits C addr staged = .error .overBudget)) := by
  refine ⟨by unfold World.account; rw [hstaged]; rfl, ?_, ?_⟩
  · rintro rfl
    exact h.sound.nonempty addr hstaged
  by_cases hread : C.Readable (w.account C addr).published
  · have hread' : C.Readable (heldEntries (w.core.record addr)) := h.shown ▸ hread
    have htakes := h.sound.takes (h.sound.revokesShown h.record_eq) hread'
    rw [hstaged, Option.getD_some] at htakes
    have hfits := fits_eq hL hread' htakes
    rw [h.shown] at hfits
    refine .inr ⟨hread, ?_⟩
    unfold Account.Fits
    by_cases hsize : (C.payloadOf ((w.account C addr).published ++ plan staged)).length ≤
        C.maxPayloadBytes
    · exact .inl ⟨hsize, by rwa [if_pos hsize] at hfits⟩
    · exact .inr ⟨hsize, by rwa [if_neg hsize] at hfits⟩
  · exact .inl ⟨hread, fits_unreadable hL (h.shown ▸ hread) staged⟩

/-- An update planned is one the log takes. -/
theorem Follows.planned (hV : C.VaultLaws) (hL : C.LogLaws) (hA : C.AccountLaws)
    (h : Follows C w) {update : Update}
    (hplan : (planUpdate C addr).on w = (.ok (.inr update), w')) :
    Planned C addr w'.core update :=
  ((h.plan hV hL hA hplan).2.2 update rfl).1

/-- What was planned is written, if anything was. -/
theorem publish_on (C : Crates Addr) (addr : Addr) (w : World Addr) :
    (Manager.publish C addr).on w = match (planUpdate C addr).on w with
      | (.error e, w₁) => (.error e, w₁)
      | (.ok (.inl published), w₁) => (.ok published, w₁)
      | (.ok (.inr update), w₁) => (writeUpdate C addr update).on w₁ := by
  unfold Manager.publish
  rw [Action.on_bind]
  rcases (planUpdate C addr).on w with ⟨e | published | update, w₁⟩ <;> rfl

/-- A publish let through, with the store to itself. -/
theorem Follows.publish (hV : C.VaultLaws) (hL : C.LogLaws) (hA : C.AccountLaws)
    (h : Follows C w) (hbacked : w.Backed) {u : Unit}
    (hadmits : (Edit.publish.admits C addr).on w = (.ok u, w₁))
    {r : Except (CoreError Addr) Published} (hrun : (Manager.publish C addr).on w = (r, w')) :
    (r.map CoreAnswer.published, w'.account C addr) = (w.account C addr).publish C ∧
      (Looked w w' ∨ Current C addr w') := by
  rcases hplan : (planUpdate C addr).on w with ⟨planned, w₂⟩
  have hpublish := publish_on C addr w
  rw [hrun, hplan] at hpublish
  unfold Account.publish
  rcases planUpdate_admitted hV h hA hbacked hadmits hplan with
    ⟨hnothing, rfl, hlooked⟩ | ⟨hstaged, held, w₃, hlanded, hrest⟩
  · obtain ⟨rfl, rfl⟩ := Prod.mk.inj hpublish
    have haccount : w'.account C addr = w.account C addr := by
      unfold World.account
      rw [hlooked.store, hlooked.core]
    have hnothing' : (w.account C addr).staged = [] := hnothing
    rw [if_pos hnothing', haccount]
    exact ⟨rfl, .inl hlooked⟩
  have hstaged' : (w.account C addr).staged ≠ [] := hstaged
  obtain ⟨hcurrent, haccount⟩ := h.landed_account hL hA hbacked hlanded
  rw [if_neg hstaged', ← haccount]
  dsimp only
  rcases hrest with ⟨hnone, rfl, rfl⟩ | ⟨staged, hsome, rfl, hfits⟩
  · -- All of it was done, so the log was read.
    have hdone : (w₃.account C addr).staged = [] := by
      unfold World.account
      rw [hnone]
      rfl
    have hread : C.Readable (w₃.account C addr).published := by
      by_contra hread
      rw [haccount, Account.settled_published] at hread
      rw [haccount, Account.settled_of_unreadable C _ hread] at hdone
      exact hstaged' hdone
    rw [if_neg (not_not.mpr hread), if_pos hdone]
    obtain ⟨rfl, rfl⟩ := Prod.mk.inj hpublish
    have hsound := hcurrent.sound.step hL hA (.collected addr)
    refine ⟨Prod.ext rfl ?_, .inr (hcurrent.kept rfl rfl rfl hsound hcurrent.written)⟩
    unfold World.account AccountCore.collected
    dsimp only
    rw [Function.update_self]
    rfl
  obtain ⟨heq, hnonempty, hmeasured⟩ := hcurrent.fits_cases hL hsome
  -- What is left is measured as the account measures it, whether or not the log can be read.
  rcases hmeasured with ⟨hread, hunreadable⟩ | ⟨hread, ⟨hsize, hok⟩ | ⟨hsize, hover⟩⟩
  · rw [if_pos hread]
    rcases hfits with ⟨e, rfl, he⟩ | ⟨hok, -⟩
    · rw [hunreadable] at he
      obtain rfl := Except.error.inj he
      obtain ⟨rfl, rfl⟩ := Prod.mk.inj hpublish
      exact ⟨rfl, .inr hcurrent⟩
    · rw [hunreadable] at hok
      cases hok
  · rw [if_neg (not_not.mpr hread), heq, if_neg hnonempty, if_pos hsize]
    rcases hfits with ⟨e, -, he⟩ | ⟨-, update, rfl, hentries⟩
    · rw [hok] at he
      cases he
    · obtain ⟨rfl, hwritten, hcurrent'⟩ :=
        hcurrent.writes hL hA (h.planned hV hL hA hplan) hpublish.symm
      rw [hwritten, hentries]
      exact ⟨rfl, .inr hcurrent'⟩
  · rw [if_neg (not_not.mpr hread), heq, if_neg hnonempty, if_neg hsize]
    rcases hfits with ⟨e, rfl, he⟩ | ⟨hok, -⟩
    · rw [hover] at he
      obtain rfl := Except.error.inj he
      obtain ⟨rfl, rfl⟩ := Prod.mk.inj hpublish
      exact ⟨rfl, .inr hcurrent⟩
    · rw [hover] at hok
      cases hok

/-! ### One call, and any number -/

/-- A refresh let through. -/
theorem Follows.refresh (hV : C.VaultLaws) (hL : C.LogLaws) (hA : C.AccountLaws)
    (h : Follows C w) (hbacked : w.Backed) {u : Unit}
    (hadmits : (requireKnown C addr).on w = (.ok u, w₁)) {r : Except (CoreError Addr) ℕ}
    (hrun : (Manager.refresh C addr).on w = (r, w')) :
    (r.map CoreAnswer.refreshed, w'.account C addr) = (w.account C addr).apply C .refresh ∧
      Current C addr w' := by
  have hlooked := requireKnown_looked hV hadmits
  have hwritten : w₁.core.written = none := by rw [hlooked.core, h.written]
  unfold Manager.refresh at hrun
  rw [Action.on_bind, hadmits] at hrun
  dsimp only at hrun
  rcases Action.on_bind_cases hrun with ⟨e, hread, -⟩ | ⟨u', w₂, hread, hrun⟩
  · rcases readStore_cases hwritten hread with ⟨hr, -⟩ | ⟨error, -, hfailed⟩
    · cases hr
    · exact absurd (hfailed.looked hlooked) (h.not_failed hA hbacked)
  rcases readStore_cases hwritten hread with ⟨-, held, hlanded⟩ | ⟨error, hr, -⟩
  · obtain ⟨hcurrent, haccount⟩ := h.landed_account hL hA hbacked (hlanded.looked hlooked)
    rw [takeDropped_on] at hrun
    obtain ⟨rfl, rfl⟩ := Prod.mk.inj hrun
    have hsound := hcurrent.sound.step hL hA (.collected addr)
    refine ⟨?_, hcurrent.kept rfl rfl rfl hsound hcurrent.written⟩
    unfold Account.apply
    dsimp only
    rw [← haccount]
    refine Prod.ext rfl ?_
    unfold World.account AccountCore.collected
    dsimp only
    rw [Function.update_self]
    rfl
  · cases hr

/-- What a call about the account does: nothing, where it is not let through, and otherwise what it
does to the account by itself. -/
inductive Edit.Does (C : Crates Addr) (addr : Addr) (edit : Edit) (w : World Addr) :
    Except (CoreError Addr) (CoreAnswer Addr) → World Addr → Prop
  | barred {e : CoreError Addr} {w' : World Addr}
      (hadmits : (edit.admits C addr).on w = (.error e, w'))
      (haccount : w'.account C addr = w.account C addr) : Does C addr edit w (.error e) w'
  | applied {w₁ w' : World Addr} {r : Except (CoreError Addr) (CoreAnswer Addr)}
      (hadmits : (edit.admits C addr).on w = (.ok (), w₁))
      (happly : (r, w'.account C addr) = (w.account C addr).apply C edit) : Does C addr edit w r w'

/-- Looking leaves the account. -/
theorem account_looked (hlooked : Looked w w') : w'.account C addr = w.account C addr := by
  unfold World.account
  rw [hlooked.store, hlooked.core]

/-- A call not let through is refused for it, and leaves things as they were. -/
theorem Edit.barred (hV : C.VaultLaws) {edit : Edit} {e : CoreError Addr}
    (hadmits : (edit.admits C addr).on w = (.error e, w')) :
    (edit.op addr).run C w = (.error e, w') ∧ Looked w w' := by
  unfold CoreOp.run Edit.op CoreOp.body
  cases edit with
  | refresh =>
    refine ⟨?_, requireKnown_looked hV hadmits⟩
    exact Action.on_bind_error.mpr (.inl (Action.on_bind_error.mpr (.inl hadmits)))
  | publish =>
    unfold Edit.admits at hadmits
    dsimp only
    rcases Action.on_bind_error.mp hadmits with hmanaged | ⟨u, w₁, hmanaged, hadmits⟩
    · exact ⟨Action.on_bind_error.mpr (.inl (Action.on_bind_error.mpr (.inl
        (Action.on_bind_error.mpr (.inl hmanaged))))), requireManaged_error hV hmanaged⟩
    have hlooked := (requireManaged_ok hV hmanaged).1
    rw [Action.on_look_bind] at hadmits
    split at hadmits
    · cases (Prod.mk.inj hadmits).1
    · next hstaged =>
      have hkey := Action.on_map_error (f := fun _ => ()) hadmits
      refine ⟨Action.on_bind_error.mpr (.inl (Action.on_bind_error.mpr (.inl
        (Action.on_bind_error.mpr (.inr ⟨u, w₁, hmanaged, ?_⟩))))),
        hlooked.trans (signingKey_looked hkey)⟩
      rw [Action.on_look_bind]
      exact Action.on_refuse_bind_error.mpr
        (.inr ⟨hstaged, Action.on_bind_error.mpr (.inl hkey)⟩)
  | _ =>
    refine ⟨?_, requireManaged_error hV hadmits⟩
    exact Action.on_bind_error.mpr (.inl (Action.on_bind_error.mpr (.inl hadmits)))

/-- Either way the account is left as it was, or as the edit makes it. -/
theorem Edit.Does.account {edit : Edit} {r : Except (CoreError Addr) (CoreAnswer Addr)}
    (h : edit.Does C addr w r w') : w'.account C addr = w.account C addr ∨
      w'.account C addr = ((w.account C addr).apply C edit).2 := by
  rcases h with ⟨-, haccount⟩ | ⟨-, happly⟩
  · exact .inl haccount
  · rw [← happly]
    exact .inr rfl

theorem Edit.Does.of_run (hV : C.VaultLaws) {edit : Edit}
    (h : ∀ {w₁}, (edit.admits C addr).on w = (.ok (), w₁) →
      (((edit.op addr).run C w).1, ((edit.op addr).run C w).2.account C addr) =
        (w.account C addr).apply C edit) :
    edit.Does C addr w ((edit.op addr).run C w).1 ((edit.op addr).run C w).2 := by
  rcases hadmits : (edit.admits C addr).on w with ⟨e | u, w₁⟩
  · obtain ⟨hrun, hlooked⟩ := Edit.barred hV hadmits
    rw [hrun]
    exact .barred hadmits (account_looked hlooked)
  · exact .applied hadmits (h hadmits)

/-- Whether or not the device is up to date, a read of the store and a publish do what they do to
the account by itself. -/
theorem Follows.asks (hV : C.VaultLaws) (hL : C.LogLaws) (hA : C.AccountLaws) (h : Follows C w)
    (hbacked : w.Backed) {edit : Edit} (hasks : edit = .refresh ∨ edit = .publish) :
    edit.Does C addr w ((edit.op addr).run C w).1 ((edit.op addr).run C w).2 := by
  refine .of_run hV fun {w₁} hadmits => ?_
  rcases hasks with rfl | rfl
  · rcases hrun : (Edit.refresh.op addr).run C w with ⟨r, w'⟩
    obtain ⟨r', hrefresh, rfl⟩ := Action.on_map_cases hrun
    exact (h.refresh hV hL hA hbacked hadmits hrefresh).1
  · rcases hrun : (Edit.publish.op addr).run C w with ⟨r, w'⟩
    obtain ⟨r', hpublish, rfl⟩ := Action.on_map_cases hrun
    exact (h.publish hV hL hA hbacked hadmits hpublish).1

/-- A call about the account, on a device up to date. -/
theorem Current.edit (hV : C.VaultLaws) (hL : C.LogLaws) (hA : C.AccountLaws)
    (h : Current C addr w) (edit : Edit) :
    edit.Does C addr w ((edit.op addr).run C w).1 ((edit.op addr).run C w).2 ∧
      Current C addr ((edit.op addr).run C w).2 := by
  rcases hadmits : (edit.admits C addr).on w with ⟨e | u, w₁⟩
  · obtain ⟨hrun, hlooked⟩ := Edit.barred hV hadmits
    rw [hrun]
    exact ⟨.barred hadmits (account_looked hlooked), (h.looked hlooked).1⟩
  rcases hrun : (edit.op addr).run C w with ⟨r, w'⟩
  -- Let through, each call has its own lemma.
  have hdoes : (r, w'.account C addr) = (w.account C addr).apply C edit ∧ Current C addr w' := by
    cases edit with
    | refresh =>
      obtain ⟨r', hrefresh, rfl⟩ := Action.on_map_cases hrun
      exact h.refresh hV hL hA h.backed hadmits hrefresh
    | publish =>
      obtain ⟨r', hpublish, rfl⟩ := Action.on_map_cases hrun
      obtain ⟨happly, hlooked | hcurrent⟩ := h.publish hV hL hA h.backed hadmits hpublish
      · exact ⟨happly, (h.looked hlooked).1⟩
      · exact ⟨happly, hcurrent⟩
    | stageAddInstallation keyHex =>
      obtain ⟨r', hstage, rfl⟩ := Action.on_map_cases (f := fun _ => CoreAnswer.done) hrun
      exact h.stageAddInstallation hL hA hV hadmits hstage
    | stageSetDisplayName name =>
      obtain ⟨r', hstage, rfl⟩ := Action.on_map_cases (f := fun _ => CoreAnswer.done) hrun
      exact h.stageSetDisplayName hL hA hV hadmits hstage
    | stageRevoke index =>
      obtain ⟨r', hstage, rfl⟩ := Action.on_map_cases (f := fun _ => CoreAnswer.done) hrun
      exact h.stageRevoke hL hA hV hadmits hstage
    | discardPending =>
      obtain ⟨r', hdiscard, rfl⟩ := Action.on_map_cases (f := fun _ => CoreAnswer.done) hrun
      exact h.discardPending hL hA hV hadmits hdiscard
  exact ⟨.applied hadmits hdoes.1, hdoes.2⟩

/-- What is left of the account is what the calls let through made of it. -/
theorem Current.edits (hV : C.VaultLaws) (hL : C.LogLaws) (hA : C.AccountLaws)
    (h : Current C addr w) (edits : List Edit) :
    (∀ p ∈ CoreOp.performs C (edits.map (·.op addr)) w,
      ∃ edit ∈ edits, p.op = edit.op addr ∧ edit.Does C addr p.before p.answer p.after) ∧
      ∃ through : List Edit, through.Sublist edits ∧
        (CoreOp.runs C (edits.map (·.op addr)) w).account C addr =
          through.foldl (fun a edit => (a.apply C edit).2) (w.account C addr) := by
  -- What `Current.edit` keeps is what the next call needs.
  induction edits generalizing w with
  | nil => exact ⟨by simp [CoreOp.performs], [], .refl _, rfl⟩
  | cons edit edits ih =>
    obtain ⟨hdoes, hcurrent⟩ := h.edit hV hL hA edit
    obtain ⟨hall, through, hsublist, hfold⟩ := ih hcurrent
    refine ⟨fun p hp => ?_, ?_⟩
    · rcases List.mem_cons.mp hp with rfl | hp
      · exact ⟨edit, List.mem_cons_self, rfl, hdoes⟩
      · obtain ⟨edit', hmem, hp⟩ := hall p hp
        exact ⟨edit', List.mem_cons_of_mem _ hmem, hp⟩
    · have hruns : CoreOp.runs C ((edit :: edits).map (·.op addr)) w =
          CoreOp.runs C (edits.map (·.op addr)) ((edit.op addr).run C w).2 := rfl
      rw [hruns, hfold]
      rcases hdoes.account with haccount | haccount
      · exact ⟨through, hsublist.cons edit, by rw [haccount]⟩
      · refine ⟨edit :: through, hsublist.cons_cons edit, ?_⟩
        rw [List.foldl_cons, haccount]

namespace Devices

variable {ι : Type} [DecidableEq ι] {start s : Devices ι Addr} {ps : List (Write ι Addr)}

/-- Any number of devices on one store in memory, in whatever state they got it and themselves into.
A device that has the store to itself then refreshes and publishes as if the account were its own to
edit; once it refreshed, every further call about the account goes as it goes on the account. -/
theorem alone_is_an_account (hV : C.VaultLaws) (hL : C.LogLaws) (hA : C.AccountLaws)
    (hstart : start.Fresh C) (h : Run C start ps s) (addr : Addr) (i : ι) :
    (∀ edit : Edit, edit = .refresh ∨ edit = .publish → edit.Does C addr (s.worldOf i)
      ((edit.op addr).run C (s.worldOf i)).1 ((edit.op addr).run C (s.worldOf i)).2) ∧
      ∀ n w, (Manager.refresh C addr).on (s.worldOf i) = (.ok n, w) → ∀ edits : List Edit,
        (∀ p ∈ CoreOp.performs C (edits.map (·.op addr)) w,
          ∃ edit ∈ edits, p.op = edit.op addr ∧ edit.Does C addr p.before p.answer p.after) ∧
          ∃ through : List Edit, through.Sublist edits ∧
            (CoreOp.runs C (edits.map (·.op addr)) w).account C addr =
              through.foldl (fun a edit => (a.apply C edit).2) (w.account C addr) := by
  have hfollows := (h.shared hV hL hA hstart.shared).1.follows i
  have hbacked := h.backed hV hL hA hstart i
  refine ⟨fun edit hasks => hfollows.asks hV hL hA hbacked hasks, fun n w hrefresh edits => ?_⟩
  have hcurrent : Current C addr w := by
    rcases hadmits : (Edit.refresh.admits C addr).on (s.worldOf i) with ⟨e | u, w₁⟩
    · have hrun := Action.on_map_error (f := CoreAnswer.refreshed) (Edit.barred hV hadmits).1
      rw [hrefresh] at hrun
      cases (Prod.mk.inj hrun).1
    · exact (hfollows.refresh hV hL hA hbacked hadmits hrefresh).2
  exact hcurrent.edits hV hL hA edits

/-- Two devices planned different names, and the store had moved on when the second wrote.  The
second publishes by itself then: its name goes on top of the first one, and a refresh has nothing to
drop. -/
theorem alone_is_an_account_retried : ∃ (q : Write Bool Reference.Addr) (w : World Reference.Addr),
    let addr : Reference.Addr := ⟨(Reference.someKey 1).bytes⟩
    let op := Edit.publish.op addr
    q.answer = .error (.account (.provider .diverged)) ∧
      (op.run Crates.reference (q.after.worldOf true)).1 = .ok (.published ⟨some 1, 0⟩) ∧
      Edit.publish.Does Crates.reference addr (q.after.worldOf true)
        (op.run Crates.reference (q.after.worldOf true)).1
        (op.run Crates.reference (q.after.worldOf true)).2 ∧
      (refresh Crates.reference addr).on (q.after.worldOf true) = (.ok 0, w) ∧
      ∃ through : List Edit, through.Sublist [.publish, .stageRevoke 0] ∧
        (CoreOp.runs Crates.reference [op, .stageRevoke addr 0] w).account Crates.reference addr =
          through.foldl (fun a edit => (a.apply Crates.reference edit).2)
            (w.account Crates.reference addr) := by
  let addr : Reference.Addr := ⟨(Reference.someKey 1).bytes⟩
  obtain ⟨p, q, hrun, -, hq⟩ := twoPlanned_writes "Saro" "Raya" (P := fun _ => True)
    (Q := fun _ q => q.answer = .error (.account (.provider .diverged)) ∧
      ((publish Crates.reference addr).on (q.after.worldOf true)).1 = .ok ⟨some 1, 0⟩ ∧
      ((refresh Crates.reference addr).on (q.after.worldOf true)).1.toOption = some 0)
    (by decide +kernel)
  obtain ⟨hdiverged, hpublish, hrefresh⟩ := hq
  have halone := alone_is_an_account Reference.vaultLaws Reference.logLaws Reference.accountLaws
    twoFresh_fresh hrun addr true
  have hpublished : ((Edit.publish.op addr).run Crates.reference (q.after.worldOf true)).1 =
      .ok (.published ⟨some 1, 0⟩) :=
    Action.on_map_fst (f := CoreAnswer.published) hpublish
  refine ⟨q, _, hdiverged, hpublished, halone.1 .publish (.inr rfl),
    Action.on_of_toOption hrefresh, ?_⟩
  exact (halone.2 _ _ (Action.on_of_toOption hrefresh) [.publish, .stageRevoke 0]).2

end Devices

end AccountLogUi
