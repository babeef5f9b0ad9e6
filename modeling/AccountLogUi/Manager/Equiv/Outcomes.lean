import AccountLogUi.Manager.Equiv.Publishing

/-!
# How an operation goes

`Outcome` lists the ways an operation can go, with what it answers and what it leaves in each, and
`CoreOp.outcome` says that there are no others.  Being refused is one way for all of them.  What is
to hold of every operation follows case by case from there, without looking into any of them again.
-/

namespace AccountLogUi

open Manager

variable {Addr : Type} {C : Crates Addr} {w w' : World Addr} {addr : Addr}

/-- The operation only looks, and does not ask the store. -/
def CoreOp.OnlyLooks : CoreOp Addr → Prop
  | exportAccount .. | accounts | state _ => True
  | _ => False

theorem CoreOp.OnlyLooks.ne_forgetAccount {op : CoreOp Addr} (h : op.OnlyLooks) (addr : Addr) :
    op ≠ .forgetAccount addr := by
  rintro rfl
  exact h

/-- The operation asks the store for an account's log. -/
def CoreOp.AsksStore : CoreOp Addr → Prop
  | .refresh _ | .publish _ => True
  | _ => False

variable [DecidableEq Addr]

/-- What an operation answered, and what it left. -/
inductive Outcome (C : Crates Addr) (w : World Addr) :
    CoreOp Addr → Except (CoreError Addr) (CoreAnswer Addr) → World Addr → Prop
  | refused {op : CoreOp Addr} {e : CoreError Addr} {w' : World Addr} (h : Refused C w w') :
      Outcome C w op (.error e) w'
  | looked {op : CoreOp Addr} {answer : CoreAnswer Addr} {w' : World Addr} (hop : op.OnlyLooks)
      (h : Looked w w') : Outcome C w op (.ok answer) w'
  | created {key : Ed25519SigningKey} {password : Option String} {seed : ℕ} {taken : Addr}
      {w' : World Addr} (h : (takeIn C key password seed).on w = (.ok taken, w')) :
      Outcome C w (.createAccount key password seed) (.ok (.taken taken)) w'
  /-- It answered, or the account was taken in before the observed list could not be changed. -/
  | imported {secretHex : String} {key : Ed25519SigningKey} {password : Option String} {seed : ℕ}
      {taken : Addr} {r : Except (CoreError Addr) (CoreAnswer Addr)} {w₁ w' : World Addr}
      (hkey : parseAccountKey secretHex = (.ok key : Except (CoreError Addr) _))
      (htake : (takeIn C key password seed).on w = (.ok taken, w₁))
      (hlisted : Listed C (.remove taken) w₁ w') :
      Outcome C w (.importAccount secretHex password seed) r w'
  | opened {addr : Addr} {key : Ed25519SigningKey} {password : String} {w' : World Addr}
      (hpresent : Vault.Present C w.disk.fs addr) (haddr : C.addrOf key = addr)
      (hopens : ∃ text synced,
        w.disk.fs.node (Vault.pathOf C addr true) = some (.file ⟨.text text, synced⟩) ∧
          C.decryptKey (.text text) password = .ok key.bytes.toList)
      (hcore : w'.core =
        { w.core with unlocked := Function.update w.core.unlocked addr (some key) })
      (hfs : w'.disk.fs = w.disk.fs) (hoffline : Offline w w') :
      Outcome C w (.unlock addr password) (.ok .done) w'
  | forgot {addr : Addr} {w' : World Addr} (hdropped : Vault.Dropped C addr w.disk.fs w'.disk.fs)
      (habsent : ¬Vault.Present C w'.disk.fs addr)
      (hobserved : w'.disk.fs.node Observed.observedFile = w.disk.fs.node Observed.observedFile)
      (hcore : w'.core = { w.core with
        unlocked := Function.update w.core.unlocked addr none
        staged := Function.update w.core.staged addr none
        read := Function.update w.core.read addr none
        dropped := Function.update w.core.dropped addr none })
      (hoffline : Offline w w') : Outcome C w (.forgetAccount addr) (.ok .done) w'
  | observed {addr : Addr} {fresh : Bool} {w' : World Addr} (h : Listed C (.add addr) w w') :
      Outcome C w (.observe addr) (.ok (.observed fresh)) w'
  | stopped {addr : Addr} {w₁ : World Addr} (h : Listed C (.remove addr) w w₁) :
      Outcome C w (.stopObserving addr) (.ok .done) { w₁ with core := { w₁.core with
        read := Function.update w₁.core.read addr none
        dropped := Function.update w₁.core.dropped addr none } }
  /-- Its read of the store failed. -/
  | unread {addr : Addr} {e : CoreError Addr} {error : AccountError} {w' : World Addr}
      (h : Failed C addr error w w') : Outcome C w (.refresh addr) (.error e) w'
  | refreshed {addr : Addr} {held : Option AccountRecord} {w₁ : World Addr}
      (h : Landed C addr held w w₁) :
      Outcome C w (.refresh addr) (.ok (.refreshed ((w₁.core.dropped addr).getD 0)))
        { w₁ with core := w₁.core.collected addr }
  | staged {op : CoreOp Addr} {addr : Addr} {staged : List StagedEdit} {w' : World Addr}
      (hop : op.Stages addr) (hpresent : Vault.Present C w.disk.fs addr)
      (hrestages : w.core.Restages C addr staged) (h : Staged C addr staged w w') :
      Outcome C w op (.ok .done) w'
  | discarded {addr : Addr} {w' : World Addr} (hpresent : Vault.Present C w.disk.fs addr)
      (hcore : w'.core = { w.core with staged := Function.update w.core.staged addr none })
      (hfs : w'.disk.fs = w.disk.fs) (hoffline : Offline w w') :
      Outcome C w (.discardPending addr) (.ok .done) w'
  /-- How a publish goes is told apart in `publish_outcome`. -/
  | published {addr : Addr} {r : Except (CoreError Addr) Published}
      {r' : Except (CoreError Addr) (CoreAnswer Addr)} {w' : World Addr}
      (hr : r' = r.map .published) (h : (publish C addr).on w = (r, w')) :
      Outcome C w (.publish addr) r' w'

namespace Manager

theorem requireManaged_present (hV : C.VaultLaws) {α : Type} {body : CoreM Addr α} {a : α}
    (h : (do requireManaged C addr; body : CoreM Addr α).on w = (.ok a, w')) :
    Vault.Present C w.disk.fs addr := by
  obtain ⟨u, w₁, hmanaged, -⟩ := Action.on_bind_ok.mp h
  exact (requireManaged_ok hV hmanaged).2.2

theorem accounts_looked {r : Except (CoreError Addr) (List AccountSummary)}
    (h : (accounts C).on w = (r, w')) : Looked w w' := by
  unfold accounts at h
  rcases Action.on_bind_cases h with ⟨e, hheld, -⟩ | ⟨held, w₁, hheld, h⟩
  · exact vault_looked Vault.accounts_readOnly hheld
  have hlooked := vault_looked Vault.accounts_readOnly hheld
  rcases Action.on_bind_cases h with ⟨e, hobs, -⟩ | ⟨obs, w₂, hobs, h⟩
  · exact hlooked.trans (observed_looked Observed.list_readOnly hobs)
  rw [Action.on_look_bind] at h
  obtain ⟨-, rfl⟩ := Prod.mk.inj h
  exact hlooked.trans (observed_looked Observed.list_readOnly hobs)

/-- Drawing an account only looks, and draws what the app holds of it. -/
theorem state_looked {r : Except (CoreError Addr) AccountState}
    (h : (state C addr).on w = (r, w')) :
    Looked w w' ∧ ∀ shown, r = .ok shown → ∃ held, shown = stateOf C w.core addr held := by
  unfold state at h
  rcases Action.on_bind_cases h with ⟨e, hheld, rfl⟩ | ⟨held, w₁, hheld, h⟩
  · exact ⟨vault_looked Vault.accounts_readOnly hheld, by simp⟩
  have hlooked := vault_looked Vault.accounts_readOnly hheld
  have hknown : ∀ {r' : Except (CoreError Addr) Bool} {w₂ : World Addr},
      (if (held.find? (·.addr = addr)).isSome then return true else observes C addr :
        CoreM Addr Bool).on w₁ = (r', w₂) → Looked w₁ w₂ := by
    intro r' w₂ h
    split at h
    · obtain ⟨-, rfl⟩ := Prod.mk.inj h
      exact Looked.refl w₁
    · exact observes_looked h
  rcases Action.on_bind_cases h with ⟨e, hobs, rfl⟩ | ⟨known, w₂, hobs, h⟩
  · exact ⟨hlooked.trans (hknown hobs), by simp⟩
  have hlooked' := hlooked.trans (hknown hobs)
  rcases Action.on_refuse_bind_cases h with ⟨-, hr, hw⟩ | ⟨-, h⟩
  · rw [hr, hw]
    exact ⟨hlooked', by simp⟩
  rw [Action.on_look_bind] at h
  obtain ⟨hr, hw⟩ := Prod.mk.inj h
  rw [← hr, ← hw]
  refine ⟨hlooked', fun shown hshown => ⟨held.find? (·.addr = addr), ?_⟩⟩
  rw [← Except.ok.inj hshown, ← hlooked'.core]

end Manager

/-- Every operation goes one of these ways. -/
theorem CoreOp.outcome (hV : C.VaultLaws) (hA : C.AccountLaws) (hwritten : w.core.written = none)
    {op : CoreOp Addr} {r : Except (CoreError Addr) (CoreAnswer Addr)}
    (hrun : op.run C w = (r, w')) : Outcome C w op r w' := by
  unfold CoreOp.run at hrun
  cases op with
  | createAccount generated password seed =>
    obtain ⟨r' | r', h, rfl⟩ := Action.on_map_cases hrun
    · exact .refused (takeIn_error hV h)
    · exact .created h
  | importAccount secretHex password seed =>
    obtain ⟨r', h, rfl⟩ := Action.on_map_cases hrun
    rcases importAccount_cases hV h with
      ⟨e, rfl, hrefused, -⟩ | ⟨key, taken, w₁, hkey, htake, -, hlisted, -⟩
    · exact .refused hrefused
    · exact .imported hkey htake hlisted
  | exportAccount addr password =>
    obtain ⟨r' | r', h, rfl⟩ := Action.on_map_cases hrun
    · exact .refused (exportAccount_error hV h).refused
    · exact .looked trivial (exportAccount_ok hV h).1
  | unlock addr password =>
    obtain ⟨r' | r', h, rfl⟩ := Action.on_map_cases (f := fun _ => CoreAnswer.done) hrun
    · exact .refused (unlock_error hV h).refused
    · obtain ⟨key, haddr, hopens, hcore, hfs, hoffline⟩ := unlock_ok hV h
      exact .opened (requireManaged_present hV h) haddr hopens hcore hfs hoffline
  | forgetAccount addr =>
    obtain ⟨r' | r', h, rfl⟩ := Action.on_map_cases (f := fun _ => CoreAnswer.done) hrun
    · exact .refused (forgetAccount_error hV h)
    · obtain ⟨hdropped, habsent, hobserved, hcore, hoffline⟩ := forgetAccount_ok hV h
      exact .forgot hdropped habsent hobserved hcore hoffline
  | observe addr =>
    obtain ⟨r' | r', h, rfl⟩ := Action.on_map_cases hrun
    · exact .refused (observe_error hV h)
    · exact .observed (observe_ok hV h)
  | stopObserving addr =>
    obtain ⟨r' | r', h, rfl⟩ := Action.on_map_cases (f := fun _ => CoreAnswer.done) hrun
    · exact .refused (stopObserving_error hV h)
    · obtain ⟨w₁, hlisted, rfl⟩ := stopObserving_ok hV h
      exact .stopped hlisted
  | refresh addr =>
    obtain ⟨r' | r', h, rfl⟩ := Action.on_map_cases hrun
    · rcases refresh_error hV hwritten h with hlooked | ⟨error, hfailed⟩
      · exact .refused hlooked.refused
      · exact .unread hfailed
    · obtain ⟨held, w₁, hlanded, rfl, rfl⟩ := refresh_ok hV hwritten h
      exact .refreshed hlanded
  | stageAddInstallation addr keyHex =>
    obtain ⟨r' | r', h, rfl⟩ := Action.on_map_cases (f := fun _ => CoreAnswer.done) hrun
    · exact .refused (stageAddInstallation_error hV hA h).1.refused
    · obtain ⟨key, -, hrestages, hstaged⟩ := stageAddInstallation_ok hV hA h
      exact .staged rfl (requireManaged_present hV h) hrestages hstaged
  | stageSetDisplayName addr name =>
    obtain ⟨r' | r', h, rfl⟩ := Action.on_map_cases (f := fun _ => CoreAnswer.done) hrun
    · exact .refused (stageSetDisplayName_error hV h).1.refused
    · obtain ⟨name', staged, -, -, hrestages, hstaged⟩ := stageSetDisplayName_ok hV h
      exact .staged rfl (requireManaged_present hV h) hrestages hstaged
  | stageRevoke addr index =>
    obtain ⟨r' | r', h, rfl⟩ := Action.on_map_cases (f := fun _ => CoreAnswer.done) hrun
    · exact .refused (stageRevoke_error hV h).1.refused
    · obtain ⟨hrestages, hstaged⟩ := stageRevoke_ok hV h
      exact .staged rfl (requireManaged_present hV h) hrestages hstaged
  | discardPending addr =>
    obtain ⟨r' | r', h, rfl⟩ := Action.on_map_cases (f := fun _ => CoreAnswer.done) hrun
    · exact .refused (discardPending_error hV h).refused
    · obtain ⟨hcore, hfs, hoffline⟩ := discardPending_ok hV h
      exact .discarded (requireManaged_present hV h) hcore hfs hoffline
  | publish addr =>
    obtain ⟨r', h, rfl⟩ := Action.on_map_cases hrun
    exact .published rfl h
  | accounts =>
    obtain ⟨r' | r', h, rfl⟩ := Action.on_map_cases hrun
    · exact .refused (accounts_looked h).refused
    · exact .looked trivial (accounts_looked h)
  | state addr =>
    obtain ⟨r' | r', h, rfl⟩ := Action.on_map_cases hrun
    · exact .refused (state_looked h).1.refused
    · exact .looked trivial (state_looked h).1

end AccountLogUi
