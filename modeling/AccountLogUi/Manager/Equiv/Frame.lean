import AccountLogUi.Manager.Equiv.Failure

/-!
# What an operation leaves of the other accounts

`CoreOp.Concerns` says which account an operation names.  What the app holds of any other account,
`SameAccount`, it leaves as it was (`CoreOp.frame`), whatever it answers.
-/

namespace AccountLogUi

open Manager

variable {Addr : Type}

/-- What the app holds of one account is what it held. -/
structure SameAccount (addr : Addr) (core core' : AccountCore Addr) : Prop where
  resolver : core'.resolver addr = core.resolver addr
  read : core'.read addr = core.read addr
  staged : core'.staged addr = core.staged addr
  dropped : core'.dropped addr = core.dropped addr
  unlocked : core'.unlocked addr = core.unlocked addr

theorem SameAccount.of_eq {addr : Addr} {core core' : AccountCore Addr} (h : core' = core) :
    SameAccount addr core core' := by
  rw [h]
  exact ⟨rfl, rfl, rfl, rfl, rfl⟩

theorem SameAccount.trans {addr : Addr} {core core' core'' : AccountCore Addr}
    (h : SameAccount addr core core') (h' : SameAccount addr core' core'') :
    SameAccount addr core core'' :=
  ⟨h'.resolver.trans h.resolver, h'.read.trans h.read, h'.staged.trans h.staged,
    h'.dropped.trans h.dropped, h'.unlocked.trans h.unlocked⟩

variable {C : Crates Addr} {w w' : World Addr} {addr addr' : Addr}

/-- The operation names the account. -/
def CoreOp.Concerns (C : Crates Addr) (addr : Addr) : CoreOp Addr → Prop
  | createAccount generated _ _ => C.addrOf generated = addr
  | importAccount secretHex _ _ =>
    ∃ key, parseAccountKey secretHex = (.ok key : Except (CoreError Addr) _) ∧ C.addrOf key = addr
  | exportAccount addr' _ | unlock addr' _ | forgetAccount addr' | observe addr'
  | stopObserving addr' | refresh addr' | stageAddInstallation addr' _
  | stageSetDisplayName addr' _ | stageRevoke addr' _ | discardPending addr' | publish addr'
  | state addr' => addr' = addr
  | accounts => False

theorem CoreOp.Stages.concerns {op : CoreOp Addr} (h : op.Stages addr') :
    op.Concerns C addr ↔ addr' = addr := by
  cases op with
  | stageAddInstallation | stageSetDisplayName | stageRevoke => exact h ▸ Iff.rfl
  | _ => exact h.elim

variable [DecidableEq Addr]

namespace Manager

theorem Read.sameAccount {core : AccountCore Addr} (h : Read C addr' w core) (hne : addr ≠ addr') :
    SameAccount addr w.core core := by
  obtain ⟨fetched, held, -, -, hresolver⟩ := h.resolver
  obtain ⟨hstaged, hdropped⟩ := h.others addr hne
  refine ⟨?_, ?_, hstaged, hdropped, by rw [h.unlocked]⟩
  · rw [hresolver, Function.update_of_ne hne]
  · rw [h.read, Function.update_of_ne hne]

theorem Landed.sameAccount {held : Option AccountRecord} (h : Landed C addr' held w w')
    (hne : addr ≠ addr') : SameAccount addr w.core w'.core :=
  h.read.sameAccount hne

theorem Failed.sameAccount {e : AccountError} (h : Failed C addr' e w w') (hne : addr ≠ addr') :
    SameAccount addr w.core w'.core := by
  rw [h.core]
  exact ⟨rfl, Function.update_of_ne hne .., rfl, rfl, rfl⟩

theorem collected_sameAccount (core : AccountCore Addr) (hne : addr ≠ addr') :
    SameAccount addr core (core.collected addr') :=
  ⟨rfl, rfl, rfl, Function.update_of_ne hne .., rfl⟩

theorem Staged.sameAccount {staged : List StagedEdit} (h : Staged C addr' staged w w')
    (hne : addr ≠ addr') : SameAccount addr w.core w'.core := by
  rw [h.core]
  exact ⟨rfl, rfl, Function.update_of_ne hne .., rfl, rfl⟩

theorem takeIn_sameAccount (hV : C.VaultLaws) {key : Ed25519SigningKey} {password : Option String}
    {seed : ℕ} {taken : Addr} (h : (takeIn C key password seed).on w = (.ok taken, w'))
    (hne : addr ≠ C.addrOf key) : SameAccount addr w.core w'.core := by
  obtain ⟨-, -, -, -, hcore⟩ := takeIn_ok hV h
  rw [hcore]
  split
  · exact ⟨rfl, rfl, rfl, rfl, Function.update_of_ne hne ..⟩
  · exact .of_eq rfl

theorem publish_sameAccount (hV : C.VaultLaws) (hwritten : w.core.written = none)
    {r : Except (CoreError Addr) Published} (h : (publish C addr').on w = (r, w'))
    (hne : addr ≠ addr') : SameAccount addr w.core w'.core := by
  cases publish_outcome hV hwritten h with
  | refused hoff hlooked => exact .of_eq hlooked.core
  | unread hadmitted hfailed => exact hfailed.sameAccount hne
  | nothing hadmitted hlanded =>
    exact (hlanded.sameAccount hne).trans (collected_sameAccount _ hne)
  | unfit hadmitted hlanded => exact hlanded.sameAccount hne
  | written hadmitted hlanded hkey hplan hwrite =>
    refine (hlanded.sameAccount hne).trans ?_
    rcases writeUpdate_cases hwrite with
      ⟨e, -, -, rfl⟩ | ⟨e, signed, -, -, -, rfl⟩ | ⟨signed, -, hread⟩
    · exact .of_eq rfl
    · exact .of_eq rfl
    · rcases hread with ⟨e, -, -, hcore⟩ | ⟨held, -, -, hcore⟩
      · rw [hcore]
        exact ⟨rfl, rfl, Function.update_of_ne hne .., rfl, rfl⟩
      · rw [hcore]
        exact ⟨Function.update_of_ne hne .., rfl, Function.update_of_ne hne ..,
          Function.update_of_ne hne .., rfl⟩

end Manager

/-- An operation leaves what the app holds of an account it does not name. -/
theorem CoreOp.frame (hV : C.VaultLaws) (hA : C.AccountLaws) (hwritten : w.core.written = none)
    {op : CoreOp Addr} (hop : ¬op.Concerns C addr)
    {r : Except (CoreError Addr) (CoreAnswer Addr)} (hrun : op.run C w = (r, w')) :
    SameAccount addr w.core w'.core := by
  cases CoreOp.outcome hV hA hwritten hrun with
  | refused h => exact .of_eq h.core
  | looked hlooks h => exact .of_eq h.core
  | created h => exact takeIn_sameAccount hV h (Ne.symm hop)
  | imported hkey htake hlisted =>
    rw [hlisted.core]
    exact takeIn_sameAccount hV htake fun haddr => hop ⟨_, hkey, haddr.symm⟩
  | opened hpresent haddr hopens hcore =>
    rw [hcore]
    exact ⟨rfl, rfl, rfl, rfl, Function.update_of_ne (Ne.symm hop) ..⟩
  | forgot hdropped habsent hobserved hcore =>
    have hne := Ne.symm hop
    rw [hcore]
    exact ⟨rfl, Function.update_of_ne hne .., Function.update_of_ne hne ..,
      Function.update_of_ne hne .., Function.update_of_ne hne ..⟩
  | observed h => exact .of_eq h.core
  | stopped h =>
    have hne := Ne.symm hop
    rw [← h.core]
    exact ⟨rfl, Function.update_of_ne hne .., rfl, Function.update_of_ne hne .., rfl⟩
  | unread h => exact h.sameAccount (Ne.symm hop)
  | refreshed h =>
    exact (h.sameAccount (Ne.symm hop)).trans (collected_sameAccount _ (Ne.symm hop))
  | staged hstages hpresent hrestages h =>
    exact h.sameAccount fun haddr => hop (hstages.concerns.mpr haddr.symm)
  | discarded hpresent hcore =>
    rw [hcore]
    exact ⟨rfl, rfl, Function.update_of_ne (Ne.symm hop) .., rfl, rfl⟩
  | published hr h => exact publish_sameAccount hV hwritten h (Ne.symm hop)

end AccountLogUi
