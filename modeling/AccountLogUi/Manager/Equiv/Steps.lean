import AccountLogUi.Manager.Equiv.Outcomes

/-!
# What a run does to the app's own state

`CoreOp.steps` sums up the operations: whatever an operation answers, it took the app's own state
through a number of the changes `AccountCore.Step` lists.  An invariant that each change keeps
holds, by `Reachable.induction`, in every world a run comes to.
-/

namespace AccountLogUi

open Manager

variable {Addr : Type} [DecidableEq Addr] {C : Crates Addr} {w w' : World Addr} {addr : Addr}

namespace AccountCore

/-- No change leaves a log in the hand-over slot. -/
theorem Step.written_eq {core core' : AccountCore Addr} (h : Step C core core') :
    core'.written = core.written := by
  cases h with
  | landed now h =>
    unfold settle
    split
    · rfl
    split
    · rfl
    split <;> rfl
  | _ => rfl

theorem Steps.written_eq {core core' : AccountCore Addr} (h : Steps C core core') :
    core'.written = core.written := by
  induction h with
  | refl => rfl
  | tail _ hstep ih => exact hstep.written_eq.trans ih

theorem Steps.of_core_eq {core core' : AccountCore Addr} (h : core' = core) :
    Steps C core core' := h ▸ .refl

end AccountCore

open AccountCore (Step Steps)

namespace Manager

theorem takeIn_steps (hV : C.VaultLaws) {key : Ed25519SigningKey} {password : Option String}
    {seed : ℕ} {r : Except (CoreError Addr) Addr}
    (h : (takeIn C key password seed).on w = (r, w')) : Steps C w.core w'.core := by
  rcases r with e | taken
  · exact .of_core_eq (takeIn_error hV h).core
  · obtain ⟨-, -, -, -, hcore⟩ := takeIn_ok hV h
    rw [hcore]
    split
    · exact .single (.unlocked _ rfl)
    · exact .refl

theorem Landed.steps {held : Option AccountRecord} (h : Landed C addr held w w') :
    Steps C w.core w'.core := by
  obtain ⟨fetched, -, hresolve⟩ := h.resolved
  rw [h.core]
  exact .single (.landed w.now hresolve)

theorem Failed.steps {e : AccountError} (h : Failed C addr e w w') : Steps C w.core w'.core := by
  rw [h.core]
  exact .single (.failed addr e)

theorem Staged.steps {staged : List StagedEdit} (h : Staged C addr staged w w')
    (hrestages : w.core.Restages C addr staged) : Steps C w.core w'.core := by
  rw [h.core]
  exact .single (.restaged addr h.fits hrestages)

theorem planUpdate_steps (hV : C.VaultLaws) (hwritten : w.core.written = none)
    {r : Except (CoreError Addr) (Published ⊕ Update)}
    (h : (planUpdate C addr).on w = (r, w')) : Steps C w.core w'.core := by
  cases planUpdate_outcome hV hwritten h with
  | refused hoff hlooked => exact .of_core_eq hlooked.core
  | unread hadmitted hfailed => exact hfailed.steps
  | nothing hadmitted hlanded => exact hlanded.steps.tail (.collected addr)
  | unfit hadmitted hlanded => exact hlanded.steps
  | planned hadmitted hlanded => exact hlanded.steps

theorem writeUpdate_steps (hwritten : w.core.written = none) {update : Update}
    {r : Except (CoreError Addr) Published}
    (h : (writeUpdate C addr update).on w = (r, w')) : Steps C w.core w'.core := by
  rcases writeUpdate_cases h with ⟨e, -, -, rfl⟩ | ⟨e, signed, -, -, -, rfl⟩ | ⟨signed, -, hread⟩
  · exact .refl
  · exact .refl
  · rcases hread with ⟨e, -, -, hcore⟩ | ⟨held, hresolve, -, hcore⟩
    · rw [hcore, ← hwritten]
      exact .single (.discarded addr)
    · rw [hcore, ← hwritten]
      exact (Relation.ReflTransGen.single (Step.published hresolve)).tail (.collected addr)

theorem publish_steps (hV : C.VaultLaws) (hwritten : w.core.written = none)
    {r : Except (CoreError Addr) Published} (h : (publish C addr).on w = (r, w')) :
    Steps C w.core w'.core := by
  cases publish_outcome hV hwritten h with
  | refused hoff hlooked => exact .of_core_eq hlooked.core
  | unread hadmitted hfailed => exact hfailed.steps
  | nothing hadmitted hlanded => exact hlanded.steps.tail (.collected addr)
  | unfit hadmitted hlanded => exact hlanded.steps
  | written hadmitted hlanded hkey hplan hwrite =>
    have hsteps := hlanded.steps
    exact hsteps.trans (writeUpdate_steps (hsteps.written_eq.trans hwritten) hwrite)

end Manager

/-- What an operation did to the app's own state, whatever it answered. -/
theorem CoreOp.steps (hV : C.VaultLaws) (hA : C.AccountLaws) (hwritten : w.core.written = none)
    (op : CoreOp Addr) : Steps C w.core (op.run C w).2.core := by
  generalize hrun : op.run C w = ran
  obtain ⟨r, w'⟩ := ran
  show Steps C w.core w'.core
  cases CoreOp.outcome hV hA hwritten hrun with
  | refused h => exact .of_core_eq h.core
  | looked hop h => exact .of_core_eq h.core
  | created h => exact takeIn_steps hV h
  | imported hkey htake hlisted => exact hlisted.core ▸ takeIn_steps hV htake
  | opened hpresent haddr hopens hcore => exact hcore ▸ .single (.unlocked _ haddr)
  | forgot hdropped habsent hobserved hcore => exact hcore ▸ .single (.forgot _)
  | observed h => exact .of_core_eq h.core
  | stopped h => exact h.core ▸ .single (.stopped _)
  | unread h => exact h.steps
  | refreshed h => exact h.steps.tail (.collected _)
  | staged hop hpresent hrestages h => exact h.steps hrestages
  | discarded hpresent hcore => exact hcore ▸ .single (.discarded _)
  | published hr h => exact publish_steps hV hwritten h

theorem Reachable.runs (h : Reachable C w) (ops : List (CoreOp Addr)) :
    Reachable C (CoreOp.runs C ops w) := by
  induction ops generalizing w with
  | nil => exact h
  | cons op ops ih => exact ih (.op op h)

/-- Nothing waits in the hand-over slot between operations. -/
theorem Reachable.written_eq (hV : C.VaultLaws) (hA : C.AccountLaws) (h : Reachable C w) :
    w.core.written = none := by
  induction h with
  | fresh h =>
    rw [h]
    rfl
  | elsewhere _ hcore ih => rw [hcore, ih]
  | op op _ ih => exact (CoreOp.steps hV hA ih op).written_eq.trans ih

/-- What every change keeps holds of the app's own state in every world a run comes to. -/
theorem Reachable.induction (hV : C.VaultLaws) (hA : C.AccountLaws) {P : AccountCore Addr → Prop}
    (hnew : P .new) (hstep : ∀ core core', P core → Step C core core' → P core')
    (h : Reachable C w) : P w.core := by
  induction h with
  | fresh h => rwa [h]
  | elsewhere _ hcore ih => rwa [hcore]
  | op op h ih =>
    have hsteps := CoreOp.steps hV hA (h.written_eq hV hA) op
    generalize (op.run C _).2.core = core' at hsteps ⊢
    induction hsteps with
    | refl => exact ih
    | tail _ hs ih' => exact hstep _ _ ih' hs

end AccountLogUi
