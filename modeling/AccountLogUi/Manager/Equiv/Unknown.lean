import AccountLogUi.Manager.Equiv.Data
import AccountLogUi.Manager.Equiv.Showing

/-!
# An account the app does not have

`Gone` is an account neither held nor observed.  Every call that names one, but those that take it
in, is refused (`CoreOp.unknown`): as unknown, where no call to the filesystem fails.  The refusal
leaves the account as it was.
-/

namespace AccountLogUi

open Manager Vault Observed

variable {Addr : Type} {C : Crates Addr} {w w' : World Addr} {addr : Addr}

/-- How an action ends that finds the account gone: it fails, for not knowing the account where no
call to the filesystem does, and leaves what it found. -/
def Manager.Misses (C : Crates Addr) {α : Type} (x : CoreM Addr α) (w : World Addr) : Prop :=
  ∃ e w', x.on w = (.error e, w') ∧ Refused C w w' ∧ (w.disk.faults = [] → e = .unknown)

theorem Manager.Misses.bind {α β : Type} {x : CoreM Addr α} {f : α → CoreM Addr β}
    (h : Misses C x w) :
    Misses C (x >>= f) w := by
  obtain ⟨e, w', hx, hrefused, he⟩ := h
  exact ⟨e, w', Action.on_bind_error.mpr (.inl hx), hrefused, he⟩

variable [DecidableEq Addr]

/-- The operation takes an account in. -/
def CoreOp.TakesIn : CoreOp Addr → Prop
  | .createAccount .. | .importAccount .. | .observe _ => True
  | _ => False

/-- The app's data can be read, and has the account in neither group. -/
structure Gone (C : Crates Addr) (addr : Addr) (fs : Fs) : Prop where
  sane : Sane C fs
  absent : ¬Present C fs addr
  unlisted : ∀ listed, Lists C fs listed → addr ∉ listed

theorem Gone.of_same {fs fs' : Fs} (h : Gone C addr fs) (hsame : SameData C fs fs') :
    Gone C addr fs' := by
  have hstep : DataStep C .accounts fs fs' := .same hsame
  refine ⟨hstep.sane h.sane, fun hpresent => h.absent (hsame.files.present.mp hpresent), ?_⟩
  intro listed hlists
  exact h.unlisted listed (hlists.congr hsame.observed.symm)

/-! ### Who may do what -/

namespace Manager

theorem manages_gone (hV : C.VaultLaws) (h : Gone C addr w.disk.fs) (hfaults : w.disk.faults = []) :
    (manages C addr).on w = (.ok false, w) := by
  obtain ⟨core, ⟨fs, faults⟩, store, now, asked⟩ := w
  obtain rfl : faults = [] := hfaults
  obtain ⟨held, hheld, -, -, hfiles⟩ := accounts_alone hV h.sane.single 0
  have hnone : held.any (·.addr = addr) = false := by
    rw [List.any_eq_false]
    intro account haccount heq
    have haddr : account.addr = addr := of_decide_eq_true heq
    exact h.absent ⟨account.protected_, haddr ▸ (hfiles account).mp haccount⟩
  unfold manages
  rw [Action.on_bind, vault_on]
  dsimp only
  rw [Disk.run_alone, hheld]
  dsimp only [Except.mapError]
  rw [hnone]
  rfl

theorem observes_gone (h : Gone C addr w.disk.fs) (hfaults : w.disk.faults = []) :
    (observes C addr).on w = (.ok false, w) := by
  obtain ⟨core, ⟨fs, faults⟩, store, now, asked⟩ := w
  obtain rfl : faults = [] := hfaults
  obtain ⟨listed, hlists⟩ := h.sane.listed
  have hnone : listed.contains addr = false := by
    rw [List.contains_eq_mem, decide_eq_false_iff_not]
    exact h.unlisted listed hlists
  unfold observes
  rw [Action.on_bind, observed_on]
  dsimp only
  rw [Disk.run_alone, list_alone hlists]
  dsimp only [Except.mapError]
  rw [hnone]
  rfl

/-- An account said to be observed is on the list. -/
theorem observes_ok {b : Bool} (h : (observes C addr).on w = (.ok b, w')) :
    ∃ listed, Lists C w.disk.fs listed ∧ (b = true ↔ addr ∈ listed) := by
  unfold observes at h
  obtain ⟨listed, w₁, hlisted, h⟩ := Action.on_bind_ok.mp h
  obtain ⟨rfl, -⟩ : listed.contains addr = b ∧ w₁ = w' := by simpa using h
  exact ⟨listed, list_run (by rw [(observed_ok hlisted).1]), List.contains_iff_mem⟩

theorem requireManaged_misses (hV : C.VaultLaws) (h : Gone C addr w.disk.fs) :
    Misses C (requireManaged C addr) w := by
  rcases hrun : (requireManaged C addr).on w with ⟨e | u, w'⟩
  · refine ⟨e, w', hrun, (requireManaged_error hV hrun).refused, fun hfaults => ?_⟩
    unfold requireManaged at hrun
    rw [Action.on_bind, manages_gone hV h hfaults] at hrun
    dsimp only at hrun
    rw [if_neg (by simp), Action.on_bind, observes_gone h hfaults] at hrun
    exact (Except.error.inj (Prod.mk.inj hrun).1).symm
  · exact absurd (requireManaged_ok hV hrun).2.2 h.absent

theorem requireKnown_misses (hV : C.VaultLaws) (h : Gone C addr w.disk.fs) :
    Misses C (requireKnown C addr) w := by
  rcases hrun : (requireKnown C addr).on w with ⟨e | u, w'⟩
  · refine ⟨e, w', hrun, (requireKnown_looked hV hrun).refused, fun hfaults => ?_⟩
    unfold requireKnown at hrun
    rw [Action.on_bind, manages_gone hV h hfaults] at hrun
    dsimp only at hrun
    rw [if_neg (by simp), Action.on_bind, observes_gone h hfaults] at hrun
    exact (Except.error.inj (Prod.mk.inj hrun).1).symm
  · unfold requireKnown at hrun
    obtain ⟨managed, w₁, hmanages, hrun⟩ := Action.on_bind_ok.mp hrun
    obtain ⟨hlooked, -, hpresent⟩ := manages_ok hV hmanages
    rcases managed with _ | _
    · rw [if_neg (by simp)] at hrun
      obtain ⟨observed, w₂, hobserves, hrun⟩ := Action.on_bind_ok.mp hrun
      obtain ⟨listed, hlists, hmem⟩ := observes_ok hobserves
      rw [hlooked.fs] at hlists
      have hyes : observed = true := by simpa using (Action.on_refuse_ok.mp hrun).1
      exact absurd (hmem.mp hyes) (h.unlisted listed hlists)
    · exact absurd (hpresent.mp rfl) h.absent

theorem state_misses (hV : C.VaultLaws) (h : Gone C addr w.disk.fs) :
    Misses C (state C addr) w := by
  rcases hrun : (state C addr).on w with ⟨e | shown, w'⟩
  · refine ⟨e, w', hrun, (state_looked hrun).1.refused, fun hfaults => ?_⟩
    obtain ⟨core, ⟨fs, faults⟩, store, now, asked⟩ := w
    obtain rfl : faults = [] := hfaults
    obtain ⟨held, hheld, -, -, hfiles⟩ := accounts_alone hV h.sane.single 0
    have hnone : (held.find? (·.addr = addr)).isSome = false := by
      rw [List.isSome_find?, List.any_eq_false]
      intro account haccount heq
      have haddr : account.addr = addr := of_decide_eq_true heq
      exact h.absent ⟨account.protected_, haddr ▸ (hfiles account).mp haccount⟩
    unfold state at hrun
    rw [Action.on_bind, vault_on] at hrun
    dsimp only at hrun
    rw [Disk.run_alone, hheld] at hrun
    dsimp only [Except.mapError] at hrun
    rw [Action.on_bind, if_neg (by rw [hnone]; simp), observes_gone h rfl] at hrun
    exact (Except.error.inj (Prod.mk.inj hrun).1).symm
  · obtain ⟨held, -, hdrawn, hobserved, -⟩ := state_ok hV hrun
    rcases held with - | account
    · obtain ⟨listed, hlists, hmem⟩ := hobserved rfl
      exact absurd hmem (h.unlisted listed hlists)
    · obtain ⟨haddr, hfile⟩ := hdrawn.some account rfl
      exact absurd ⟨_, hfile⟩ h.absent

theorem stopObserving_misses (hV : C.VaultLaws) (h : Gone C addr w.disk.fs) :
    Misses C (stopObserving C addr) w := by
  rcases hrun : (stopObserving C addr).on w with ⟨e | u, w'⟩
  · refine ⟨e, w', hrun, stopObserving_error hV hrun, fun hfaults => ?_⟩
    obtain ⟨core, ⟨fs, faults⟩, store, now, asked⟩ := w
    obtain rfl : faults = [] := hfaults
    obtain ⟨listed, hlists⟩ := h.sane.listed
    have hkept : listed.filter (· ≠ addr) = listed := by
      rw [List.filter_eq_self]
      rintro other hother
      rw [decide_eq_true_iff]
      rintro rfl
      exact h.unlisted listed hlists hother
    have hremove : (Observed.remove C addr).alone 0 fs = (.ok false, fs) := by
      unfold Observed.remove
      rw [FsM.alone_bind, list_alone hlists]
      dsimp only
      rw [if_pos (by rw [hkept])]
      rfl
    unfold stopObserving at hrun
    rw [Action.on_bind, observed_on] at hrun
    dsimp only at hrun
    rw [Disk.run_alone, hremove] at hrun
    exact (Except.error.inj (Prod.mk.inj hrun).1).symm
  · unfold stopObserving at hrun
    obtain ⟨removed, w₁, hremove, hrun⟩ := Action.on_bind_ok.mp hrun
    obtain ⟨u', w₂, hrefuse, -⟩ := Action.on_bind_ok.mp hrun
    have hyes : removed = true := by simpa using (Action.on_refuse_ok.mp hrefuse).1
    have hran : (w.disk.run (Change.body C (.remove addr)).run).1 = .ok removed :=
      congrArg Prod.fst (observed_ok hremove).1
    obtain ⟨before, -, hbefore, -, hneeded, -⟩ := lists_changed hV hran
    have hmem : before.contains addr = true := hneeded.symm.trans hyes
    exact absurd (List.contains_iff_mem.mp hmem) (h.unlisted before hbefore)

end Manager

/-- Whatever names an account that is gone is refused, unless it takes the account in. -/
theorem CoreOp.unknown (hV : C.VaultLaws) (h : Gone C addr w.disk.fs) {op : CoreOp Addr}
    (hop : op.Concerns C addr) (htakes : ¬op.TakesIn) : Misses C (op.body C) w := by
  cases op with
  | createAccount | importAccount | observe => exact absurd trivial htakes
  | accounts => exact hop.elim
  | exportAccount addr' password =>
    obtain rfl : addr' = addr := hop
    exact (requireManaged_misses hV h).bind.bind
  | unlock addr' password =>
    obtain rfl : addr' = addr := hop
    exact (requireManaged_misses hV h).bind.bind
  | forgetAccount addr' =>
    obtain rfl : addr' = addr := hop
    exact (requireManaged_misses hV h).bind.bind
  | stopObserving addr' =>
    obtain rfl : addr' = addr := hop
    exact (stopObserving_misses hV h).bind
  | refresh addr' =>
    obtain rfl : addr' = addr := hop
    exact (requireKnown_misses hV h).bind.bind
  | stageAddInstallation addr' keyHex =>
    obtain rfl : addr' = addr := hop
    exact (requireManaged_misses hV h).bind.bind
  | stageSetDisplayName addr' name =>
    obtain rfl : addr' = addr := hop
    exact (requireManaged_misses hV h).bind.bind
  | stageRevoke addr' index =>
    obtain rfl : addr' = addr := hop
    exact (requireManaged_misses hV h).bind.bind
  | discardPending addr' =>
    obtain rfl : addr' = addr := hop
    exact (requireManaged_misses hV h).bind.bind
  | publish addr' =>
    obtain rfl : addr' = addr := hop
    exact (requireManaged_misses hV h).bind.bind.bind
  | state addr' =>
    obtain rfl : addr' = addr := hop
    exact (state_misses hV h).bind

end AccountLogUi
