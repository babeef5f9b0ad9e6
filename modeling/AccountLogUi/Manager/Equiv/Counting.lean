import AccountLogUi.Manager.Equiv.Frame
import AccountLogUi.Manager.Equiv.Repeating
import AccountLogUi.Manager.Runs

/-!
# Every dropped edit is counted once

`Balanced` is what one operation does to the staged edits of an account and to the count of those
dropped, as two equations between numbers; `perform_balanced` says it of every operation, whatever
it answers.  Summed up over a run, by `Run.balanced`, they say that no drop is lost or told twice
from one forget of the account to the next.
-/

namespace AccountLogUi

open Manager

variable {Addr : Type} {C : Crates Addr} {w w' : World Addr} {addr : Addr}

/-- The operation does not concern the edits staged for the account. -/
def Unconcerned (addr : Addr) : CoreOp Addr → Prop
  | .forgetAccount addr' | .stopObserving addr' | .refresh addr' | .stageAddInstallation addr' _
  | .stageSetDisplayName addr' _ | .stageRevoke addr' _ | .discardPending addr'
  | .publish addr' => addr' ≠ addr
  | _ => True

theorem CoreOp.Stages.unconcerned {op : CoreOp Addr} {addr' : Addr} (h : op.Stages addr') :
    Unconcerned addr op ↔ addr' ≠ addr := by
  cases op with
  | stageAddInstallation | stageSetDisplayName | stageRevoke => exact h ▸ Iff.rfl
  | _ => exact h.elim

theorem CoreOp.OnlyLooks.unconcerned {op : CoreOp Addr} (h : op.OnlyLooks) :
    Unconcerned addr op := by
  cases op with
  | exportAccount | accounts | state => trivial
  | _ => exact h.elim

variable [DecidableEq Addr]

/-- What an operation did to the edits staged, and to the drops, adds up. -/
structure Balanced (C : Crates Addr) (addr : Addr) (p : Performed Addr) : Prop where
  staged : ¬p.Forgets addr → p.after.waiting addr + p.settled C addr + p.published C addr +
    p.discarded addr + p.replaced addr = p.before.waiting addr + p.added C addr
  dropped : ¬p.Forgets addr → ¬p.Stops addr →
    p.answered addr + p.after.uncounted addr = p.before.uncounted addr + p.settled C addr

/-! ### Operations that leave what is staged alone -/

theorem Balanced.quiet {op : CoreOp Addr} {r : Except (CoreError Addr) (CoreAnswer Addr)}
    (hop : Unconcerned addr op ∨ ∃ e, r = .error e)
    (hreads : (⟨op, w, r, w'⟩ : Performed Addr).reads addr = false)
    (hstaged : w'.core.staged addr = w.core.staged addr)
    (hdropped : w'.core.dropped addr = w.core.dropped addr) :
    Balanced C addr ⟨op, w, r, w'⟩ := by
  have hsettled : (⟨op, w, r, w'⟩ : Performed Addr).settled C addr = 0 := by
    unfold Performed.settled
    rw [hreads]
    rfl
  -- What an operation adds to a count it adds to that of its own account, where it answers.
  have hrest : (⟨op, w, r, w'⟩ : Performed Addr).answered addr = 0 ∧
      (⟨op, w, r, w'⟩ : Performed Addr).published C addr = 0 ∧
      (⟨op, w, r, w'⟩ : Performed Addr).discarded addr = 0 ∧
      (⟨op, w, r, w'⟩ : Performed Addr).replaced addr = 0 ∧
      (⟨op, w, r, w'⟩ : Performed Addr).added C addr = 0 := by
    unfold Performed.answered Performed.published Performed.discarded Performed.replaced
      Performed.added
    rcases r with e | answer
    · cases op <;> exact ⟨rfl, rfl, rfl, rfl, rfl⟩
    have hop' : Unconcerned addr op := hop.resolve_right (by simp)
    cases op with
    | publish addr' =>
      have hne : addr' ≠ addr := hop'
      cases answer with
      | published published => rcases published with ⟨- | first, dropped⟩ <;> simp [hne]
      | _ => simp
    | refresh addr' =>
      have hne : addr' ≠ addr := hop'
      cases answer <;> simp [hne]
    | stageAddInstallation addr' keyHex => simp [show addr' ≠ addr from hop']
    | stageSetDisplayName addr' name => simp [show addr' ≠ addr from hop']
    | stageRevoke addr' index => simp [show addr' ≠ addr from hop']
    | discardPending addr' => simp [show addr' ≠ addr from hop']
    | _ => exact ⟨rfl, rfl, rfl, rfl, rfl⟩
  obtain ⟨h₁, h₂, h₃, h₄, h₅⟩ := hrest
  constructor
  · intro _
    rw [hsettled, h₂, h₃, h₄, h₅]
    simp only [World.waiting, hstaged]
  · intro _ _
    rw [hsettled, h₁]
    simp only [World.uncounted, hdropped]
    omega

theorem not_reads {op : CoreOp Addr} {r : Except (CoreError Addr) (CoreAnswer Addr)}
    (h : w'.asked = w.asked) : (⟨op, w, r, w'⟩ : Performed Addr).reads addr = false := by
  simp [Performed.reads, h]

theorem not_reads_other {op : CoreOp Addr} {r : Except (CoreError Addr) (CoreAnswer Addr)}
    (h : Unconcerned addr op) : (⟨op, w, r, w'⟩ : Performed Addr).reads addr = false := by
  unfold Performed.reads
  cases op with
  | refresh addr' => simp [show addr' ≠ addr from h]
  | publish addr' => simp [show addr' ≠ addr from h]
  | _ => simp

/-- An operation that was refused. -/
theorem Balanced.refused {op : CoreOp Addr} {e : CoreError Addr} (hcore : w'.core = w.core)
    (hasked : w'.asked = w.asked) : Balanced C addr ⟨op, w, .error e, w'⟩ :=
  .quiet (.inr ⟨e, rfl⟩) (not_reads hasked) (by rw [hcore]) (by rw [hcore])

/-! ### Reading the store -/

/-- What is staged once the store was read, and what is counted then. -/
theorem Manager.Landed.waiting {held : Option AccountRecord} (h : Landed C addr held w w') :
    w'.waiting addr ≤ w.waiting addr ∧
      w'.uncounted addr + w'.waiting addr = w.uncounted addr + w.waiting addr := by
  refine ⟨?_, h.read.dropped⟩
  unfold World.waiting
  rw [h.read.staged]
  exact (leftToDo_sublist _ _).length_le

/-- A read of the store in the world before the operation is the read the operation made. -/
theorem Manager.Landed.readStore {held : Option AccountRecord} (hwritten : w.core.written = none)
    (h : Landed C addr held w w') : (w.readStore C addr).2.core = w'.core := by
  obtain ⟨fetched, hfetch, hresolve⟩ := h.resolved
  have hon : (Manager.readStore C addr).on w =
      ((w.readStore C addr).1.mapError .account, (w.readStore C addr).2) := rfl
  rw [(readStore_lands hwritten hfetch hresolve hon).2.core, h.core]

theorem Manager.Failed.readStore {e : AccountError} (hwritten : w.core.written = none)
    (h : Failed C addr e w w') : (w.readStore C addr).2.core.staged = w.core.staged := by
  have hon : (Manager.readStore C addr).on w =
      ((w.readStore C addr).1.mapError .account, (w.readStore C addr).2) := rfl
  rcases readStore_cases hwritten hon with ⟨-, held, hlanded⟩ | ⟨e', -, hfailed⟩
  · obtain ⟨fetched, hfetch, hresolve⟩ := hlanded.resolved
    exact absurd h (not_failed hfetch hresolve)
  · rw [hfailed.core]
    rfl

theorem Balanced.failed {op : CoreOp Addr} {e : CoreError Addr} {error : AccountError}
    {addr' : Addr} (hop : op = .refresh addr' ∨ op = .publish addr')
    (hwritten : w.core.written = none) (h : Failed C addr' error w w') :
    Balanced C addr ⟨op, w, .error e, w'⟩ := by
  have hsettled : (⟨op, w, .error e, w'⟩ : Performed Addr).settled C addr = 0 := by
    unfold Performed.settled
    split
    · next hreads =>
      obtain rfl : addr' = addr := by
        rcases hop with rfl | rfl
        · simpa [Performed.reads] using (Bool.and_eq_true_iff.mp hreads).1
        · simpa [Performed.reads] using (Bool.and_eq_true_iff.mp hreads).1
      unfold World.waiting
      rw [h.readStore hwritten]
      exact Nat.sub_self _
    · rfl
  have hwaiting : w'.waiting addr = w.waiting addr := by
    unfold World.waiting
    rw [h.core]
    rfl
  have huncounted : w'.uncounted addr = w.uncounted addr := by
    unfold World.uncounted
    rw [h.core]
    rfl
  constructor
  · intro _
    rw [hsettled]
    rcases hop with rfl | rfl <;> exact hwaiting
  · intro _ _
    rw [hsettled]
    rcases hop with rfl | rfl <;> exact (Nat.zero_add _).trans huncounted

theorem settled_of_landed {op : CoreOp Addr} {r : Except (CoreError Addr) (CoreAnswer Addr)}
    {held : Option AccountRecord} {w₁ : World Addr} (hop : op = .refresh addr ∨ op = .publish addr)
    (hwritten : w.core.written = none) (h : Landed C addr held w w₁)
    (hasked : ∃ more, w'.asked = more ++ w₁.asked) :
    (⟨op, w, r, w'⟩ : Performed Addr).settled C addr = w.waiting addr - w₁.waiting addr := by
  have hreads : (⟨op, w, r, w'⟩ : Performed Addr).reads addr = true := by
    obtain ⟨more, hasked⟩ := hasked
    have hne : w'.asked ≠ w.asked := by
      intro heq
      have hlength := congrArg List.length heq
      rw [hasked, h.asked, List.length_append, List.length_cons] at hlength
      omega
    unfold Performed.reads
    rcases hop with rfl | rfl <;> simp [hne]
  unfold Performed.settled
  rw [if_pos hreads]
  unfold World.waiting
  rw [h.readStore hwritten]

/-- An operation whose read landed, by what it did with what was left then. -/
theorem Balanced.landed {op : CoreOp Addr} {r : Except (CoreError Addr) (CoreAnswer Addr)}
    {held : Option AccountRecord} {w₁ : World Addr} (hop : op = .refresh addr ∨ op = .publish addr)
    (hwritten : w.core.written = none) (h : Landed C addr held w w₁)
    (hasked : ∃ more, w'.asked = more ++ w₁.asked)
    (hpublished : w'.waiting addr + (⟨op, w, r, w'⟩ : Performed Addr).published C addr =
      w₁.waiting addr)
    (hanswered : (⟨op, w, r, w'⟩ : Performed Addr).answered addr + w'.uncounted addr =
      w₁.uncounted addr) : Balanced C addr ⟨op, w, r, w'⟩ := by
  obtain ⟨hle, hcount⟩ := h.waiting
  have hsettled : (⟨op, w, r, w'⟩ : Performed Addr).settled C addr = _ :=
    settled_of_landed hop hwritten h hasked
  have hzero : (⟨op, w, r, w'⟩ : Performed Addr).discarded addr = 0 ∧
      (⟨op, w, r, w'⟩ : Performed Addr).replaced addr = 0 ∧
      (⟨op, w, r, w'⟩ : Performed Addr).added C addr = 0 := by
    rcases hop with rfl | rfl <;> exact ⟨rfl, rfl, rfl⟩
  obtain ⟨h₁, h₂, h₃⟩ := hzero
  constructor
  · intro _
    rw [hsettled, h₁, h₂, h₃]
    dsimp only
    omega
  · intro _ _
    rw [hsettled]
    dsimp only
    omega

theorem collected_uncounted (w : World Addr) (addr : Addr) :
    ({ w with core := w.core.collected addr } : World Addr).uncounted addr = 0 := by
  simp [World.uncounted, AccountCore.collected]

theorem Balanced.refreshed (hwritten : w.core.written = none) {held : Option AccountRecord}
    {w₁ : World Addr} (h : Landed C addr held w w₁) :
    Balanced C addr ⟨.refresh addr, w, .ok (.refreshed ((w₁.core.dropped addr).getD 0)),
      { w₁ with core := w₁.core.collected addr }⟩ := by
  refine .landed (.inl rfl) hwritten h ⟨[], rfl⟩ rfl ?_
  rw [collected_uncounted]
  exact if_pos rfl

theorem publish_balanced (hV : C.VaultLaws) (hL : C.LogLaws) (hA : C.AccountLaws)
    (hsound : Sound C w.core) (hwritten : w.core.written = none)
    {r : Except (CoreError Addr) Published} (h : (publish C addr).on w = (r, w')) :
    Balanced C addr ⟨.publish addr, w, r.map .published, w'⟩ := by
  cases publish_outcome hV hwritten h with
  | refused hoff hlooked => exact .refused hlooked.core hlooked.asked
  | unread hadmitted hfailed => exact .failed (.inr rfl) hwritten hfailed
  | nothing hadmitted hlanded =>
    refine .landed (.inr rfl) hwritten hlanded ⟨[], rfl⟩ rfl ?_
    rw [collected_uncounted]
    exact if_pos rfl
  | unfit hadmitted hlanded =>
    exact .landed (.inr rfl) hwritten hlanded ⟨[], rfl⟩ rfl (Nat.zero_add _)
  | @written key held update r w₁ w' hadmitted hlanded hkey hplan hwrite =>
    have hplanned := Planned.of_plan hV hL hA hsound hwritten hplan
    obtain ⟨signed, -, ⟨e, rfl, -, rfl⟩ | ⟨hwrote, rfl, hcore⟩⟩ :=
      hplanned.writes hL hA (hlanded.sound hL hA hsound) hwrite
    -- The store refused it: what was staged still is.
    · exact .landed (.inr rfl) hwritten hlanded ⟨[_], rfl⟩ rfl (Nat.zero_add _)
    · refine .landed (.inr rfl) hwritten hlanded ⟨[_], hwrote.asked⟩ ?_ ?_
      · have hpublished : (⟨.publish addr, w, Except.map .published (.ok ⟨some update.firstNew,
            (w₁.core.dropped addr).getD 0⟩), w'⟩ : Performed Addr).published C addr =
            (w.readStore C addr).2.waiting addr := if_pos rfl
        rw [hpublished]
        unfold World.waiting
        rw [hlanded.readStore hwritten, hcore]
        show ((Function.update w₁.core.staged addr none addr).getD []).length + _ = _
        rw [Function.update_self]
        exact Nat.zero_add _
      · have huncounted : w'.uncounted addr = 0 := by
          unfold World.uncounted
          rw [hcore]
          show (Function.update w₁.core.dropped addr none addr).getD 0 = 0
          rw [Function.update_self]
          rfl
        rw [huncounted]
        exact if_pos rfl

/-! ### Staging -/

/-- A staging that went through, by the length of the list it made. -/
theorem Balanced.staging {op : CoreOp Addr} {staged : List StagedEdit} (hop : op.Stages addr)
    (h : Staged C addr staged w w')
    (hlength : staged.length + (⟨op, w, .ok .done, w'⟩ : Performed Addr).replaced addr =
      w.waiting addr + (⟨op, w, .ok .done, w'⟩ : Performed Addr).added C addr) :
    Balanced C addr ⟨op, w, .ok .done, w'⟩ := by
  have hwaiting : w'.waiting addr = staged.length := by
    unfold World.waiting
    rw [h.core]
    show ((Function.update w.core.staged addr
      (if staged.isEmpty then none else some staged) addr).getD []).length = _
    rw [Function.update_self, getD_waiting]
  have huncounted : w'.uncounted addr = w.uncounted addr := by
    unfold World.uncounted
    rw [h.core]
  have hsettled : (⟨op, w, .ok .done, w'⟩ : Performed Addr).settled C addr = 0 := by
    unfold Performed.settled
    rw [not_reads h.offline.asked]
    rfl
  have hzero : (⟨op, w, .ok .done, w'⟩ : Performed Addr).answered addr = 0 ∧
      (⟨op, w, .ok .done, w'⟩ : Performed Addr).published C addr = 0 ∧
      (⟨op, w, .ok .done, w'⟩ : Performed Addr).discarded addr = 0 := by
    cases op with
    | stageAddInstallation addr' keyHex => exact ⟨rfl, rfl, rfl⟩
    | stageSetDisplayName addr' name => exact ⟨rfl, rfl, rfl⟩
    | stageRevoke addr' index => exact ⟨rfl, rfl, rfl⟩
    | _ => exact hop.elim
  obtain ⟨h₁, h₂, h₃⟩ := hzero
  constructor
  · intro _
    rw [hsettled, h₂, h₃]
    dsimp only
    omega
  · intro _ _
    rw [hsettled, h₁]
    dsimp only
    omega

theorem stageSetDisplayName_balanced (hV : C.VaultLaws) {name : String}
    (h : (stageSetDisplayName C addr name).on w = (.ok (), w')) :
    Balanced C addr ⟨.stageSetDisplayName addr name, w, .ok .done, w'⟩ := by
  obtain ⟨name', staged, hname, hcases, -, hstaged⟩ := stageSetDisplayName_ok hV h
  have hwithout : (withoutRename w.core addr).length +
      (((w.core.staged addr).getD []).filter isRename).length = w.waiting addr := by
    have hsplit := List.length_eq_length_filter_add (l := (w.core.staged addr).getD []) isRename
    unfold withoutRename World.waiting
    omega
  have hreplaced : (⟨.stageSetDisplayName addr name, w, .ok .done, w'⟩ :
      Performed Addr).replaced addr = (((w.core.staged addr).getD []).filter isRename).length :=
    if_pos rfl
  have hadded : (⟨.stageSetDisplayName addr name, w, .ok .done, w'⟩ :
      Performed Addr).added C addr = if w.core.liveName C addr ≠ some name' then 1 else 0 := by
    show (if addr = addr ∧ (displayName name : Except (CoreError Addr) _).toOption ≠
      w.core.liveName C addr then 1 else 0) = _
    rw [hname]
    show (if addr = addr ∧ some name' ≠ _ then 1 else 0) = _
    simp only [true_and, ne_comm]
  refine .staging rfl hstaged ?_
  rw [hreplaced, hadded]
  rcases hcases with ⟨hlive, rfl⟩ | ⟨hlive, rfl, -⟩
  · rw [if_pos hlive, List.length_append, List.length_singleton]
    omega
  · rw [if_neg (not_not.mpr hlive)]
    omega

theorem stageAddInstallation_balanced (hV : C.VaultLaws) (hA : C.AccountLaws) {keyHex : String}
    (h : (stageAddInstallation C addr keyHex).on w = (.ok (), w')) :
    Balanced C addr ⟨.stageAddInstallation addr keyHex, w, .ok .done, w'⟩ := by
  obtain ⟨key, -, -, hstaged⟩ := stageAddInstallation_ok hV hA h
  have hadded : (⟨.stageAddInstallation addr keyHex, w, .ok .done, w'⟩ :
      Performed Addr).added C addr = 1 := if_pos rfl
  refine .staging rfl hstaged ?_
  rw [hadded, List.length_append]
  rfl

theorem stageRevoke_balanced (hV : C.VaultLaws) {index : ℕ}
    (h : (stageRevoke C addr index).on w = (.ok (), w')) :
    Balanced C addr ⟨.stageRevoke addr index, w, .ok .done, w'⟩ := by
  have hstaged := (stageRevoke_ok hV h).2
  have hadded : (⟨.stageRevoke addr index, w, .ok .done, w'⟩ :
      Performed Addr).added C addr = 1 := if_pos rfl
  refine .staging rfl hstaged ?_
  rw [hadded, List.length_append]
  rfl

/-- A staging, whichever it was. -/
theorem staging_balanced (hV : C.VaultLaws) (hA : C.AccountLaws) {op : CoreOp Addr}
    (hop : op.Stages addr) (h : op.run C w = (.ok .done, w')) :
    Balanced C addr ⟨op, w, .ok .done, w'⟩ := by
  unfold CoreOp.run at h
  cases op with
  | stageAddInstallation addr' keyHex =>
    obtain rfl : addr' = addr := hop
    obtain ⟨u, h, -⟩ := Action.on_map_ok (f := fun _ => CoreAnswer.done) h
    exact stageAddInstallation_balanced hV hA h
  | stageSetDisplayName addr' name =>
    obtain rfl : addr' = addr := hop
    obtain ⟨u, h, -⟩ := Action.on_map_ok (f := fun _ => CoreAnswer.done) h
    exact stageSetDisplayName_balanced hV h
  | stageRevoke addr' index =>
    obtain rfl : addr' = addr := hop
    obtain ⟨u, h, -⟩ := Action.on_map_ok (f := fun _ => CoreAnswer.done) h
    exact stageRevoke_balanced hV h
  | _ => exact hop.elim

theorem Balanced.discarding (hoffline : Offline w w')
    (hcore : w'.core = { w.core with staged := Function.update w.core.staged addr none }) :
    Balanced C addr ⟨.discardPending addr, w, .ok .done, w'⟩ := by
  have hsettled :
      (⟨.discardPending addr, w, .ok .done, w'⟩ : Performed Addr).settled C addr = 0 := by
    unfold Performed.settled
    rw [not_reads hoffline.asked]
    rfl
  have hdiscarded : (⟨.discardPending addr, w, .ok .done, w'⟩ : Performed Addr).discarded addr =
      w.waiting addr := if_pos rfl
  have hwaiting : w'.waiting addr = 0 := by
    unfold World.waiting
    rw [hcore]
    show ((Function.update w.core.staged addr none addr).getD []).length = 0
    rw [Function.update_self]
    rfl
  constructor
  · intro _
    rw [hsettled, hdiscarded]
    show w'.waiting addr + 0 + 0 + w.waiting addr + 0 = w.waiting addr + 0
    omega
  · intro _ _
    rw [hsettled]
    unfold World.uncounted
    dsimp only
    rw [hcore]
    exact Nat.zero_add _

/-! ### Any operation -/

/-- An operation that does not concern what is staged for an account leaves that, and the drops. -/
theorem Unconcerned.same (hV : C.VaultLaws) (hA : C.AccountLaws)
    (hwritten : w.core.written = none) {op : CoreOp Addr} (hop : Unconcerned addr op)
    {r : Except (CoreError Addr) (CoreAnswer Addr)}
    (hrun : op.run C w = (r, w')) :
    w'.core.staged addr = w.core.staged addr ∧ w'.core.dropped addr = w.core.dropped addr := by
  have hother : ¬op.Concerns C addr →
      w'.core.staged addr = w.core.staged addr ∧ w'.core.dropped addr = w.core.dropped addr := by
    intro hconcerns
    have hsame := CoreOp.frame hV hA hwritten hconcerns hrun
    exact ⟨hsame.staged, hsame.dropped⟩
  have htaken : ∀ {key password seed taken w₁},
      (takeIn C key password seed).on w = (.ok taken, w₁) →
      w'.core = w₁.core →
      w'.core.staged addr = w.core.staged addr ∧ w'.core.dropped addr = w.core.dropped addr := by
    intro key password seed taken w₁ htake hcore
    obtain ⟨-, -, -, -, hcore₁⟩ := takeIn_ok hV htake
    rw [hcore, hcore₁]
    split <;> exact ⟨rfl, rfl⟩
  have hkept : w'.core = w.core →
      w'.core.staged addr = w.core.staged addr ∧ w'.core.dropped addr = w.core.dropped addr := by
    intro hcore
    rw [hcore]
    exact ⟨rfl, rfl⟩
  cases CoreOp.outcome hV hA hwritten hrun with
  | refused h => exact hkept h.core
  | looked hlooks h => exact hkept h.core
  | created h => exact htaken h rfl
  | imported hkey htake hlisted => exact htaken htake hlisted.core
  | opened hpresent haddr hopens hcore =>
    rw [hcore]
    exact ⟨rfl, rfl⟩
  | observed h => exact hkept h.core
  | staged hstages =>
    exact hother fun hconcerns => hstages.unconcerned.mp hop (hstages.concerns.mp hconcerns)
  | forgot | stopped | unread | refreshed | discarded | published => exact hother hop

/-- Every operation balances, whatever it answers. -/
theorem perform_balanced (hV : C.VaultLaws) (hL : C.LogLaws) (hA : C.AccountLaws)
    (h : Reachable C w) (addr : Addr) (op : CoreOp Addr) : Balanced C addr (op.perform C w) := by
  have hsound := h.sound hV hL hA
  have hwritten := h.written_eq hV hA
  unfold CoreOp.perform
  generalize hrun : op.run C w = ran
  obtain ⟨r, w'⟩ := ran
  by_cases hop : Unconcerned addr op
  · obtain ⟨hstaged, hdropped⟩ := hop.same hV hA hwritten hrun
    exact .quiet (.inl hop) (not_reads_other hop) hstaged hdropped
  cases CoreOp.outcome hV hA hwritten hrun with
  | refused h => exact .refused h.core h.offline.asked
  | looked hlooks => exact absurd hlooks.unconcerned hop
  | created | imported | opened | observed => exact absurd trivial hop
  | forgot =>
    obtain rfl := not_not.mp hop
    exact ⟨fun hforgets => absurd ⟨rfl, .done, rfl⟩ hforgets,
      fun hforgets => absurd ⟨rfl, .done, rfl⟩ hforgets⟩
  | @stopped addr' w₁ h =>
    obtain rfl := not_not.mp hop
    refine ⟨fun _ => ?_, fun _ hstops => absurd ⟨rfl, .done, rfl⟩ hstops⟩
    -- What is staged stays; only the drops go, and so does their count.
    show w₁.waiting addr' + 0 + 0 + 0 + 0 = w.waiting addr' + 0
    unfold World.waiting
    rw [h.core]
  | unread h => exact .failed (.inl rfl) hwritten h
  | refreshed h =>
    obtain rfl := not_not.mp hop
    exact .refreshed hwritten h
  | staged hstages hpresent hrestages h =>
    obtain rfl := not_not.mp fun hne => hop (hstages.unconcerned.mpr hne)
    exact staging_balanced hV hA hstages hrun
  | discarded hpresent hcore hfs hoffline =>
    obtain rfl := not_not.mp hop
    exact .discarding hoffline hcore
  | published hr h =>
    obtain rfl := not_not.mp hop
    exact hr ▸ publish_balanced hV hL hA hsound hwritten h

/-! ### Runs -/

variable {start : World Addr} {ps : List (Performed Addr)}

theorem Run.reachable (hstart : Reachable C start) (h : Run C start ps w) : Reachable C w := by
  induction h with
  | nil => exact hstart
  | elsewhere _ hcore ih => exact .elsewhere ih hcore
  | op op _ ih => exact .op op ih

/-- Every operation of a run was performed where some run had come to. -/
theorem Run.performed (hstart : Reachable C start) (h : Run C start ps w) {p : Performed Addr}
    (hp : p ∈ ps) :
    ∃ (w₁ : World Addr) (op : CoreOp Addr), Reachable C w₁ ∧ p = op.perform C w₁ := by
  induction h with
  | nil => cases hp
  | elsewhere _ _ ih => exact ih hp
  | @op ps w op hrun ih =>
    rcases List.mem_append.mp hp with hp | hp
    · exact ih hp
    · exact ⟨w, op, hrun.reachable hstart, List.mem_singleton.mp hp⟩

/-- Over a run in which the account is not forgotten, what was staged adds up. -/
theorem Run.staged_adds_up (hV : C.VaultLaws) (hL : C.LogLaws) (hA : C.AccountLaws)
    (hstart : Reachable C start) (h : Run C start ps w) (hforgets : ∀ p ∈ ps, ¬p.Forgets addr) :
    w.waiting addr + total ps (·.settled C addr) + total ps (·.published C addr) +
        total ps (·.discarded addr) + total ps (·.replaced addr) =
      start.waiting addr + total ps (·.added C addr) := by
  induction h with
  | nil => simp
  | elsewhere h hcore ih =>
    have hsame := ih hforgets
    unfold World.waiting at hsame ⊢
    rwa [hcore]
  | op op h ih =>
    have hbefore := ih fun p hp => hforgets p (List.mem_append_left _ hp)
    have hafter := (perform_balanced hV hL hA (h.reachable hstart) addr op).staged
      (hforgets _ (List.mem_append_right _ (List.mem_singleton_self _)))
    simp only [total_append, total_singleton]
    unfold CoreOp.perform at hafter ⊢
    dsimp only at hafter
    omega

/-- Over a run in which the account is neither forgotten nor stopped being observed, every drop is
counted once. -/
theorem Run.drops_add_up (hV : C.VaultLaws) (hL : C.LogLaws) (hA : C.AccountLaws)
    (hstart : Reachable C start) (h : Run C start ps w)
    (hforgets : ∀ p ∈ ps, ¬p.Forgets addr ∧ ¬p.Stops addr) :
    total ps (·.answered addr) + w.uncounted addr =
      start.uncounted addr + total ps (·.settled C addr) := by
  induction h with
  | nil => simp
  | elsewhere h hcore ih =>
    have hsame := ih hforgets
    unfold World.uncounted at hsame ⊢
    rwa [hcore]
  | op op h ih =>
    have hbefore := ih fun p hp => hforgets p (List.mem_append_left _ hp)
    obtain ⟨hforgets, hstops⟩ :=
      hforgets _ (List.mem_append_right _ (List.mem_singleton_self _))
    have hafter :=
      (perform_balanced hV hL hA (h.reachable hstart) addr op).dropped hforgets hstops
    simp only [total_append, total_singleton]
    unfold CoreOp.perform at hafter ⊢
    dsimp only at hafter
    omega

theorem Since.reachable {ops : List (CoreOp Addr)} (h : Since C ops start ps) :
    Reachable C start := by
  rcases h.begins with hnew | ⟨op, -, w, hreachable, -, rfl⟩
  · exact .fresh hnew
  · exact .op op hreachable

/-- An account just forgotten has nothing staged, and no drops. -/
theorem forgotten_empty (hV : C.VaultLaws)
    (h : ((CoreOp.forgetAccount addr).perform C w).Answered) :
    ((CoreOp.forgetAccount addr).perform C w).after.waiting addr = 0 ∧
      ((CoreOp.forgetAccount addr).perform C w).after.uncounted addr = 0 := by
  obtain ⟨answer, hanswer⟩ := h
  have hrun : (CoreOp.forgetAccount addr).run C w =
      (.ok answer, ((CoreOp.forgetAccount addr).run C w).2) :=
    Prod.ext hanswer rfl
  obtain ⟨u, h, -⟩ := Action.on_map_ok (f := fun _ => CoreAnswer.done) hrun
  obtain ⟨-, -, -, hcore, -⟩ := forgetAccount_ok hV h
  have hcore' : ((CoreOp.forgetAccount addr).perform C w).after.core = _ := hcore
  unfold World.waiting World.uncounted
  rw [hcore']
  dsimp only
  rw [Function.update_self, Function.update_self]
  exact ⟨rfl, rfl⟩

theorem stopped_empty (hV : C.VaultLaws) (h : ((CoreOp.stopObserving addr).perform C w).Answered) :
    ((CoreOp.stopObserving addr).perform C w).after.uncounted addr = 0 := by
  obtain ⟨answer, hanswer⟩ := h
  have hrun : (CoreOp.stopObserving addr).run C w =
      (.ok answer, ((CoreOp.stopObserving addr).run C w).2) :=
    Prod.ext hanswer rfl
  obtain ⟨u, h, -⟩ := Action.on_map_ok (f := fun _ => CoreAnswer.done) hrun
  obtain ⟨w₁, -, hw⟩ := stopObserving_ok hV h
  have hw' : ((CoreOp.stopObserving addr).perform C w).after = _ := hw
  unfold World.uncounted
  rw [hw']
  dsimp only
  rw [Function.update_self]
  rfl

/-- A publish that found every edit held already counts them, and leaves nothing staged. -/
theorem publish_nothing_left (hV : C.VaultLaws) (hL : C.LogLaws) (hA : C.AccountLaws)
    (hsound : Sound C w.core) (hwritten : w.core.written = none) {n : ℕ}
    (h : (publish C addr).on w = (.ok ⟨none, n⟩, w')) :
    1 ≤ n ∧ w'.core.staged addr = none := by
  generalize hr : Except.ok (⟨none, n⟩ : Published) = r at h
  cases publish_outcome hV hwritten h with
  | refused | unread | unfit => cases hr
  | @nothing key held w₁ hadmitted hlanded hnone =>
    have hn : n = w₁.uncounted addr := (Published.mk.inj (Except.ok.inj hr)).2
    have hcount := hlanded.waiting.2
    have hbefore : 0 < w.waiting addr := List.length_pos_iff.mpr hadmitted.staged
    have hafter : w₁.waiting addr = 0 := by
      unfold World.waiting
      rw [hnone]
      rfl
    exact ⟨by omega, hnone⟩
  | written hadmitted hlanded hkey hplan hwrite =>
    subst hr
    obtain ⟨signed, -, ⟨e, hr, -⟩ | ⟨-, hr, -⟩⟩ :=
      (Planned.of_plan hV hL hA hsound hwritten hplan).writes hL hA
        (hlanded.sound hL hA hsound) hwrite
    · cases hr
    · cases (Published.mk.inj (Except.ok.inj hr)).1

/-- Since the account was last forgotten, what is staged for it is what was staged and neither
settled, published, discarded nor replaced; since it was last forgotten or stopped being observed,
the drops answered and the one still held are those settled; and a publish that wrote nothing
answers with at least one drop, and leaves nothing staged. -/
theorem dropped_edits_are_counted_once (hV : C.VaultLaws) (hL : C.LogLaws) (hA : C.AccountLaws)
    (h : Run C start ps w) (addr : Addr) :
    (Since C [.forgetAccount addr] start ps →
        w.waiting addr + total ps (·.settled C addr) + total ps (·.published C addr) +
          total ps (·.discarded addr) + total ps (·.replaced addr) = total ps (·.added C addr)) ∧
      (Since C [.forgetAccount addr, .stopObserving addr] start ps →
        total ps (·.answered addr) + w.uncounted addr = total ps (·.settled C addr)) ∧
      (Reachable C start → ∀ p ∈ ps, ∀ n, p.op = .publish addr →
        p.answer = .ok (.published ⟨none, n⟩) → 1 ≤ n ∧ p.after.core.staged addr = none) := by
  refine ⟨fun hsince => ?_, fun hsince => ?_, fun hstart p hp n hop hanswer => ?_⟩
  · have hzero : start.waiting addr = 0 := by
      rcases hsince.begins with hnew | ⟨op, hop, w₀, -, hanswered, rfl⟩
      · unfold World.waiting
        rw [hnew]
        rfl
      · obtain rfl := List.mem_singleton.mp hop
        exact (forgotten_empty hV hanswered).1
    have hsum := h.staged_adds_up hV hL hA hsince.reachable fun p hp hforgets =>
      hsince.none p hp (hforgets.1 ▸ List.mem_singleton_self _) hforgets.2
    omega
  · have hzero : start.uncounted addr = 0 := by
      rcases hsince.begins with hnew | ⟨op, hop, w₀, -, hanswered, rfl⟩
      · unfold World.uncounted
        rw [hnew]
        rfl
      · rcases List.mem_pair.mp hop with rfl | rfl
        · exact (forgotten_empty hV hanswered).2
        · exact stopped_empty hV hanswered
    have hneither : ∀ p ∈ ps, ¬p.Forgets addr ∧ ¬p.Stops addr := fun p hp =>
      ⟨fun hforgets => hsince.none p hp (by simp [hforgets.1]) hforgets.2,
        fun hstops => hsince.none p hp (by simp [hstops.1]) hstops.2⟩
    have hsum := h.drops_add_up hV hL hA hsince.reachable hneither
    omega
  · obtain ⟨w₁, op, hreachable, rfl⟩ := h.performed hstart hp
    obtain rfl : op = .publish addr := hop
    have hrun : (CoreOp.publish addr).run C w₁ =
        (.ok (.published ⟨none, n⟩), ((CoreOp.publish addr).run C w₁).2) := Prod.ext hanswer rfl
    obtain ⟨published, hpublish, hpublished⟩ := Action.on_map_ok hrun
    obtain rfl := CoreAnswer.published.inj hpublished
    exact publish_nothing_left hV hL hA (hreachable.sound hV hL hA)
      (hreachable.written_eq hV hA) hpublish

/-! ### A drop that is never told -/

theorem Run.performs (h : Run C start ps w) (ops : List (CoreOp Addr)) :
    Run C start (ps ++ CoreOp.performs C ops w) (CoreOp.runs C ops w) := by
  induction ops generalizing ps w with
  | nil =>
    rw [CoreOp.performs, List.append_nil]
    exact h
  | cons op ops ih =>
    have hrest := ih (.op op h)
    rw [List.append_assoc] at hrest
    exact hrest

theorem run_performs (ops : List (CoreOp Addr)) (w : World Addr) :
    Run C w (CoreOp.performs C ops w) (CoreOp.runs C ops w) := by
  have h := (Run.nil : Run C w [] w).performs ops
  rwa [List.nil_append] at h

/-- An observed account is imported, but the list of those observed cannot be read then, and keeps
it; the service reads back a log with its name, and answers no write. -/
def alsoObserved : World Reference.Addr :=
  { World.start [] with
    disk := ⟨.empty, List.replicate 24 none ++ [some ⟨5, none⟩]⟩
    store := .chat ⟨[], [⟨.ok (some namedSaro), .ok (), false⟩,
      ⟨.ok none, .error (.transport "timed out"), false⟩]⟩ }

/-- Its name and a key are staged; the publish that drops the name fails, and then the account is
no longer observed. -/
def stoppedUncounted : List (CoreOp Reference.Addr) :=
  [.observe ⟨(Reference.someKey 1).bytes⟩,
    .importAccount (String.ofList (Hex.encode (Reference.someKey 1).bytes.toList)) none 0,
    .stageSetDisplayName ⟨(Reference.someKey 1).bytes⟩ "Saro",
    .stageAddInstallation ⟨(Reference.someKey 1).bytes⟩
      (String.ofList (Hex.encode (Reference.someKey 2).bytes.toList)),
    .publish ⟨(Reference.someKey 1).bytes⟩,
    .stopObserving ⟨(Reference.someKey 1).bytes⟩]

/-- That run is one since a fresh start, in which nothing is forgotten. -/
theorem stoppedUncounted_since : Since Crates.reference
    [.forgetAccount ⟨(Reference.someKey 1).bytes⟩] alsoObserved
    (CoreOp.performs Crates.reference stoppedUncounted alsoObserved) where
  begins := .inl rfl
  none := by
    intro p hp hop
    have hops : (CoreOp.performs Crates.reference stoppedUncounted alsoObserved).map (·.op) =
        stoppedUncounted := rfl
    have hmem : p.op ∈ stoppedUncounted := hops ▸ List.mem_map_of_mem hp
    rw [List.mem_singleton.mp hop] at hmem
    simp [stoppedUncounted] at hmem

/-- A drop was settled which no answer counted, and no count is held of. -/
theorem dropped_edits_not_counted_when_stopped :
    ∃ (start w : World Reference.Addr) (ps : List (Performed Reference.Addr))
      (addr : Reference.Addr), Run Crates.reference start ps w ∧
        Since Crates.reference [.forgetAccount addr] start ps ∧
        total ps (·.answered addr) + w.uncounted addr = 0 ∧
        total ps (·.settled Crates.reference addr) = 1 := by
  refine ⟨alsoObserved, CoreOp.runs Crates.reference stoppedUncounted alsoObserved,
    CoreOp.performs Crates.reference stoppedUncounted alsoObserved,
    ⟨(Reference.someKey 1).bytes⟩, run_performs _ _, stoppedUncounted_since, ?_, ?_⟩
  · decide +kernel
  · decide +kernel

/-- One edit is staged in that run but for its end, and one dropped, whose count is held. -/
theorem dropped_edits_are_counted_once_held :
    let ps := CoreOp.performs Crates.reference (stoppedUncounted.take 5) alsoObserved
    let w := CoreOp.runs Crates.reference (stoppedUncounted.take 5) alsoObserved
    (w.waiting ⟨(Reference.someKey 1).bytes⟩ + total ps (·.settled Crates.reference
        ⟨(Reference.someKey 1).bytes⟩) + total ps (·.published Crates.reference
        ⟨(Reference.someKey 1).bytes⟩) + total ps (·.discarded ⟨(Reference.someKey 1).bytes⟩) +
        total ps (·.replaced ⟨(Reference.someKey 1).bytes⟩) =
      total ps (·.added Crates.reference ⟨(Reference.someKey 1).bytes⟩)) ∧
    total ps (·.answered ⟨(Reference.someKey 1).bytes⟩) +
        w.uncounted ⟨(Reference.someKey 1).bytes⟩ =
      total ps (·.settled Crates.reference ⟨(Reference.someKey 1).bytes⟩) ∧
    w.waiting ⟨(Reference.someKey 1).bytes⟩ = 1 ∧
      w.uncounted ⟨(Reference.someKey 1).bytes⟩ = 1 := by
  intro ps w
  have hrun : Run Crates.reference alsoObserved ps w := run_performs _ _
  have hsince : ∀ ops, (∀ op ∈ ops, op ∉ stoppedUncounted.take 5) →
      Since Crates.reference ops alsoObserved ps := by
    intro ops hops
    refine ⟨.inl rfl, fun p hp hop => ?_⟩
    have hnames : ps.map (·.op) = stoppedUncounted.take 5 := rfl
    have hmem : p.op ∈ stoppedUncounted.take 5 := hnames ▸ List.mem_map_of_mem hp
    exact absurd hmem (hops _ hop)
  obtain ⟨hwaiting, hcounted, -⟩ := dropped_edits_are_counted_once Reference.vaultLaws
    Reference.logLaws Reference.accountLaws hrun ⟨(Reference.someKey 1).bytes⟩
  refine ⟨hwaiting (hsince _ ?_), hcounted (hsince _ ?_), ?_, ?_⟩
  · simp [stoppedUncounted]
  · simp [stoppedUncounted]
  · decide +kernel
  · decide +kernel

end AccountLogUi
