import AccountLogUi.Manager.Equiv.Data
import AccountLogUi.Manager.Equiv.Showing
import AccountLogUi.Reference.Equiv.Laws
import AccountLogUi.Vault.Equiv.Open

/-!
# The list of accounts and the screen agree

`Alone` is a run of one app that alone writes to its directory.  Edits are staged, and keys
unlocked, of the accounts it holds only (`Alone.homed`), which is why the list may show an observed
account with nothing pending and no lock; `listing_agrees_with_state` draws both from the same
worlds.
-/

namespace AccountLogUi

open Manager Vault

variable {Addr : Type} {C : Crates Addr} {w w' : World Addr} {addr : Addr}

/-! ### Only accounts held have anything staged or unlocked -/

/-- Nothing is staged for an account that is not held, and no key of it is unlocked. -/
def Homed (C : Crates Addr) (w : World Addr) : Prop :=
  ∀ addr, ¬Present C w.disk.fs addr → w.core.staged addr = none ∧ w.core.unlocked addr = none

/-- The same, of one account. -/
def HomedAt (C : Crates Addr) (w : World Addr) (addr : Addr) : Prop :=
  ¬Present C w.disk.fs addr → w.core.staged addr = none ∧ w.core.unlocked addr = none

theorem HomedAt.of_same {other : Addr} (h : HomedAt C w other)
    (hstaged : w'.core.staged = w.core.staged) (hunlocked : w'.core.unlocked = w.core.unlocked)
    (hfiles : SameFiles C w.disk.fs w'.disk.fs) : HomedAt C w' other := by
  intro habsent
  rw [hstaged, hunlocked]
  exact h fun hpresent => habsent (hfiles.present.mpr hpresent)

theorem Manager.Refused.homed {other : Addr} (hrefused : Refused C w w') (h : HomedAt C w other) :
    HomedAt C w' other :=
  h.of_same (by rw [hrefused.core]) (by rw [hrefused.core]) hrefused.data.files

/-- An operation on an account that is held, and stays so. -/
theorem HomedAt.of_present {other : Addr} (h : HomedAt C w other)
    (hpresent : Present C w.disk.fs addr) (hfs : w'.disk.fs = w.disk.fs)
    (hother : addr ≠ other → SameAccount other w.core w'.core) : HomedAt C w' other := by
  intro habsent
  rw [hfs] at habsent
  have hne : addr ≠ other := by
    rintro rfl
    exact habsent hpresent
  obtain ⟨hstaged, hunlocked⟩ := h habsent
  exact ⟨(hother hne).staged.trans hstaged, (hother hne).unlocked.trans hunlocked⟩

/-! ### Operations -/

variable [DecidableEq Addr]

/-- The worlds a run of one app comes to where no one else writes to its directory. -/
inductive Alone (C : Crates Addr) : World Addr → Prop
  | fresh {w : World Addr} (hcore : w.core = .new) (hsane : Sane C w.disk.fs) : Alone C w
  | elsewhere {w w' : World Addr} (h : Alone C w) (hcore : w'.core = w.core)
      (hfs : w'.disk.fs = w.disk.fs) : Alone C w'
  | op {w : World Addr} (op : CoreOp Addr) (h : Alone C w) : Alone C (op.run C w).2

theorem Alone.reachable (h : Alone C w) : Reachable C w := by
  induction h with
  | fresh hcore _ => exact .fresh hcore
  | elsewhere _ hcore _ ih => exact .elsewhere ih hcore
  | op op _ ih => exact .op op ih

theorem Alone.sane (hV : C.VaultLaws) (hA : C.AccountLaws) (h : Alone C w) :
    Sane C w.disk.fs := by
  induction h with
  | fresh _ hsane => exact hsane
  | elsewhere _ _ hfs ih => rwa [hfs]
  | op op h ih => exact (CoreOp.data hV hA (h.reachable.written_eq hV hA) rfl).sane ih

theorem takeIn_homed (hV : C.VaultLaws) {key : Ed25519SigningKey} {password : Option String}
    {seed : ℕ} {taken : Addr} (h : HomedAt C w addr)
    (htake : (takeIn C key password seed).on w = (.ok taken, w')) : HomedAt C w' addr := by
  obtain ⟨-, hstored, -, -, hcore⟩ := takeIn_ok hV htake
  intro habsent
  have hne : addr ≠ C.addrOf key := by
    rintro rfl
    exact habsent ⟨password.isSome, by rw [hstored.file]; rfl⟩
  have hbefore : ¬Present C w.disk.fs addr := by
    rintro ⟨p, hp⟩
    refine habsent ⟨p, ?_⟩
    rwa [hstored.other addr p fun hsame => hne hsame.1]
  obtain ⟨hstaged, hunlocked⟩ := h hbefore
  rw [hcore]
  split
  · exact ⟨hstaged, (Function.update_of_ne hne ..).trans hunlocked⟩
  · exact ⟨hstaged, hunlocked⟩

/-- A read of the store stages nothing. -/
theorem Manager.Read.homed {core : AccountCore Addr} {other : Addr} (hread : Read C addr w core)
    (hnonempty : core.staged addr ≠ some []) (h : HomedAt C w other) {w' : World Addr}
    (hcore : w'.core.staged = core.staged ∧ w'.core.unlocked = core.unlocked)
    (hfs : w'.disk.fs = w.disk.fs) : HomedAt C w' other := by
  intro habsent
  rw [hfs] at habsent
  obtain ⟨hstaged, hunlocked⟩ := h habsent
  rw [hcore.1, hcore.2, hread.unlocked]
  refine ⟨?_, hunlocked⟩
  by_cases hne : other = addr
  · have hleft := hread.staged
    rw [← hne, hstaged, Option.getD_none, leftToDo_nil] at hleft
    rw [← hne] at hnonempty
    cases hcase : core.staged other with
    | none => rfl
    | some staged =>
      rw [hcase] at hleft hnonempty
      exact absurd (congrArg some hleft) hnonempty
  · exact (hread.others other hne).1.trans hstaged

theorem publish_managed (hV : C.VaultLaws) (hwritten : w.core.written = none)
    {r : Except (CoreError Addr) Published} (h : (publish C addr).on w = (r, w')) :
    Looked w w' ∨ Present C w.disk.fs addr := by
  cases publish_outcome hV hwritten h with
  | refused hoff hlooked => exact .inl hlooked
  | unread hadmitted | nothing hadmitted | unfit hadmitted | written hadmitted =>
    exact .inr hadmitted.present

theorem HomedAt.listed {change : Observed.Change Addr} (h : HomedAt C w addr)
    (hlisted : Listed C change w w') : HomedAt C w' addr :=
  h.of_same (by rw [hlisted.core]) (by rw [hlisted.core]) hlisted.files

theorem HomedAt.forgotten {other : Addr} (h : HomedAt C w other)
    (hdropped : Dropped C addr w.disk.fs w'.disk.fs)
    (hcore : w'.core.staged addr = none ∧ w'.core.unlocked addr = none)
    (hframe : addr ≠ other → SameAccount other w.core w'.core) : HomedAt C w' other := by
  intro habsent
  by_cases hne : other = addr
  · exact hne ▸ hcore
  · have hbefore : ¬Present C w.disk.fs other := by
      rintro ⟨p, hp⟩
      exact habsent ⟨p, by rwa [hdropped.other other p hne]⟩
    obtain ⟨hstaged, hunlocked⟩ := h hbefore
    have hsame := hframe (Ne.symm hne)
    exact ⟨hsame.staged.trans hstaged, hsame.unlocked.trans hunlocked⟩

/-- An operation stages nothing, and unlocks nothing, of an account that is not held after it. -/
theorem CoreOp.homed (hV : C.VaultLaws) (hL : C.LogLaws) (hA : C.AccountLaws)
    (hreachable : Reachable C w) {other : Addr} (h : HomedAt C w other) (op : CoreOp Addr) :
    HomedAt C (op.run C w).2 other := by
  have hsound := hreachable.sound hV hL hA
  have hwritten := hreachable.written_eq hV hA
  have hsound' := (Reachable.op op hreachable).sound hV hL hA
  generalize hrun : op.run C w = ran at hsound' ⊢
  obtain ⟨r, w'⟩ := ran
  have hframe : ¬op.Concerns C other → SameAccount other w.core w'.core :=
    fun hop => CoreOp.frame hV hA hwritten hop hrun
  cases CoreOp.outcome hV hA hwritten hrun with
  | refused hrefused => exact hrefused.homed h
  | looked hlooks hlooked => exact hlooked.refused.homed h
  | created htake => exact takeIn_homed hV h htake
  | imported hkey htake hlisted => exact (takeIn_homed hV h htake).listed hlisted
  -- The account named is held, so what is kept for it is at home there.
  | opened hpresent haddr hopens hcore hfs => exact h.of_present hpresent hfs hframe
  | staged hstages hpresent hrestages hstaged =>
    exact h.of_present hpresent hstaged.fs fun hne => hframe (mt hstages.concerns.mp hne)
  | discarded hpresent hcore hfs => exact h.of_present hpresent hfs hframe
  | published hr hpublish =>
    rcases publish_managed hV hwritten hpublish with hlooked | hpresent
    · exact hlooked.refused.homed h
    · exact h.of_present hpresent (publish_fs hV hwritten hpublish) hframe
  | forgot hdropped habsent hobserved hcore =>
    refine h.forgotten hdropped ?_ hframe
    rw [hcore]
    exact ⟨Function.update_self .., Function.update_self ..⟩
  | observed hlisted => exact h.listed hlisted
  | stopped hlisted => exact (h.listed hlisted).of_same rfl rfl fun _ _ => rfl
  | unread hfailed =>
    refine h.of_same ?_ ?_ (SameData.of_eq hfailed.fs).files <;>
      rw [hfailed.core] <;> rfl
  | refreshed hlanded =>
    exact hlanded.read.homed (hsound'.nonempty _) h ⟨rfl, rfl⟩ hlanded.fs

theorem Alone.homed (hV : C.VaultLaws) (hL : C.LogLaws) (hA : C.AccountLaws) (h : Alone C w) :
    Homed C w := by
  induction h with
  | fresh hcore _ =>
    intro addr _
    rw [hcore]
    exact ⟨rfl, rfl⟩
  | elsewhere _ hcore hfs ih =>
    exact fun addr => HomedAt.of_same (ih addr) (by rw [hcore]) (by rw [hcore])
      (SameData.of_eq hfs).files
  | op op h ih => exact fun addr => CoreOp.homed hV hL hA h.reachable (ih addr) op

/-! ### The list and the screen -/

/-- A list of rows, in address order. -/
def RowsInOrder (rows : List AccountSummary) : Prop :=
  rows.Pairwise fun a b => a.address.toList < b.address.toList

/-- Rows in order name each account once. -/
theorem RowsInOrder.nodup {rows : List AccountSummary} (h : RowsInOrder rows) :
    (rows.map (·.address)).Nodup := by
  unfold List.Nodup
  rw [List.pairwise_map]
  exact h.imp fun hlt heq => absurd (congrArg String.toList heq) hlt.ne

/-- The accounts are listed, the ones held first and then those only observed, and the screen of
each says of it what its row does. -/
structure Agree (C : Crates Addr) (w : World Addr) (ours others : List AccountSummary) :
    Prop where
  managed : ∀ row ∈ ours, row.managed = true
  observed : ∀ row ∈ others, row.managed = false
  ours_order : RowsInOrder ours
  others_order : RowsInOrder others
  once : ((ours ++ others).map (·.address)).Nodup
  held : ∀ addr, (∃ row ∈ ours, row.address = shownAs C addr) ↔ Present C w.disk.fs addr
  /-- An account has a screen exactly where it has a row. -/
  known : ∀ addr, (∃ shown, ((state C addr).on w).1 = .ok shown) ↔
    ∃ row ∈ ours ++ others, row.address = shownAs C addr
  agrees : ∀ addr shown, ((state C addr).on w).1 = .ok shown → ∀ row ∈ ours ++ others,
    row.address = shownAs C addr → row.managed = shown.managed ∧
      row.protected_ = shown.protected_ ∧ row.locked = shown.locked ∧
      row.resolved = shown.resolved ∧ row.displayName = shown.displayName ∧
      row.problem = shown.problem ∧ row.pending = shown.pending.length
  /-- An account that is not held has nothing staged, nothing unlocked and nothing pending. -/
  homed : ∀ addr, ¬Present C w.disk.fs addr → w.core.staged addr = none ∧
    w.core.unlocked addr = none ∧
      ∀ shown, ((state C addr).on w).1 = .ok shown → shown.pending = []

/-- The rows of the accounts held are in order, as the accounts are. -/
theorem heldRows_order (hV : C.VaultLaws) {fs : Fs} {held : List (StoredAccount Addr)}
    {listed : List Addr} (h : Listing C fs held listed) (core : AccountCore Addr) :
    RowsInOrder (heldRows C core held) := by
  unfold RowsInOrder heldRows
  rw [List.pairwise_map]
  have hne : held.Pairwise fun a b => a.addr ≠ b.addr := List.pairwise_map.mp h.once
  refine (h.order.and hne).imp fun {a b} hab => ?_
  show (String.ofList _).toList < (String.ofList _).toList
  rw [String.toList_ofList, String.toList_ofList]
  exact lt_of_le_of_ne hab.1 ((addrText_injective hV).ne hab.2)

theorem observedRows_order (hV : C.VaultLaws) {fs : Fs} {held : List (StoredAccount Addr)}
    {listed : List Addr} (h : Listing C fs held listed) (core : AccountCore Addr) :
    RowsInOrder (observedRows C core held listed) := by
  unfold RowsInOrder observedRows
  rw [List.pairwise_map]
  refine ((h.observed.ordered hV).filter _).imp fun {a b} hab => ?_
  show (String.ofList _).toList < (String.ofList _).toList
  rwa [String.toList_ofList, String.toList_ofList]

/-- Where no other writes to the directory, the list of accounts and their screens agree. -/
theorem listing_agrees_with_state (hV : C.VaultLaws) (hL : C.LogLaws) (hA : C.AccountLaws)
    (h : Alone C w) (hfaults : w.disk.faults = []) :
    ∃ ours others, ((Manager.accounts C).on w).1 = .ok (ours ++ others) ∧
      Agree C w ours others := by
  have hsane := h.sane hV hA
  have hhomed := h.homed hV hL hA
  obtain ⟨listed, hlists⟩ := hsane.listed
  obtain ⟨rows, hrows⟩ := accounts_answers hV hfaults hsane.single hlists
  obtain ⟨held, listed', hlisting, rfl⟩ := accounts_ok hV hrows
  obtain rfl := hlists.unique hlisting.observed
  -- Every screen is drawn of the directory that the list was read from.
  have hstate : ∀ {addr shown}, ((state C addr).on w).1 = .ok shown →
      ∃ drawn, shown = stateOf C w.core addr drawn ∧ Drawn C w.disk.fs addr drawn ∧
        (drawn = none → addr ∈ listed') := by
    intro addr shown hshown
    obtain ⟨drawn, heq, hdrawn, hobserved, -⟩ := state_ok hV (Prod.ext hshown rfl)
    refine ⟨drawn, heq, hdrawn, fun hnone => ?_⟩
    obtain ⟨observed, hlists', hmem⟩ := hobserved hnone
    rwa [hlists.unique hlists'] at hmem
  have hours : ∀ addr, (∃ row ∈ heldRows C w.core held, row.address = shownAs C addr) ↔
      Present C w.disk.fs addr := by
    intro addr
    rw [← hlisting.mem_held]
    constructor
    · rintro ⟨row, hrow, haddress⟩
      obtain ⟨account, haccount, rfl⟩ := List.mem_map.mp hrow
      exact ⟨account, haccount, (shownAs_inj hV).mp haddress⟩
    · rintro ⟨account, haccount, rfl⟩
      exact ⟨_, List.mem_map_of_mem haccount, rfl⟩
  refine ⟨heldRows C w.core held, observedRows C w.core held listed', by rw [hrows], {
    managed := ?_
    observed := ?_
    ours_order := heldRows_order hV hlisting w.core
    others_order := observedRows_order hV hlisting w.core
    once := ?_
    held := hours
    known := fun addr => ⟨?_, ?_⟩
    agrees := ?_
    homed := ?_ }⟩
  · intro row hrow
    obtain ⟨account, -, rfl⟩ := List.mem_map.mp hrow
    rfl
  · intro row hrow
    obtain ⟨addr, -, -, rfl⟩ := (mem_observedRows hlisting).mp hrow
    rfl
  -- No account observed is listed that is held too.
  · rw [List.map_append, List.nodup_append]
    refine ⟨(heldRows_order hV hlisting w.core).nodup,
      (observedRows_order hV hlisting w.core).nodup, ?_⟩
    rintro address haddress other hother rfl
    obtain ⟨row, hrow, rfl⟩ := List.mem_map.mp haddress
    obtain ⟨row', hrow', hsame⟩ := List.mem_map.mp hother
    obtain ⟨addr, -, habsent, rfl⟩ := (mem_observedRows hlisting).mp hrow'
    exact habsent ((hours addr).mp ⟨row, hrow, hsame.symm⟩)
  · rintro ⟨shown, hshown⟩
    obtain ⟨drawn, -, hdrawn, hobserved⟩ := hstate hshown
    rcases drawn with - | account
    · exact ⟨_, List.mem_append_right _ ((mem_observedRows hlisting).mpr
        ⟨addr, hobserved rfl, hdrawn.none rfl, rfl⟩), rfl⟩
    · obtain ⟨haddr, hfile⟩ := hdrawn.some account rfl
      obtain ⟨row, hrow, haddress⟩ := (hours addr).mpr ⟨_, hfile⟩
      exact ⟨row, List.mem_append_left _ hrow, haddress⟩
  · rintro ⟨row, hrow, haddress⟩
    have hknown : Present C w.disk.fs addr ∨ addr ∈ listed' := by
      rcases List.mem_append.mp hrow with hrow | hrow
      · exact .inl ((hours addr).mp ⟨row, hrow, haddress⟩)
      · obtain ⟨other, hother, -, rfl⟩ := (mem_observedRows hlisting).mp hrow
        exact .inr ((shownAs_inj hV).mp haddress ▸ hother)
    obtain ⟨shown, hshown⟩ := state_answers hV hfaults hsane.single hlists hknown
    exact ⟨shown, by rw [hshown]⟩
  · intro addr shown hshown row hrow haddress
    obtain ⟨drawn, rfl, hdrawn, -⟩ := hstate hshown
    rw [hlisting.row_eq hV hrow haddress hdrawn]
    exact (summaryOf_agrees fun hnone => (hhomed addr (hdrawn.none hnone)).1).2
  -- Of an account not held nothing is staged, so nothing is pending.
  · intro addr habsent
    obtain ⟨hstaged, hunlocked⟩ := hhomed addr habsent
    refine ⟨hstaged, hunlocked, fun shown hshown => ?_⟩
    obtain ⟨drawn, rfl, -⟩ := hstate hshown
    unfold stateOf AccountCore.plannedEntries
    dsimp only
    rw [hstaged]
    rfl

theorem Alone.runs (h : Alone C w) (ops : List (CoreOp Addr)) : Alone C (CoreOp.runs C ops w) := by
  induction ops generalizing w with
  | nil => exact h
  | cons op ops ih => exact ih (.op op h)

/-- An account with a name staged, and another that is observed. -/
def ownAndObserved : World Reference.Addr :=
  CoreOp.runs Crates.reference [.createAccount (Reference.someKey 1) (some "pw") 0,
    .observe ⟨(Reference.someKey 2).bytes⟩,
    .stageSetDisplayName ⟨(Reference.someKey 1).bytes⟩ "Saro"] (World.start [])

theorem listing_agrees_with_state_two : ∃ ours others,
    ((Manager.accounts Crates.reference).on ownAndObserved).1 = .ok (ours ++ others) ∧
      Agree Crates.reference ownAndObserved ours others := by
  have hfaults : ownAndObserved.disk.faults = [] := List.isEmpty_iff.mp (by decide +kernel)
  exact listing_agrees_with_state Reference.vaultLaws Reference.logLaws Reference.accountLaws
    (Alone.runs (.fresh rfl (sane_empty _)) _) hfaults

end AccountLogUi
