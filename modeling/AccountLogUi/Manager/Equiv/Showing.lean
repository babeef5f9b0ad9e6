import AccountLogUi.Manager.Equiv.Frame
import AccountLogUi.Observed.Equiv.List
import AccountLogUi.Vault.Equiv.Open

/-!
# What the screen is told

`accounts_ok` and `state_ok` say what the list of accounts and the screen of one of them are drawn
from: the accounts the vault holds, the observed list, and the app's own state, as `Listing` has
them.
-/

namespace AccountLogUi.Manager

variable {Addr : Type} {C : Crates Addr} {w w' : World Addr} {addr : Addr}

/-! ### The row and the screen -/

/-- The text an account is shown under. -/
def shownAs (C : Crates Addr) (addr : Addr) : String := String.ofList (C.addrText addr)

theorem shownAs_inj (hV : C.VaultLaws) {other : Addr} :
    shownAs C other = shownAs C addr ↔ other = addr := by
  refine ⟨fun h => Vault.addrText_injective hV ?_, fun h => by rw [h]⟩
  have htext := congrArg String.toList h
  rwa [shownAs, shownAs, String.toList_ofList, String.toList_ofList] at htext

/-- The row of an account says of it what its screen does. -/
theorem summaryOf_agrees {core : AccountCore Addr} {held : Option (StoredAccount Addr)}
    (hhomed : held = none → core.staged addr = none) :
    let row := summaryOf C core addr held
    let shown := stateOf C core addr held
    row.address = shown.address ∧ row.managed = shown.managed ∧
      row.protected_ = shown.protected_ ∧ row.locked = shown.locked ∧
      row.resolved = shown.resolved ∧ row.displayName = shown.displayName ∧
      row.problem = shown.problem ∧ row.pending = shown.pending.length := by
  refine ⟨rfl, rfl, rfl, rfl, rfl, ?_, rfl, ?_⟩
  · show (core.record addr).bind _ = _
    unfold stateOf
    cases core.record addr <;> rfl
  · unfold summaryOf stateOf pendingRows
    dsimp only
    rw [List.length_mapIdx]
    cases held with
    | some account => rfl
    | none =>
      unfold AccountCore.plannedEntries
      rw [hhomed rfl]
      rfl

/-- How an account is drawn: as one held under the name its file has, or as one not held. -/
structure Drawn (C : Crates Addr) (fs : Fs) (addr : Addr) (held : Option (StoredAccount Addr)) :
    Prop where
  some : ∀ account, held = some account → account.addr = addr ∧
    (fs.node (Vault.pathOf C addr account.protected_)).isSome
  none : held = none → ¬Vault.Present C fs addr

variable [DecidableEq Addr]

/-- What is listed of a directory: the accounts it has a file of, and the observed ones. -/
structure Listing (C : Crates Addr) (fs : Fs) (held : List (StoredAccount Addr))
    (observed : List Addr) : Prop where
  once : (held.map (·.addr)).Nodup
  order : held.Pairwise fun a b => C.addrText a.addr ≤ C.addrText b.addr
  files : ∀ account, account ∈ held ↔
    (fs.node (Vault.pathOf C account.addr account.protected_)).isSome
  observed : Observed.Lists C fs observed

/-- The rows of the accounts held. -/
def heldRows (C : Crates Addr) (core : AccountCore Addr) (held : List (StoredAccount Addr)) :
    List AccountSummary :=
  held.map fun held => summaryOf C core held.addr (some held)

/-- The rows of those only observed. -/
def observedRows (C : Crates Addr) (core : AccountCore Addr) (held : List (StoredAccount Addr))
    (observed : List Addr) : List AccountSummary :=
  (observed.filter fun addr => !held.any (·.addr = addr)).map fun addr => summaryOf C core addr none

section

variable {fs : Fs} {held : List (StoredAccount Addr)} {listed : List Addr}
  {core : AccountCore Addr} {row : AccountSummary}

theorem Listing.mem_held (h : Listing C fs held listed) :
    (∃ account ∈ held, account.addr = addr) ↔ Vault.Present C fs addr := by
  constructor
  · rintro ⟨account, haccount, rfl⟩
    exact ⟨account.protected_, (h.files account).mp haccount⟩
  · rintro ⟨protected_, hp⟩
    exact ⟨⟨addr, protected_⟩, (h.files ⟨addr, protected_⟩).mpr hp, rfl⟩

theorem mem_observedRows (h : Listing C fs held listed) :
    row ∈ observedRows C core held listed ↔ ∃ addr ∈ listed, ¬Vault.Present C fs addr ∧
      row = summaryOf C core addr none := by
  unfold observedRows
  rw [List.mem_map]
  refine exists_congr fun addr => ?_
  have hany : held.any (·.addr = addr) = true ↔ Vault.Present C fs addr := by
    rw [← h.mem_held]
    simp
  rw [List.mem_filter, Bool.not_eq_true', ← Bool.not_eq_true, hany, and_assoc,
    @eq_comm _ row]

/-- The row of an account, held or not, is the one its screen goes with. -/
theorem Listing.row_eq (hV : C.VaultLaws) (h : Listing C fs held listed)
    (hrow : row ∈ heldRows C core held ++ observedRows C core held listed)
    (haddress : row.address = shownAs C addr) {drawn : Option (StoredAccount Addr)}
    (hdrawn : Drawn C fs addr drawn) : row = summaryOf C core addr drawn := by
  rcases List.mem_append.mp hrow with hrow | hrow
  · obtain ⟨account, haccount, rfl⟩ := List.mem_map.mp hrow
    obtain rfl := (shownAs_inj hV).mp haddress
    rcases drawn with - | drawn
    · exact absurd ⟨_, (h.files account).mp haccount⟩ (hdrawn.none rfl)
    · obtain ⟨haddr, hfile⟩ := hdrawn.some drawn rfl
      have hmem : drawn ∈ held := by
        refine (h.files drawn).mpr ?_
        rwa [haddr]
      rw [List.inj_on_of_nodup_map h.once hmem haccount haddr]
  · obtain ⟨other, hother, habsent, rfl⟩ := (mem_observedRows h).mp hrow
    obtain rfl := (shownAs_inj hV).mp haddress
    rcases drawn with - | drawn
    · rfl
    · exact absurd ⟨_, (hdrawn.some drawn rfl).2⟩ habsent

end

/-! ### What is answered -/

/-- The accounts the vault holds. -/
theorem accounts_held (hV : C.VaultLaws) {held : List (StoredAccount Addr)}
    (h : (vault (Vault.accounts C)).on w = (.ok held, w')) :
    (held.map (·.addr)).Nodup ∧
      (held.Pairwise fun a b => C.addrText a.addr ≤ C.addrText b.addr) ∧
      ∀ account, account ∈ held ↔
        (w.disk.fs.node (Vault.pathOf C account.addr account.protected_)).isSome := by
  have hrun : (w.disk.run (Vault.accounts C).run).1 = .ok held := by rw [(vault_ok h).1]
  obtain ⟨honce, hfiles⟩ := Vault.accounts_run hV hrun
  exact ⟨honce, Vault.accounts_run_sorted hrun, hfiles⟩

/-- The rows of the accounts held, and then of those only observed. -/
theorem accounts_ok (hV : C.VaultLaws) {rows : List AccountSummary}
    (h : (accounts C).on w = (.ok rows, w')) :
    ∃ held observed, Listing C w.disk.fs held observed ∧
      rows = heldRows C w.core held ++ observedRows C w.core held observed := by
  unfold accounts at h
  obtain ⟨held, w₁, hheld, h⟩ := Action.on_bind_ok.mp h
  obtain ⟨listed, w₂, hlisted, h⟩ := Action.on_bind_ok.mp h
  have hlooked := vault_looked Vault.accounts_readOnly hheld
  have hlooked' := observed_looked Observed.list_readOnly hlisted
  obtain ⟨honce, horder, hfiles⟩ := accounts_held hV hheld
  have hlists : Observed.Lists C w₁.disk.fs listed :=
    Observed.list_run (by rw [(observed_ok hlisted).1])
  rw [hlooked.fs] at hlists
  rw [Action.on_look_bind, hlooked'.core, hlooked.core] at h
  obtain ⟨hrows, -⟩ := Prod.mk.inj h
  exact ⟨held, listed, ⟨honce, horder, hfiles, hlists⟩, (Except.ok.inj hrows).symm⟩

/-- An account is drawn as one held, or as one only observed. -/
theorem state_ok (hV : C.VaultLaws) {shown : AccountState}
    (h : (state C addr).on w = (.ok shown, w')) :
    ∃ held, shown = stateOf C w.core addr held ∧ Drawn C w.disk.fs addr held ∧
      (held = none → ∃ observed, Observed.Lists C w.disk.fs observed ∧ addr ∈ observed) ∧
      ¬Vault.Doubled C w.disk.fs addr := by
  unfold state at h
  obtain ⟨held, w₁, hheld, h⟩ := Action.on_bind_ok.mp h
  obtain ⟨known, w₂, hknown, h⟩ := Action.on_bind_ok.mp h
  obtain ⟨u, w₃, hrefuse, h⟩ := Action.on_bind_ok.mp h
  obtain ⟨hyes, hw₃⟩ := Action.on_refuse_ok.mp hrefuse
  have hlooked := vault_looked Vault.accounts_readOnly hheld
  obtain ⟨-, -, hfiles⟩ := accounts_held hV hheld
  have hsingle := Vault.not_doubled_of_accounts_run hV
    (show (w.disk.run (Vault.accounts C).run).1 = .ok held by rw [(vault_ok hheld).1]) addr
  rw [Action.on_look_bind, hw₃] at h
  obtain ⟨hshown, -⟩ := Prod.mk.inj h
  have hcore : w₂.core = w.core := by
    split at hknown
    · obtain ⟨-, rfl⟩ := Prod.mk.inj hknown
      exact hlooked.core
    · exact (observes_looked hknown).core.trans hlooked.core
  rw [hcore] at hshown
  -- The account is drawn as the vault lists it, and where it is not listed, it is observed.
  refine ⟨held.find? (·.addr = addr), (Except.ok.inj hshown).symm, ⟨?_, ?_⟩, ?_, hsingle⟩
  · intro account hfind
    have haddr : account.addr = addr := by simpa using List.find?_some hfind
    refine ⟨haddr, ?_⟩
    rw [← haddr]
    exact (hfiles account).mp (List.mem_of_find?_eq_some hfind)
  · rintro hfind ⟨protected_, hsome⟩
    have hmem : (⟨addr, protected_⟩ : StoredAccount Addr) ∈ held := (hfiles _).mpr hsome
    have hnot := List.find?_eq_none.mp hfind _ hmem
    simp at hnot
  · intro hfind
    rw [hfind, Option.isSome_none, if_neg (by simp)] at hknown
    unfold observes at hknown
    obtain ⟨listed, w₄, hlisted, h⟩ := Action.on_bind_ok.mp hknown
    obtain ⟨rfl, -⟩ : listed.contains addr = known ∧ w₄ = w₂ := by simpa using h
    have hlists : Observed.Lists C w₁.disk.fs listed :=
      Observed.list_run (by rw [(observed_ok hlisted).1])
    rw [hlooked.fs] at hlists
    exact ⟨listed, hlists, by simpa using hyes⟩

/-! ### Where no call fails -/

/-- The accounts are listed where no call fails and the directory can be read. -/
theorem accounts_answers (hV : C.VaultLaws) (hfaults : w.disk.faults = [])
    (hsingle : ∀ addr, ¬Vault.Doubled C w.disk.fs addr) {listed : List Addr}
    (hlists : Observed.Lists C w.disk.fs listed) : ∃ rows, (accounts C).on w = (.ok rows, w) := by
  obtain ⟨core, ⟨fs, faults⟩, store, now, asked⟩ := w
  obtain rfl : faults = [] := hfaults
  obtain ⟨held, hheld, -⟩ := Vault.accounts_alone hV hsingle 0
  unfold accounts
  rw [Action.on_bind, vault_on]
  dsimp only
  rw [Disk.run_alone, hheld]
  dsimp only [Except.mapError]
  rw [Action.on_bind, observed_on]
  dsimp only
  rw [Disk.run_alone, Observed.list_alone hlists]
  exact ⟨_, rfl⟩

/-- So is the screen of an account that is held, or observed. -/
theorem state_answers (hV : C.VaultLaws) (hfaults : w.disk.faults = [])
    (hsingle : ∀ addr, ¬Vault.Doubled C w.disk.fs addr) {listed : List Addr}
    (hlists : Observed.Lists C w.disk.fs listed)
    (hknown : Vault.Present C w.disk.fs addr ∨ addr ∈ listed) :
    ∃ shown, (state C addr).on w = (.ok shown, w) := by
  obtain ⟨core, ⟨fs, faults⟩, store, now, asked⟩ := w
  obtain rfl : faults = [] := hfaults
  obtain ⟨held, hheld, -, -, hfiles⟩ := Vault.accounts_alone hV hsingle 0
  unfold state
  rw [Action.on_bind, vault_on]
  dsimp only
  rw [Disk.run_alone, hheld]
  dsimp only [Except.mapError]
  rw [Action.on_bind]
  by_cases hsome : (held.find? (·.addr = addr)).isSome = true
  · rw [if_pos hsome]
    exact ⟨_, rfl⟩
  · have hmem : addr ∈ listed := by
      refine hknown.resolve_left ?_
      rintro ⟨protected_, hp⟩
      refine hsome (List.find?_isSome.mpr ⟨⟨addr, protected_⟩, (hfiles _).mpr hp, by simp⟩)
    rw [if_neg hsome]
    unfold observes
    rw [Action.on_bind, observed_on]
    dsimp only
    rw [Disk.run_alone, Observed.list_alone hlists]
    dsimp only [Except.mapError]
    rw [show listed.contains addr = true by simpa using hmem]
    exact ⟨_, rfl⟩

end AccountLogUi.Manager
