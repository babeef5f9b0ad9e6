import AccountLogUi.Manager.State
import AccountLogUi.Observed.Equiv.Effect
import AccountLogUi.Vault.Equiv.Effect

/-!
# What an operation looks at first

The checks every operation starts with only look at the directory: `Looked` says that nothing but
the faults to come is used up.  `requireManaged_ok` says the account is one of the vault's where
the check lets an operation through, and `signingKey_ok` that a key found is the account's own.
-/

namespace AccountLogUi.Manager

variable {Addr : Type}

/-- Nothing changed but which faults are still to come. -/
structure Looked (w w' : World Addr) : Prop where
  core : w'.core = w.core
  fs : w'.disk.fs = w.disk.fs
  store : w'.store = w.store
  now : w'.now = w.now
  asked : w'.asked = w.asked

theorem Looked.refl (w : World Addr) : Looked w w := ⟨rfl, rfl, rfl, rfl, rfl⟩

theorem Looked.trans {w₁ w₂ w₃ : World Addr} (h : Looked w₁ w₂) (h' : Looked w₂ w₃) :
    Looked w₁ w₃ :=
  ⟨h'.core.trans h.core, h'.fs.trans h.fs, h'.store.trans h.store, h'.now.trans h.now,
    h'.asked.trans h.asked⟩

variable {w w' : World Addr} {addr : Addr}

/-! ### Programs on the disk -/

/-- A program of the vault's, run by the app. -/
theorem vault_on {α : Type} (p : FsM (VaultError Addr) α) (w : World Addr) :
    (vault p).on w = ((w.disk.run p.run).1.mapError .vault,
      { w with disk := (w.disk.run p.run).2 }) := rfl

theorem observed_on {α : Type} (p : FsM ObservedError α) (w : World Addr) :
    (observed p).on w = ((w.disk.run p.run).1.mapError .observed,
      { w with disk := (w.disk.run p.run).2 }) := rfl

theorem looked_of_readOnly {ε α : Type} {p : FsM ε α} (hp : p.ReadOnly) (w : World Addr) :
    Looked w { w with disk := (w.disk.run p.run).2 } :=
  ⟨rfl, hp.run_fs w.disk, rfl, rfl, rfl⟩

theorem mapError_eq_ok {ε δ α : Type} {r : Except ε α} {f : ε → δ} {a : α} :
    r.mapError f = .ok a ↔ r = .ok a := by
  cases r <;> simp [Except.mapError]

theorem mapError_eq_error {ε δ α : Type} {r : Except ε α} {f : ε → δ} {e : δ} :
    r.mapError f = .error e ↔ ∃ e', r = .error e' ∧ f e' = e := by
  cases r <;> simp [Except.mapError]

/-- A program of the vault's that answers. -/
theorem vault_ok {α : Type} {p : FsM (VaultError Addr) α} {a : α}
    (h : (vault p).on w = (.ok a, w')) :
    w.disk.run p.run = (.ok a, w'.disk) ∧ w' = { w with disk := w'.disk } := by
  rw [vault_on] at h
  obtain ⟨hr, rfl⟩ := Prod.mk.inj h
  exact ⟨Prod.ext (mapError_eq_ok.mp hr) rfl, rfl⟩

theorem observed_ok {α : Type} {p : FsM ObservedError α} {a : α}
    (h : (observed p).on w = (.ok a, w')) :
    w.disk.run p.run = (.ok a, w'.disk) ∧ w' = { w with disk := w'.disk } := by
  rw [observed_on] at h
  obtain ⟨hr, rfl⟩ := Prod.mk.inj h
  exact ⟨Prod.ext (mapError_eq_ok.mp hr) rfl, rfl⟩

/-- A program of the vault's that only looks, whatever it answers. -/
theorem vault_looked {α : Type} {p : FsM (VaultError Addr) α} (hp : p.ReadOnly)
    {r : Except (CoreError Addr) α} (h : (vault p).on w = (r, w')) : Looked w w' := by
  obtain ⟨-, rfl⟩ := Prod.mk.inj ((vault_on p w).symm.trans h)
  exact looked_of_readOnly hp w

theorem observed_looked {α : Type} {p : FsM ObservedError α} (hp : p.ReadOnly)
    {r : Except (CoreError Addr) α} (h : (observed p).on w = (r, w')) : Looked w w' := by
  obtain ⟨-, rfl⟩ := Prod.mk.inj ((observed_on p w).symm.trans h)
  exact looked_of_readOnly hp w

/-! ### Who may do what -/

variable [DecidableEq Addr] {C : Crates Addr}

theorem manages_ok (hV : C.VaultLaws) {b : Bool} (h : (manages C addr).on w = (.ok b, w')) :
    Looked w w' ∧ ¬Vault.Doubled C w.disk.fs addr ∧
      (b = true ↔ Vault.Present C w.disk.fs addr) := by
  unfold manages at h
  obtain ⟨held, w₁, hheld, h⟩ := Action.on_bind_ok.mp h
  obtain ⟨rfl, rfl⟩ : held.any (·.addr = addr) = b ∧ w₁ = w' := by simpa using h
  have hrun : (w.disk.run (Vault.accounts C).run).1 = .ok held := by rw [(vault_ok hheld).1]
  refine ⟨vault_looked Vault.accounts_readOnly hheld,
    Vault.not_doubled_of_accounts_run hV hrun addr, ?_⟩
  rw [List.any_eq_true]
  constructor
  · rintro ⟨account, hmem, haddr⟩
    obtain rfl : account.addr = addr := by simpa using haddr
    exact ⟨account.protected_, ((Vault.accounts_run hV hrun).2 account).mp hmem⟩
  · rintro ⟨protected_, hsome⟩
    exact ⟨⟨addr, protected_⟩, ((Vault.accounts_run hV hrun).2 _).mpr hsome, by simp⟩

theorem manages_error {e : CoreError Addr} (h : (manages C addr).on w = (.error e, w')) :
    Looked w w' := by
  unfold manages at h
  rcases Action.on_bind_error.mp h with h | ⟨held, w₁, -, h⟩
  · exact vault_looked Vault.accounts_readOnly h
  · simp at h

theorem observes_looked {r : Except (CoreError Addr) Bool}
    (h : (observes C addr).on w = (r, w')) : Looked w w' := by
  unfold observes at h
  rcases r with e | b
  · rcases Action.on_bind_error.mp h with h | ⟨held, w₁, -, h⟩
    · exact observed_looked Observed.list_readOnly h
    · simp at h
  · obtain ⟨held, w₁, hheld, h⟩ := Action.on_bind_ok.mp h
    obtain ⟨-, rfl⟩ : held.contains addr = b ∧ w₁ = w' := by simpa using h
    exact observed_looked Observed.list_readOnly hheld

theorem requireManaged_ok (hV : C.VaultLaws) {u : Unit}
    (h : (requireManaged C addr).on w = (.ok u, w')) :
    Looked w w' ∧ ¬Vault.Doubled C w.disk.fs addr ∧ Vault.Present C w.disk.fs addr := by
  unfold requireManaged at h
  obtain ⟨managed, w₁, hmanages, h⟩ := Action.on_bind_ok.mp h
  obtain ⟨hlooked, hsingle, hpresent⟩ := manages_ok hV hmanages
  split at h
  · next hmanaged =>
    obtain rfl : w₁ = w' := by simpa using h
    exact ⟨hlooked, hsingle, hpresent.mp hmanaged⟩
  · simp at h

theorem requireManaged_error (hV : C.VaultLaws) {e : CoreError Addr}
    (h : (requireManaged C addr).on w = (.error e, w')) : Looked w w' := by
  unfold requireManaged at h
  rcases Action.on_bind_error.mp h with h | ⟨managed, w₁, hmanages, h⟩
  · exact manages_error h
  have hlooked := (manages_ok hV hmanages).1
  split at h
  · simp at h
  · rcases Action.on_bind_error.mp h with h | ⟨observed, w₂, hobserves, h⟩
    · exact hlooked.trans (observes_looked h)
    · have hw : w₂ = w' := by
        rcases Action.on_bind_error.mp h with hrefuse | ⟨u, w₃, hrefuse, hthrow⟩
        · exact (Action.on_refuse_error.mp hrefuse).2.2.symm
        · have hw₃ := (Action.on_refuse_ok.mp hrefuse).2
          exact hw₃.symm.trans (Prod.mk.inj hthrow).2
      exact hw ▸ hlooked.trans (observes_looked hobserves)

theorem requireKnown_looked (hV : C.VaultLaws) {r : Except (CoreError Addr) Unit}
    (h : (requireKnown C addr).on w = (r, w')) : Looked w w' := by
  unfold requireKnown at h
  rcases r with e | u
  · rcases Action.on_bind_error.mp h with h | ⟨managed, w₁, hmanages, h⟩
    · exact manages_error h
    have hlooked := (manages_ok hV hmanages).1
    split at h
    · simp at h
    · rcases Action.on_bind_error.mp h with h | ⟨observed, w₂, hobserves, h⟩
      · exact hlooked.trans (observes_looked h)
      · obtain ⟨-, -, rfl⟩ := Action.on_refuse_error.mp h
        exact hlooked.trans (observes_looked hobserves)
  · obtain ⟨managed, w₁, hmanages, h⟩ := Action.on_bind_ok.mp h
    have hlooked := (manages_ok hV hmanages).1
    split at h
    · obtain rfl : w₁ = w' := by simpa using h
      exact hlooked
    · obtain ⟨observed, w₂, hobserves, h⟩ := Action.on_bind_ok.mp h
      obtain ⟨-, rfl⟩ := Action.on_refuse_ok.mp h
      exact hlooked.trans (observes_looked hobserves)

/-! ### The key to sign with -/

/-- The key comes from those unlocked, or from the vault. -/
theorem signingKey_on (w : World Addr) : (signingKey C addr).on w =
    match w.core.unlocked addr with
    | some key => (.ok key, w)
    | none => ((w.onDisk (Vault.openKey C addr none)).1.mapError
        (fun e => if e = .passwordRequired then .locked else .vault e),
        (w.onDisk (Vault.openKey C addr none)).2) := by
  unfold signingKey
  rw [Action.on_look_bind]
  cases w.core.unlocked addr <;> rfl

theorem signingKey_looked {r : Except (CoreError Addr) Ed25519SigningKey}
    (h : (signingKey C addr).on w = (r, w')) : Looked w w' := by
  rw [signingKey_on] at h
  split at h
  · obtain ⟨-, rfl⟩ := Prod.mk.inj h
    exact .refl w
  · obtain ⟨-, rfl⟩ := Prod.mk.inj h
    exact looked_of_readOnly (Vault.openKey_readOnly addr none) w

/-- A key to sign with is one unlocked, or one the vault keeps in the clear. -/
theorem signingKey_ok (hV : C.VaultLaws) {key : Ed25519SigningKey}
    (h : (signingKey C addr).on w = (.ok key, w')) :
    w.core.unlocked addr = some key ∨ C.addrOf key = addr ∧
      (w.disk.fs.node (Vault.pathOf C addr false)).isSome := by
  rw [signingKey_on] at h
  split at h
  · next key' hkey =>
    obtain ⟨hkey', -⟩ := Prod.mk.inj h
    exact .inl (hkey.trans (congrArg some (Except.ok.inj hkey')))
  · obtain ⟨hopen, -⟩ := Prod.mk.inj h
    have hrun : w.disk.run (Vault.openKey C addr none).run =
        (.ok key, (w.disk.run (Vault.openKey C addr none).run).2) :=
      Prod.ext (mapError_eq_ok.mp hopen) rfl
    obtain ⟨haddr, hsome, -⟩ := Vault.openKey_run hV hrun
    exact .inr ⟨haddr, hsome⟩

end AccountLogUi.Manager
