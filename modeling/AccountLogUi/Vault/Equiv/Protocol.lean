import AccountLogUi.Vault.Equiv.Names
import AccountLogUi.Vault.Processes

/-!
# The vault's operations keep to the protocol

`VaultOp.keeps`: whatever its calls are answered, an operation makes only the calls the protocol
allows, and leaves off as `Finished` says.  This is the one place the operations' programs are
walked through; what holds of many processes, and of one that is cut short, is proved from the
protocol.
-/

namespace AccountLogUi.Vault

variable {Addr : Type} {C : Crates Addr} {g : Progress Addr}

/-- Taking the lock either fails and changes nothing, or holds it. -/
theorem keeps_lock {post : Except (VaultError Addr) Unit → Progress Addr → Prop}
    (herr : ∀ e, post (.error e) g) (hok : post (.ok ()) { g with locked := true }) :
    (lock : FsM (VaultError Addr) Unit).run.Keeps (protocol C) post g := by
  refine ⟨by simp [protocol, Progress.allowed], fun r => ?_⟩
  rcases r with e | v
  · exact herr _
  refine ⟨by simp [protocol, Progress.allowed], fun r => ?_⟩
  rcases r with e | v
  · have hg : (protocol C).next g .tryLock (.error e) = g := by
      simp [protocol, Progress.next, Except.isOk, Except.toBool]
    show post _ ((protocol C).next g .tryLock (.error e))
    rw [hg]
    exact herr _
  · have hg : (protocol C).next g .tryLock (.ok v) = { g with locked := true } := by
      simp [protocol, Progress.next, Except.isOk, Except.toBool]
    show post _ ((protocol C).next g .tryLock (.ok v))
    rw [hg]
    exact hok

/-- Promoting is allowed to the create that holds the lock, saw the account absent and staged its
key file. -/
theorem keeps_promote {key : Ed25519SigningKey} {password : Option String} {seed : ℕ}
    (hop : g.op = .create key password seed) (hlocked : g.locked = true) (habsent : g.absent = true)
    (hstaged : g.staged = true) {post : Except (VaultError Addr) Unit → Progress Addr → Prop}
    (herr : ∀ e g', g'.op = g.op → g'.promoted = g.promoted → post (.error e) g')
    (hok : ∀ g', g'.op = g.op → g'.promoted = true → post (.ok ()) g') :
    (promote (stageName C (C.addrOf key)) (pathOf C (C.addrOf key) password.isSome) :
      FsM (VaultError Addr) Unit).run.Keeps (protocol C) post g := by
  unfold promote
  refine ⟨by simp [protocol, Progress.allowed], fun r => ?_⟩
  rcases r with e | v
  · exact herr _ g rfl rfl
  refine ⟨by simp [protocol, Progress.allowed, Progress.next, hop], fun r => ?_⟩
  rcases r with e | v
  · exact herr _ _ rfl rfl
  refine ⟨?_, fun r => ?_⟩
  · simp [protocol, Progress.allowed, Progress.next, hop, hlocked, habsent, hstaged, Except.isOk,
      Except.toBool]
  rcases r with e | v
  · exact herr _ _ rfl rfl
  refine ⟨by simp [protocol, Progress.allowed], fun r => ?_⟩
  exact hok _ rfl rfl

theorem openSealed_readOnly (path : List Char) (password : String) :
    (openSealed C path password).ReadOnly := by
  refine (FsM.readOnly_readToString _ _).bind fun text => ?_
  refine (FsM.readOnly_mk_ret _).bind fun _ => ?_
  refine FsM.ReadOnly.bind ⟨.inr ⟨path, rfl⟩, fun r => ?_⟩ fun secret => FsM.readOnly_mk_ret _
  cases r <;> trivial

/-- An operation that only looks, without the lock, comes no further. -/
theorem ReadOnly.keeps {α ε : Type} {p : FsM ε α} (h : p.ReadOnly) (hlocked : g.locked = false)
    (habsent : g.absent = false) : p.run.Keeps (protocol C) (fun _ g' => g' = g) g := by
  refine Prog.Keeps.stay ?_ h
  rintro - c (rfl | ⟨name, rfl⟩)
  · refine ⟨trivial, fun r => ?_⟩
    obtain ⟨op, locked, absent, staged, synced, promoted⟩ := g
    obtain rfl : locked = false := hlocked
    obtain rfl : absent = false := habsent
    rcases r with e | names
    · cases e <;> rfl
    · rfl
  · exact ⟨trivial, fun r => rfl⟩

variable [DecidableEq Addr]

/-- Listing is always allowed, and what it answers is the listing of what the directory named. -/
theorem keeps_accounts {post : Except (VaultError Addr) (List (StoredAccount Addr)) →
      Progress Addr → Prop} (herr : ∀ e, post (.error e) g)
    (hnone : post (.ok []) (Progress.next C g .readDir (.error .notFound)))
    (hok : ∀ names, post (listing C names) (Progress.next C g .readDir (.ok names))) :
    (accounts C).run.Keeps (protocol C) post g := by
  refine ⟨?_, ?_⟩
  · simp [protocol, Progress.allowed]
  · intro r
    rcases r with e | names
    · cases e with
      | notFound => exact hnone
      | _ => exact herr _
    · exact hok names

/-- What the listing shows decides whether a create goes on: it does only where it saw no file of
the account. -/
theorem showsAbsent_of_listing (hV : C.VaultLaws) {key : Ed25519SigningKey}
    {password : Option String} {seed : ℕ} {names : List OsString}
    {held : List (StoredAccount Addr)} (h : listing C names = .ok held)
    (hany : held.any (·.addr = C.addrOf key) = false) :
    Progress.showsAbsent C (.create key password seed) names = true := by
  rw [List.any_eq_false] at hany
  have habsent : ∀ protected_, .utf8 (pathOf C (C.addrOf key) protected_) ∉ names := by
    intro protected_ hmem
    exact hany ⟨C.addrOf key, protected_⟩ ((mem_listing hV h).mpr hmem) (by simp)
  simp [Progress.showsAbsent, habsent]

/-- How a create leaves off. -/
def CreateFinished (C : Crates Addr) (key : Ed25519SigningKey) (password : Option String)
    (seed : ℕ) (res : Except (VaultError Addr) Addr) (g : Progress Addr) : Prop :=
  g.op = .create key password seed ∧ (res = .ok (C.addrOf key) ∧ g.promoted = true ∨
    (∃ e, res = .error e) ∧ g.promoted = false)

/-- The part of a create made under the lock. -/
theorem keeps_create_locked (hV : C.VaultLaws) {key : Ed25519SigningKey}
    {password : Option String} {seed : ℕ} (hop : g.op = .create key password seed)
    (hlocked : g.locked = true) (hstaged : g.staged = true) (hpromoted : g.promoted = false) :
    (do
      let held ← accounts C
      if held.any (·.addr = C.addrOf key) then throw (.accountExists (C.addrOf key))
      promote (stageName C (C.addrOf key)) (pathOf C (C.addrOf key) password.isSome)
      return C.addrOf key : FsM (VaultError Addr) Addr).run.Keeps (protocol C)
        (CreateFinished C key password seed) g := by
  have hfail : ∀ (e : VaultError Addr) (g' : Progress Addr), g'.op = g.op →
      g'.promoted = g.promoted → CreateFinished C key password seed (.error e) g' :=
    fun e g' ho hp => ⟨ho.trans hop, .inr ⟨⟨e, rfl⟩, hp.trans hpromoted⟩⟩
  -- Shown absent under the lock, the account may be given its file.
  have hgo : ∀ names, Progress.showsAbsent C (.create key password seed : VaultOp Addr)
      names = true →
      ((do
        promote (stageName C (C.addrOf key)) (pathOf C (C.addrOf key) password.isSome)
        return C.addrOf key : FsM (VaultError Addr) Addr).run.Keeps (protocol C)
        (CreateFinished C key password seed)
        { g with absent := g.locked && Progress.showsAbsent C g.op names }) := by
    intro names hshows
    have habsent : (g.locked && Progress.showsAbsent C g.op names) = true := by
      rw [hop, hshows, hlocked]
      rfl
    rw [FsM.keeps_bind, habsent]
    refine keeps_promote (g := { g with absent := true }) hop hlocked rfl hstaged ?_ ?_
    · exact hfail
    · intro g' ho hp
      exact ⟨ho.trans hop, .inl ⟨rfl, hp⟩⟩
  rw [FsM.keeps_bind]
  refine keeps_accounts (fun e => hfail e g rfl rfl) ?_ fun names => ?_
  · exact hgo [] (by simp [Progress.showsAbsent])
  cases hlist : listing C names with
  | error e => exact hfail _ _ rfl rfl
  | ok held =>
    dsimp only
    split
    · exact hfail _ _ rfl rfl
    · next hany =>
      exact hgo names (showsAbsent_of_listing hV hlist (by simpa using hany))

theorem keeps_create (hV : C.VaultLaws) (key : Ed25519SigningKey) (password : Option String)
    (seed : ℕ) :
    (Vault.create C key password seed).run.Keeps (protocol C) (fun res g =>
      CreateFinished C key password seed res g ∧ g.locked = false ∧ g.staged = false)
      { op := .create key password seed } := by
  have hfail : ∀ e : VaultError Addr, CreateFinished C key password seed (.error e)
      { op := .create key password seed } :=
    fun e => ⟨rfl, .inr ⟨⟨e, rfl⟩, rfl⟩⟩
  unfold Vault.create
  split
  · exact ⟨hfail _, rfl, rfl⟩
  refine ⟨by simp [protocol, Progress.allowed], fun r => ?_⟩
  rcases r with e | v
  · exact ⟨hfail _, rfl, rfl⟩
  refine ⟨by simp [protocol, Progress.allowed], fun r => ?_⟩
  rcases r with e | v
  · exact ⟨hfail _, rfl, rfl⟩
  refine ⟨by simp [protocol, Progress.allowed, Progress.next], fun _ => ?_⟩
  refine ⟨by simp [protocol, Progress.allowed, Progress.next], fun r => ?_⟩
  rcases r with e | v
  · exact ⟨hfail _, rfl, rfl⟩
  -- From here on the stage is removed whatever the rest comes to.
  refine (FsM.keeps_dropping _ _ _).mpr ?_
  have hdrop : ∀ (res : Except (VaultError Addr) Addr) (g' : Progress Addr),
      CreateFinished C key password seed res g' → g'.locked = false →
      (protocol C).allowed g' (.removeDirAll (stageName C (C.addrOf key))) ∧
        ∀ a, CreateFinished C key password seed res
            ((protocol C).next g' (.removeDirAll (stageName C (C.addrOf key))) a) ∧
          ((protocol C).next g' (.removeDirAll (stageName C (C.addrOf key))) a).locked = false ∧
          ((protocol C).next g' (.removeDirAll (stageName C (C.addrOf key))) a).staged = false :=
    fun res g' hfin hlocked => ⟨⟨key, password, seed, hfin.1, rfl⟩, fun a => ⟨hfin, hlocked, rfl⟩⟩
  refine ⟨by simp [protocol, Progress.allowed], fun r => ?_⟩
  rcases r with e | v
  · exact hdrop _ _ (hfail _) rfl
  refine ⟨by simp [protocol, Progress.allowed, Progress.next], fun r => ?_⟩
  rcases r with e | v
  · exact hdrop _ _ (hfail _) rfl
  refine (FsM.keeps_bind lock _ _).mpr ?_
  refine keeps_lock (fun e => hdrop _ _ (hfail _) rfl) ?_
  refine (FsM.keeps_dropping _ _ _).mpr ?_
  refine (keeps_create_locked hV rfl rfl rfl rfl).mono fun res g' hfin => ?_
  exact ⟨by simp [protocol, Progress.allowed], fun a => hdrop _ _ hfin rfl⟩

theorem accounts_readOnly : (accounts C).ReadOnly := by
  refine ⟨.inl rfl, fun r => ?_⟩
  rcases r with e | names
  · cases e <;> trivial
  · trivial

theorem openKey_readOnly (addr : Addr) (password : Option String) :
    (Vault.openKey C addr password).ReadOnly := by
  refine accounts_readOnly.bind fun held => ?_
  split
  · next stored hfind =>
    refine FsM.ReadOnly.bind ?_ fun key => ?_
    · split
      · exact openSealed_readOnly _ _
      · exact (FsM.readOnly_readToString _ _).bind fun text => FsM.readOnly_mk_ret _
      · exact FsM.readOnly_throw _
      · exact FsM.readOnly_throw _
    · dsimp only
      split
      · exact FsM.readOnly_throw _
      · exact FsM.readOnly_pure _
  · exact FsM.readOnly_throw _

/-! ### Every operation -/

theorem keeps_forget (addr : Addr) :
    (Vault.forget C addr).run.Keeps (protocol C) (fun res g =>
      g.op = .forget addr ∧ g.locked = false ∧ g.staged = false ∧
        (res = .ok () ∧ g.removed = true ∨ (∃ e, res = .error e) ∧ g.removed = false))
      { op := .forget addr } := by
  have hfail : ∀ e : VaultError Addr, (Except.error e : Except (VaultError Addr) Unit) = .ok () ∧
      false = true ∨ (∃ e', Except.error e = (.error e' : Except (VaultError Addr) Unit)) ∧
        false = false := fun e => .inr ⟨⟨e, rfl⟩, rfl⟩
  unfold Vault.forget
  rw [FsM.keeps_bind]
  refine keeps_accounts (fun e => ⟨rfl, rfl, rfl, hfail e⟩) ⟨rfl, rfl, rfl, hfail _⟩ fun names => ?_
  cases listing C names with
  | error e => exact ⟨rfl, rfl, rfl, hfail e⟩
  | ok held =>
    dsimp only
    split
    · next stored hfind =>
      rw [FsM.keeps_bind]
      refine keeps_lock (fun e => ⟨rfl, rfl, rfl, hfail e⟩) ?_
      refine (FsM.keeps_dropping _ _ _).mpr ?_
      refine ⟨⟨addr, stored.protected_, rfl, rfl, rfl⟩, fun r => ⟨trivial, fun _ => ?_⟩⟩
      rcases r with e | v
      · exact ⟨rfl, rfl, rfl, hfail _⟩
      · exact ⟨rfl, rfl, rfl, .inl ⟨rfl, rfl⟩⟩
    · exact ⟨rfl, rfl, rfl, hfail _⟩

/-- Every operation keeps to the protocol, and leaves off without the lock and with nothing of its
own staged. -/
theorem VaultOp.keeps (hV : C.VaultLaws) (op : VaultOp Addr) :
    (op.body C).Keeps (protocol C) (Finished C op) { op } := by
  cases op with
  | create key password seed =>
    refine (FsM.keeps_bind _ _ _).mpr ((keeps_create hV key password seed).mono fun r g h => ?_)
    obtain ⟨⟨hop, hres⟩, hlocked, hstaged⟩ := h
    rcases hres with ⟨rfl, hpromoted⟩ | ⟨⟨e, rfl⟩, hpromoted⟩
    · exact ⟨hop, hlocked, hstaged, .inl ⟨rfl, hpromoted⟩⟩
    · exact ⟨hop, hlocked, hstaged, .inr ⟨⟨e, rfl⟩, hpromoted⟩⟩
  | openKey addr password =>
    refine (FsM.keeps_bind _ _ _).mpr ?_
    refine (ReadOnly.keeps (openKey_readOnly addr password) rfl rfl).mono fun r g h => ?_
    subst h
    rcases r with e | key <;> exact ⟨rfl, rfl, rfl, trivial⟩
  | forget addr =>
    refine (FsM.keeps_bind _ _ _).mpr ((keeps_forget addr).mono fun r g h => ?_)
    obtain ⟨hop, hlocked, hstaged, ⟨rfl, hremoved⟩ | ⟨⟨e, rfl⟩, hremoved⟩⟩ := h
    · exact ⟨hop, hlocked, hstaged, .inl ⟨rfl, hremoved⟩⟩
    · exact ⟨hop, hlocked, hstaged, .inr ⟨⟨e, rfl⟩, hremoved⟩⟩
  | accounts =>
    refine (FsM.keeps_bind _ _ _).mpr ?_
    refine (ReadOnly.keeps accounts_readOnly rfl rfl).mono fun r g h => ?_
    subst h
    rcases r with e | l <;> exact ⟨rfl, rfl, rfl, trivial⟩

end AccountLogUi.Vault
