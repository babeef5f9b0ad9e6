import AccountLogUi.Manager.Calls
import AccountLogUi.Manager.Equiv.Data
import AccountLogUi.Manager.Equiv.Sparing

/-!
# What one account's calls have to do with another's

The same calls made in two worlds alike for an account leave them alike for it (`Alike.after`): a
call about the account is in step in both, and a call about another leaves each alike to what it
was.  So an operation on one account is nothing to the others, then or later
(`accounts_do_not_interfere`), and a list of observed accounts that is broken is nothing to an
account whose key is held (`broken_list_takes_nothing`).
-/

namespace AccountLogUi

open Manager Vault Observed

variable {Addr : Type} [DecidableEq Addr] {C : Crates Addr} {addr : Addr} {k : Leeway}
  {w w' v v' : World Addr}

/-! ### Weather -/

/-- Whatever the service will give a fetch goes on from the record. -/
def Weather.Appends (record : AccountRecord) (weather : Weather Addr) : Prop :=
  ∀ turn ∈ weather.turns, ∀ fetched, turn.fetch = .ok fetched → GoesOn record fetched

/-- What others publish in memory leaves two stores alike that were. -/
theorem published_alike {store store' : MemoryStore Addr}
    (h : store'.held addr = store.held addr) (published : List (Addr × SignedAccountLog)) :
    (published.foldl (fun store (addr, log) => (store.publish addr log).2) store').held addr =
      (published.foldl (fun store (addr, log) => (store.publish addr log).2) store).held addr := by
  induction published generalizing store store' with
  | nil => exact h
  | cons entry published ih =>
    obtain ⟨other, log⟩ := entry
    refine ih ?_
    dsimp only
    by_cases hother : addr = other
    · subst hother
      have hturns : (Store.memory store').turns = (Store.memory store).turns := rfl
      exact (Store.publish_alike hturns h log).2.2
    · exact (Store.held_publish_ne (.memory store') hother log).trans
        (h.trans (Store.held_publish_ne (.memory store) hother log).symm)

theorem put_alike {logs logs' : List (Addr × SignedAccountLog)}
    (h : MemoryStore.held ⟨logs'⟩ addr = MemoryStore.held ⟨logs⟩ addr)
    (published : List (Addr × SignedAccountLog)) :
    MemoryStore.held ⟨published.foldl (fun logs (addr, log) => MemoryStore.put addr log logs) logs'⟩
        addr =
      MemoryStore.held
        ⟨published.foldl (fun logs (addr, log) => MemoryStore.put addr log logs) logs⟩
        addr := by
  induction published generalizing logs logs' with
  | nil => exact h
  | cons entry published ih =>
    obtain ⟨other, log⟩ := entry
    refine ih ?_
    dsimp only
    by_cases hother : addr = other
    · subst hother
      rw [Store.held_put_self, Store.held_put_self]
    · rw [Store.held_put_ne _ hother, Store.held_put_ne _ hother, h]

theorem published_goesOn {store : MemoryStore Addr} {record : AccountRecord}
    (h : GoesOn record (store.held addr)) (published : List (Addr × SignedAccountLog)) :
    GoesOn record
      ((published.foldl
        (fun store (addr, log) => (store.publish addr log).2) store).held addr) := by
  induction published generalizing store with
  | nil => exact h
  | cons entry published ih =>
    obtain ⟨other, log⟩ := entry
    refine ih ?_
    dsimp only
    by_cases hother : addr = other
    · subst hother
      have happends : (Store.memory store).Appends addr record := h
      exact happends.publish log
    · have hheld := Store.held_publish_ne (.memory store) hother log
      have hsame : (store.publish other log).2.held addr = store.held addr := hheld
      rw [hsame]
      exact h

theorem Store.turns_under {store store' : Store Addr}
    (hkind : store'.turns.isSome = store.turns.isSome) (weather : Weather Addr) :
    (store'.under weather).turns = (store.under weather).turns := by
  rcases store with store | store <;> rcases store' with store' | store'
  · rfl
  · cases hkind
  · cases hkind
  · rfl

theorem Store.appends_under {record : AccountRecord} {weather : Weather Addr}
    (hweather : weather.Appends record) {store : Store Addr}
    (h : (store.under weather).turns = none → (store.under weather).Appends addr record) :
    (store.under weather).Appends addr record := by
  rcases store with store | store
  · exact hweather
  · exact h rfl

/-- Worlds that are alike stay so in the same weather. -/
theorem Alike.under (h : Alike C addr k w w') (weather : Weather Addr) :
    Alike C addr k (w.under weather) (w'.under weather) := by
  obtain ⟨core, disk, store, now, asked⟩ := w
  obtain ⟨core', disk', store', now', asked'⟩ := w'
  obtain ⟨hfs, hcore, hkind, hheld, happended⟩ := h
  rcases store with store | store
  · rcases store' with store' | store'
    · exact ⟨hfs, hcore, rfl, put_alike hheld _, fun _ _ hnone => by cases hnone⟩
    · cases hkind
  · rcases store' with store' | store'
    · cases hkind
    · exact ⟨hfs, hcore, rfl, published_alike hheld _,
        fun record hkept _ => published_goesOn (happended record hkept rfl) _⟩

/-- And in step, where what the service gives goes on from a record kept. -/
theorem Alike.inStep (h : Alike C addr k w w') {weather : Weather Addr}
    (happends : ∀ record ∈ k.kept, weather.Appends record) :
    InStep C addr k (w.under weather) (w'.under weather) := by
  refine ⟨h.under weather, rfl, rfl, Store.turns_under h.kind weather, fun record hkept => ?_⟩
  exact Store.appends_under (happends record hkept) ((h.under weather).appended record hkept)

theorem Reachable.under (h : Reachable C w) (weather : Weather Addr) :
    Reachable C (w.under weather) := .elsewhere h rfl

/-! ### Calls made in both -/

/-- Worlds alike to two that are alike. -/
theorem Alike.both (h : Alike C addr k w w') (hv : Alike C addr .strict w v)
    (hv' : Alike C addr .strict w' v') : Alike C addr k v v' where
  fs := {
    files := (hv.fs.files.symm.trans h.fs.files).trans hv'.fs.files
    lists := fun hk => ((hv.fs.lists rfl).symm.trans (h.fs.lists hk)).trans (hv'.fs.lists rfl) }
  core := by
    -- Worlds strictly alike hold the same record; only the two in the middle may differ in it.
    have hkept : ∀ {core core' : AccountCore Addr}, CoreAlike C addr .strict core core' →
        core'.resolver addr = core.resolver addr := by
      intro core core' halike
      refine halike.resolver.resolve_right ?_
      rintro ⟨record, hnone, -⟩
      cases hnone
    refine ⟨?_, ?_, ?_, ?_, ?_, ?_, ?_⟩
    · rw [hv'.core.read, h.core.read, hv.core.read]
    · rw [hv'.core.staged, h.core.staged, hv.core.staged]
    · rw [hv'.core.dropped, h.core.dropped, hv.core.dropped]
    · rw [hv'.core.unlocked, h.core.unlocked, hv.core.unlocked]
    · rw [hv'.core.written, h.core.written, hv.core.written]
    · rw [hkept hv.core, hkept hv'.core]
      refine h.core.resolver.imp_right fun ⟨record, hrecord, hm⟩ => ⟨record, hrecord, ?_⟩
      exact ⟨(hkept hv.core).trans hm.kept, (hkept hv'.core).trans hm.fresh,
        hv.core.answered_eq.trans hm.unread, hv.core.written.trans hm.idle, hm.decoded⟩
    · intro key hkey
      rw [hv.core.unlocked] at hkey
      exact h.core.own key hkey
  kind := hv'.kind.trans (h.kind.trans hv.kind.symm)
  held := hv'.held.trans (h.held.trans hv.held.symm)
  appended record hkept hmemory := by
    have hkind := hv.kind
    have hheld := hv.held
    have happended := h.appended record hkept
    rcases hstore : v.store with store | store
    · rw [hstore] at hmemory
      cases hmemory
    rcases hstore' : w.store with store' | store'
    · rw [hstore, hstore'] at hkind
      cases hkind
    · rw [hstore, hstore'] at hheld
      rw [hstore'] at happended
      have hsame : store.held addr = store'.held addr := hheld
      show GoesOn record (store.held addr)
      rw [hsame]
      exact happended rfl

/-- The same call, made in two worlds alike for an account: about the account, or about another. -/
theorem Alike.call (hV : C.VaultLaws) (hL : C.LogLaws) (hA : C.AccountLaws)
    (hfirst : ∀ record ∈ k.kept, C.ChecksFirst) (h : Alike C addr k w w') (hw : Reachable C w)
    (hw' : Reachable C w') (call : Call Addr)
    (hguard : call.op.Concerns C addr → Guarded C addr k w ∧ (call.op.AsksLists → k.lists = false) ∧
      ∀ record ∈ k.kept, call.weather.Appends record) :
    Alike C addr k (call.run C w).2 (call.run C w').2 := by
  by_cases hop : call.op.Concerns C addr
  · obtain ⟨hguard, hlists, happends⟩ := hguard hop
    have hmatched := CoreOp.lockstep hV hL hA hfirst (h.inStep happends) hguard call.op hop hlists
    exact hmatched.snd (fun _ _ h => h.toAlike) fun _ _ _ _ h => h.2.toAlike
  · exact (h.under call.weather).both
      (CoreOp.spares hV hL hA (hw.under call.weather) call.op hop)
      (CoreOp.spares hV hL hA (hw'.under call.weather) call.op hop)

/-- A call about the account is answered the same in both. -/
theorem Alike.answer_eq (hV : C.VaultLaws) (hL : C.LogLaws) (hA : C.AccountLaws)
    (hfirst : ∀ record ∈ k.kept, C.ChecksFirst) (h : Alike C addr k w w') (call : Call Addr)
    (hop : call.op.Concerns C addr) (hguard : Guarded C addr k w)
    (hlists : call.op.AsksLists → k.lists = false)
    (happends : ∀ record ∈ k.kept, call.weather.Appends record) :
    (call.run C w').1 = (call.run C w).1 :=
  (CoreOp.lockstep hV hL hA hfirst (h.inStep happends) hguard call.op hop hlists).fst_eq

/-- The list of accounts asks nothing of the store. -/
theorem World.row_congr (hcore : w'.core = w.core) (hdisk : w'.disk = w.disk) :
    w'.row C addr = w.row C addr := by
  obtain ⟨core, disk, store, now, asked⟩ := w
  obtain ⟨core', disk', store', now', asked'⟩ := w'
  obtain rfl : core' = core := hcore
  obtain rfl : disk' = disk := hdisk
  have hrows : ((Manager.accounts C).on ⟨core', disk', store', now', asked'⟩).1 =
      ((Manager.accounts C).on ⟨core', disk', store, now, asked⟩).1 := by
    unfold Manager.accounts
    rw [Action.on_bind, Action.on_bind, vault_on, vault_on]
    rcases (disk'.run (Vault.accounts C).run).1 with e | held
    · rfl
    dsimp only [Except.mapError]
    rw [Action.on_bind, Action.on_bind, observed_on, observed_on]
    rcases ((disk'.run (Vault.accounts C).run).2.run (list C).run).1 with e | listed
    · rfl
    · rfl
  unfold World.row
  rw [hrows]

/-- The account has the same row in both. -/
theorem Alike.row_eq (hV : C.VaultLaws) (h : Alike C addr k w w') (hlists : k.lists = false)
    (weather : Weather Addr) :
    (w'.under weather).row C addr = (w.under weather).row C addr := by
  -- No request is made, so the service may as well answer none.
  let calm : Weather Addr := { weather with turns := [] }
  have happends : ∀ record ∈ k.kept, calm.Appends record := by
    intro record _ turn hturn
    cases hturn
  have hmatched := accounts_on_alike hV (h.inStep happends) hlists
  have hcalm : (w'.under calm).row C addr = (w.under calm).row C addr := by
    unfold World.row
    generalize (Manager.accounts C).on (w.under calm) = x at hmatched ⊢
    generalize (Manager.accounts C).on (w'.under calm) = y at hmatched ⊢
    rcases hmatched with hrows | -
    · exact congrArg Except.ok hrows.1
    · rfl
  calc (w'.under weather).row C addr
    _ = (w'.under calm).row C addr := World.row_congr rfl rfl
    _ = (w.under calm).row C addr := hcalm
    _ = (w.under weather).row C addr := World.row_congr rfl rfl

/-- Worlds alike for an account, whatever calls are made in both of them. -/
theorem Alike.after (hV : C.VaultLaws) (hL : C.LogLaws) (hA : C.AccountLaws)
    (hfirst : ∀ record ∈ k.kept, C.ChecksFirst) (hlists : k.lists = false)
    (h : Alike C addr k w w') (hw : Reachable C w) (hw' : Reachable C w') (calls : List (Call Addr))
    (happends : ∀ call ∈ calls, call.op.Concerns C addr →
      ∀ record ∈ k.kept, call.weather.Appends record) :
    Alike C addr k (w.after C calls) (w'.after C calls) := by
  induction calls generalizing w w' with
  | nil => exact h
  | cons call calls ih =>
    rw [List.forall_mem_cons] at happends
    have hcall := h.call hV hL hA hfirst hw hw' call fun hop =>
      ⟨.inl hlists, fun _ => hlists, happends.1 hop⟩
    exact ih hcall (.op call.op (hw.under _)) (.op call.op (hw'.under _)) happends.2

/-! ### Other accounts -/

/-- Whatever an operation that does not name an account did, and however it failed, the account is
as if it had not been made: its screen and its row are what they were, and so are the answers of all
later calls about it, whatever other calls are made in between. -/
theorem accounts_do_not_interfere (hV : C.VaultLaws) (hL : C.LogLaws) (hA : C.AccountLaws)
    (h : Reachable C w) (op : CoreOp Addr) (hop : ¬op.Concerns C addr)
    (earlier : List (Call Addr)) :
    (∀ call : Call Addr, call.op.Concerns C addr →
      (call.run C ((op.run C w).2.after C earlier)).1 = (call.run C (w.after C earlier)).1) ∧
    ∀ weather, (((op.run C w).2.after C earlier).under weather).row C addr =
      ((w.after C earlier).under weather).row C addr := by
  have halike := (CoreOp.spares hV hL hA h op hop).after hV hL hA Leeway.strict_kept rfl h
    (.op op h)
    earlier fun _ _ _ => Leeway.strict_kept
  refine ⟨fun call hcall => ?_, fun weather => ?_⟩
  · exact halike.answer_eq hV hL hA Leeway.strict_kept call hcall (.inl rfl)
      (fun _ => rfl) Leeway.strict_kept
  · exact halike.row_eq hV rfl weather

/-- Two accounts, one with a name staged. -/
def twoAccounts : World Reference.Addr :=
  CoreOp.runs Crates.reference [.createAccount (Reference.someKey 1) (some "pw") 0,
    .createAccount (Reference.someKey 2) none 0,
    .stageSetDisplayName ⟨(Reference.someKey 2).bytes⟩ "Saro"] (World.start [])

theorem accounts_do_not_interfere_forget :
    let earlier : List (Call Reference.Addr) :=
      [⟨.stageSetDisplayName ⟨(Reference.someKey 2).bytes⟩ "Raya", ⟨[], [], 0, []⟩⟩]
    let forgotten := (CoreOp.forgetAccount ⟨(Reference.someKey 1).bytes⟩).run Crates.reference
      twoAccounts
    (∀ call : Call Reference.Addr,
      call.op.Concerns Crates.reference ⟨(Reference.someKey 2).bytes⟩ →
      (call.run Crates.reference (forgotten.2.after Crates.reference earlier)).1 =
        (call.run Crates.reference (twoAccounts.after Crates.reference earlier)).1) ∧
    ∀ weather, ((forgotten.2.after Crates.reference earlier).under weather).row
        Crates.reference ⟨(Reference.someKey 2).bytes⟩ =
      ((twoAccounts.after Crates.reference earlier).under weather).row Crates.reference
        ⟨(Reference.someKey 2).bytes⟩ := by
  intro earlier forgotten
  have hne : ¬(CoreOp.forgetAccount ⟨(Reference.someKey 1).bytes⟩ : CoreOp Reference.Addr).Concerns
      Crates.reference ⟨(Reference.someKey 2).bytes⟩ := by
    intro heq
    have hsame : (⟨(Reference.someKey 1).bytes⟩ : Reference.Addr) = ⟨(Reference.someKey 2).bytes⟩ :=
      heq
    revert hsame
    decide
  exact accounts_do_not_interfere Reference.vaultLaws Reference.logLaws Reference.accountLaws
    (Reachable.runs (.fresh rfl) _) _ hne earlier

end AccountLogUi
