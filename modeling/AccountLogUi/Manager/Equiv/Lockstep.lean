import AccountLogUi.Manager.Equiv.Alike
import AccountLogUi.Manager.Equiv.Showing

/-!
# Operations in lockstep

An operation on an account, run in two worlds in step for it, answers the same and leaves them in
step (`CoreOp.lockstep`), whatever fails.  A read of the store is what brings a record kept from
before back into step: where it lands, both resolvers hold the log it gave (`resolve_alike`).
-/

namespace AccountLogUi

open Manager Vault Observed

variable {Addr : Type} [DecidableEq Addr] {C : Crates Addr} {addr : Addr} {k : Leeway}
  {w w' : World Addr}

/-! ### Requests -/

/-- The store is asked the same in both, and answers the same. -/
theorem InStep.withStore (h : InStep C addr k w w') {store store' : Store Addr}
    (hheld : store'.held addr = store.held addr) (hturns : store'.turns = store.turns)
    (happends : ∀ record ∈ k.kept, store.Appends addr record)
    (asked asked' : List (Request Addr)) :
    InStep C addr k { w with store := store, asked := asked }
      { w' with store := store', asked := asked' } :=
  ⟨⟨h.fs, h.core, congrArg Option.isSome hturns, hheld, fun record hkept _ =>
    happends record hkept⟩,
    h.faults, h.now, hturns, happends⟩

namespace Store

variable {store store' : Store Addr}

/-- Stores with the same to come answer a fetch the same. -/
theorem fetch_alike (hturns : store'.turns = store.turns)
    (hheld : store'.held addr = store.held addr) :
    (store'.fetch addr).1 = (store.fetch addr).1 ∧
      (store'.fetch addr).2.turns = (store.fetch addr).2.turns := by
  rcases store with ⟨logs, turns⟩ | store
  · rcases store' with ⟨logs', turns'⟩ | store'
    · obtain rfl : turns' = turns := Option.some.inj hturns
      exact ⟨rfl, rfl⟩
    · cases hturns
  · rcases store' with store' | store'
    · cases hturns
    · exact ⟨congrArg Except.ok hheld, rfl⟩

theorem Appends.fetch {record : AccountRecord} (h : store.Appends addr record) :
    (store.fetch addr).2.Appends addr record ∧
      ∀ fetched, (store.fetch addr).1 = .ok fetched → GoesOn record fetched := by
  rcases store with ⟨logs, turns⟩ | store
  · refine ⟨fun turn hturn => h turn (List.mem_of_mem_tail hturn), fun fetched hfetched => ?_⟩
    rcases turns with - | ⟨turn, turns⟩
    · cases hfetched
    · exact h turn List.mem_cons_self fetched hfetched
  · refine ⟨h, fun fetched hfetched => ?_⟩
    obtain rfl := Except.ok.inj hfetched
    exact h

/-- Stores with the same to come make the same of a publish. -/
theorem publish_alike (hturns : store'.turns = store.turns)
    (hheld : store'.held addr = store.held addr) (log : SignedAccountLog) :
    (store'.publish addr log).1 = (store.publish addr log).1 ∧
      (store'.publish addr log).2.turns = (store.publish addr log).2.turns ∧
      (store'.publish addr log).2.held addr = (store.publish addr log).2.held addr := by
  rcases store with ⟨logs, turns⟩ | store
  · rcases store' with ⟨logs', turns'⟩ | store'
    · obtain rfl : turns' = turns := Option.some.inj hturns
      refine ⟨rfl, rfl, ?_⟩
      show MemoryStore.held ⟨if ChatStore.lands _ then _ else _⟩ addr =
        MemoryStore.held ⟨if ChatStore.lands _ then _ else _⟩ addr
      have hturn :
          ChatStore.turn (⟨logs', turns'⟩ : ChatStore Addr) = ChatStore.turn ⟨logs, turns'⟩ :=
        rfl
      rw [hturn]
      split
      · rw [held_put_self, held_put_self]
      · exact hheld
    · cases hturns
  · rcases store' with store' | store'
    · cases hturns
    · have hheld' : store'.held addr = store.held addr := hheld
      show (store'.publish addr log).1 = (store.publish addr log).1 ∧ _ ∧
        (store'.publish addr log).2.held addr = (store.publish addr log).2.held addr
      unfold MemoryStore.publish
      rw [hheld']
      rcases store.held addr with - | existing
      · refine ⟨rfl, rfl, ?_⟩
        show MemoryStore.held _ addr = MemoryStore.held _ addr
        rw [held_put_self, held_put_self]
      · dsimp only
        split
        · refine ⟨rfl, rfl, ?_⟩
          show MemoryStore.held _ addr = MemoryStore.held _ addr
          rw [held_put_self, held_put_self]
        · exact ⟨rfl, rfl, hheld'⟩

/-- A publish only appends to a log in memory. -/
theorem Appends.publish {record : AccountRecord} (h : store.Appends addr record)
    (log : SignedAccountLog) : (store.publish addr log).2.Appends addr record := by
  rcases store with ⟨logs, turns⟩ | store
  · exact fun turn hturn => h turn (List.mem_of_mem_tail hturn)
  · obtain ⟨existing, hexisting, hprefix⟩ := h
    show GoesOn record ((store.publish addr log).2.held addr)
    unfold MemoryStore.publish
    rw [hexisting]
    dsimp only
    split
    · next hextends =>
      exact ⟨log, held_put_self _ _ _, hprefix.trans (List.isPrefixOf_iff_prefix.mp hextends)⟩
    · exact ⟨existing, hexisting, hprefix⟩

end Store

/-! ### Reading the store -/

/-- The same is fetched, and it goes on from a record kept. -/
theorem InStep.fetch (h : InStep C addr k w w') :
    Matched (InStep C addr k) (fun fetched fetched' v v' => fetched' = fetched ∧
        InStep C addr k v v' ∧ v.core.resolver = w.core.resolver ∧
        v'.core.resolver = w'.core.resolver ∧
        ∀ record ∈ k.kept, w.core.written = none → GoesOn record fetched)
      (w.fetch addr) (w'.fetch addr) := by
  have hstore : Matched (InStep C addr k) (fun fetched fetched' v v' => fetched' = fetched ∧
        InStep C addr k v v' ∧ v.core.resolver = w.core.resolver ∧
        v'.core.resolver = w'.core.resolver ∧
        ∀ record ∈ k.kept, w.core.written = none → GoesOn record fetched)
      ((w.store.fetch addr).1,
        { w with store := (w.store.fetch addr).2, asked := .fetched addr :: w.asked })
      ((w'.store.fetch addr).1,
        { w' with store := (w'.store.fetch addr).2, asked := .fetched addr :: w'.asked }) := by
    obtain ⟨hanswer, hturns⟩ := Store.fetch_alike h.turns h.held
    have hheld : (w'.store.fetch addr).2.held addr = (w.store.fetch addr).2.held addr := by
      rw [Store.held_fetch, Store.held_fetch, h.held]
    have hstep := h.withStore hheld hturns (fun record hkept => (h.appends record hkept).fetch.1)
      (.fetched addr :: w.asked) (.fetched addr :: w'.asked)
    rw [hanswer]
    rcases hfetched : (w.store.fetch addr).1 with e | fetched
    · exact .error hstep
    · exact .ok ⟨rfl, hstep, rfl, rfl, fun record hkept _ =>
        (h.appends record hkept).fetch.2 fetched hfetched⟩
  unfold World.fetch
  rw [h.core.written]
  rcases hwritten : w.core.written with - | ⟨held, log⟩
  · rw [hwritten] at hstore
    exact hstore
  dsimp only
  split
  · -- A log handed over leaves no record to be kept.
    have hresolver : w'.core.resolver addr = w.core.resolver addr := by
      refine h.core.resolver.resolve_right ?_
      rintro ⟨record, -, hmasked⟩
      rw [hmasked.idle] at hwritten
      cases hwritten
    exact .ok ⟨rfl, h.withCore (h.core.handed hresolver none), rfl, rfl,
      fun _ _ hnone => by cases hnone⟩
  · rw [hwritten] at hstore
    exact hstore

/-- Where a read lands, the resolvers hold the same. -/
theorem InStep.resolve (hL : C.LogLaws) (hA : C.AccountLaws)
    (hfirst : ∀ record ∈ k.kept, C.ChecksFirst) (h : InStep C addr k w w') :
    Matched (InStep C addr k) (Same fun v v' => InStep C addr k v v' ∧
        v'.core.resolver addr = v.core.resolver addr)
      (w.resolve C addr) (w'.resolve C addr) := by
  have hfetch := h.fetch
  unfold World.resolve
  generalize w.fetch addr = x at hfetch ⊢
  generalize w'.fetch addr = y at hfetch ⊢
  rcases hfetch with ⟨rfl, hstep, hresolver, hresolver', hgoes⟩ | hstep
  · rename_i fetched v v'
    dsimp only
    -- Both resolvers make the same of what was fetched.
    have hsame : C.resolve addr (v'.core.resolver addr) fetched =
        C.resolve addr (v.core.resolver addr) fetched := by
      rw [hresolver, hresolver']
      rcases h.core.resolver with heq | ⟨record, hkept, hmasked⟩
      · rw [heq]
      obtain ⟨signed, rfl, hprefix⟩ := hgoes record hkept hmasked.idle
      rw [hmasked.kept, hmasked.fresh]
      rcases hverify : C.verify addr signed with e | log
      · rw [hfirst record hkept hverify, hfirst record hkept hverify]
      · rw [hA.resolve_extends hverify (by simp), hA.resolve_extends hverify]
        rintro record' hrecord'
        obtain rfl := Option.some.inj hrecord'
        exact hL.decode_prefix hmasked.decoded (hA.verify_decode hverify) hprefix
    rw [hsame]
    rcases C.resolve addr (v.core.resolver addr) fetched with e | held
    · exact .error hstep
    · exact .ok ⟨rfl, hstep.withCore (hstep.core.adopted held), CoreAlike.update_alike held⟩
  · exact .error hstep

theorem InStep.readStore (hL : C.LogLaws) (hA : C.AccountLaws)
    (hfirst : ∀ record ∈ k.kept, C.ChecksFirst) (h : InStep C addr k w w') :
    Matched (InStep C addr k) (Same fun v v' => InStep C addr k v v' ∧
        v'.core.resolver addr = v.core.resolver addr)
      (w.readStore C addr) (w'.readStore C addr) := by
  have hread := h.resolve hL hA hfirst
  unfold World.readStore
  generalize w.resolve C addr = x at hread ⊢
  generalize w'.resolve C addr = y at hread ⊢
  rcases hread with ⟨rfl, hstep, hresolver⟩ | hstep
  · rename_i u v v'
    dsimp only
    have hcore : CoreAlike C addr k
        (AccountCore.settle C { v.core with
          read := Function.update v.core.read addr (some ⟨some v.now, none⟩) } addr)
        (AccountCore.settle C { v'.core with
          read := Function.update v'.core.read addr (some ⟨some v'.now, none⟩) } addr) := by
      rw [hstep.now]
      exact (hstep.core.landed hresolver _).settle hresolver
    refine .ok ⟨rfl, hstep.withCore hcore, ?_⟩
    show (AccountCore.settle C _ addr).resolver addr = (AccountCore.settle C _ addr).resolver addr
    rw [(settle_fields _ addr).1, (settle_fields _ addr).1]
    exact hresolver
  · exact .error (hstep.withCore (hstep.core.failed _))

/-! ### Writing to the store -/

/-- The same log is handed to the store, which makes the same of it. -/
theorem InStep.writeLog (h : InStep C addr k w w')
    (hresolver : w'.core.resolver addr = w.core.resolver addr) {key : Ed25519SigningKey}
    (haddr : C.addrOf key = addr) (base : Option SignedAccountLog) (entries : List AccountEntry) :
    Matched (InStep C addr k) (Same fun v v' => InStep C addr k v v' ∧
        v'.core.resolver addr = v.core.resolver addr)
      (w.writeLog C key base entries) (w'.writeLog C key base entries) := by
  unfold World.writeLog
  rcases C.update key base entries with e | signed
  · exact .error h
  dsimp only
  rw [haddr]
  obtain ⟨hanswer, hturns, hheld⟩ := Store.publish_alike h.turns h.held signed
  have hstep := h.withStore hheld hturns (fun record hkept =>
    (h.appends record hkept).publish signed)
    (.published addr signed :: w.asked) (.published addr signed :: w'.asked)
  rw [hanswer]
  rcases (w.store.publish addr signed).1 with e | u
  · exact .error hstep
  · exact .ok ⟨rfl, hstep, hresolver⟩

namespace Manager

/-! ### Operations on the account -/

theorem takeDropped_alike (h : InStep C addr k w w') :
    Matched (InStep C addr k) (fun n n' v v' => n' = n ∧ InStep C addr k v v' ∧
        v.core.resolver = w.core.resolver ∧ v'.core.resolver = w'.core.resolver)
      ((takeDropped addr).on w) ((takeDropped addr).on w') := by
  rw [takeDropped_on, takeDropped_on, h.core.dropped]
  exact .ok ⟨rfl, h.withCore h.core.collected, rfl, rfl⟩

theorem readStore_alike (hL : C.LogLaws) (hA : C.AccountLaws)
    (hfirst : ∀ record ∈ k.kept, C.ChecksFirst) (h : InStep C addr k w w') :
    Matched (InStep C addr k) (Same fun v v' => InStep C addr k v v' ∧
        v'.core.resolver addr = v.core.resolver addr)
      ((readStore C addr).on w) ((readStore C addr).on w') :=
  Matched.calling (h.readStore hL hA hfirst)

theorem restage_alike (h : InStep C addr k w w') (staged : List StagedEdit) :
    Matched (InStep C addr k) (Same (InStep C addr k)) ((restage C addr staged).on w)
      ((restage C addr staged).on w') := by
  unfold restage
  rw [Action.on_look_bind, Action.on_look_bind, h.core.fits_eq]
  refine Matched.orFail_bind h fun _ _ => ?_
  exact Matched.change ⟨rfl, h.withCore (h.core.restaged _)⟩

theorem exportAccount_alike (hV : C.VaultLaws) (h : InStep C addr k w w')
    (hguard : Guarded C addr k w) (password : Option String) :
    Matched (InStep C addr k) (Same (InStep C addr k)) ((exportAccount C addr password).on w)
      ((exportAccount C addr password).on w') := by
  unfold exportAccount
  refine (requireManaged_alike hV h hguard).bind ?_
  rintro u - v v' ⟨rfl, hstep⟩
  refine (openKey_on_alike hV hstep password .vault).bind ?_
  rintro key - v v' ⟨rfl, -, hstep⟩
  exact Matched.pure ⟨rfl, hstep⟩

theorem unlock_alike (hV : C.VaultLaws) (h : InStep C addr k w w') (hguard : Guarded C addr k w)
    (password : String) :
    Matched (InStep C addr k) (Same (InStep C addr k)) ((unlock C addr password).on w)
      ((unlock C addr password).on w') := by
  unfold unlock
  refine (requireManaged_alike hV h hguard).bind ?_
  rintro u - v v' ⟨rfl, hstep⟩
  refine (openKey_on_alike hV hstep (some password) .vault).bind ?_
  rintro _ key v v' ⟨rfl, haddr, hstep⟩
  exact Matched.change ⟨rfl, hstep.withCore (hstep.core.opened haddr)⟩

theorem refresh_alike (hV : C.VaultLaws) (hL : C.LogLaws) (hA : C.AccountLaws)
    (hfirst : ∀ record ∈ k.kept, C.ChecksFirst) (h : InStep C addr k w w')
    (hguard : Guarded C addr k w) :
    Matched (InStep C addr k) (Same (InStep C addr k)) ((refresh C addr).on w)
      ((refresh C addr).on w') := by
  unfold refresh
  refine (requireKnown_alike hV h hguard).bind ?_
  rintro u - v v' ⟨rfl, hstep⟩
  refine (readStore_alike hL hA hfirst hstep).bind ?_
  rintro u - v v' ⟨rfl, hstep, -⟩
  exact (takeDropped_alike hstep).mono (fun _ _ h => h) fun _ _ _ _ hQ => ⟨hQ.1, hQ.2.1⟩

theorem stageAddInstallation_alike (hV : C.VaultLaws) (h : InStep C addr k w w')
    (hguard : Guarded C addr k w) (keyHex : String) :
    Matched (InStep C addr k) (Same (InStep C addr k)) ((stageAddInstallation C addr keyHex).on w)
      ((stageAddInstallation C addr keyHex).on w') := by
  unfold stageAddInstallation
  refine (requireManaged_alike hV h hguard).bind ?_
  rintro u - v v' ⟨rfl, hstep⟩
  refine Matched.orFail_bind hstep fun key _ => ?_
  rw [Action.on_look_bind, Action.on_look_bind, hstep.core.extendable_eq, hstep.core.staged]
  refine Matched.orFail_bind hstep fun draft _ => ?_
  refine Matched.refuse_bind Iff.rfl hstep fun _ => ?_
  refine Matched.refuse_bind Iff.rfl hstep fun _ => ?_
  exact restage_alike hstep _

theorem stageSetDisplayName_alike (hV : C.VaultLaws) (h : InStep C addr k w w')
    (hguard : Guarded C addr k w) (name : String) :
    Matched (InStep C addr k) (Same (InStep C addr k)) ((stageSetDisplayName C addr name).on w)
      ((stageSetDisplayName C addr name).on w') := by
  unfold stageSetDisplayName
  refine (requireManaged_alike hV h hguard).bind ?_
  rintro u - v v' ⟨rfl, hstep⟩
  refine Matched.orFail_bind hstep fun name _ => ?_
  rw [Action.on_look_bind, Action.on_look_bind, hstep.core.extendable_eq, hstep.core.staged,
    hstep.core.liveName_eq]
  refine Matched.orFail_bind hstep fun draft _ => ?_
  dsimp only
  split
  · exact restage_alike hstep _
  · refine Matched.refuse_bind Iff.rfl hstep fun _ => ?_
    exact restage_alike hstep _

theorem stageRevoke_alike (hV : C.VaultLaws) (h : InStep C addr k w w')
    (hguard : Guarded C addr k w) (index : ℕ) :
    Matched (InStep C addr k) (Same (InStep C addr k)) ((stageRevoke C addr index).on w)
      ((stageRevoke C addr index).on w') := by
  unfold stageRevoke
  refine (requireManaged_alike hV h hguard).bind ?_
  rintro u - v v' ⟨rfl, hstep⟩
  rw [Action.on_look_bind, Action.on_look_bind, hstep.core.extendable_eq, hstep.core.staged]
  refine Matched.orFail_bind hstep fun draft _ => ?_
  refine Matched.refuse_bind Iff.rfl hstep fun _ => ?_
  refine Matched.refuse_bind Iff.rfl hstep fun _ => ?_
  exact restage_alike hstep _

theorem discardPending_alike (hV : C.VaultLaws) (h : InStep C addr k w w')
    (hguard : Guarded C addr k w) :
    Matched (InStep C addr k) (Same (InStep C addr k)) ((discardPending C addr).on w)
      ((discardPending C addr).on w') := by
  unfold discardPending
  refine (requireManaged_alike hV h hguard).bind ?_
  rintro u - v v' ⟨rfl, hstep⟩
  exact Matched.change ⟨rfl, hstep.withCore (hstep.core.restaged none)⟩

/-! ### Publishing -/

/-- The same update is planned, signed by the account's own key, on top of one record. -/
theorem planUpdate_alike (hV : C.VaultLaws) (hL : C.LogLaws) (hA : C.AccountLaws)
    (hfirst : ∀ record ∈ k.kept, C.ChecksFirst) (h : InStep C addr k w w')
    (hguard : Guarded C addr k w) :
    Matched (InStep C addr k) (fun planned planned' v v' => planned' = planned ∧
        InStep C addr k v v' ∧ v'.core.resolver addr = v.core.resolver addr ∧
        ∀ update, planned = .inr update → C.addrOf update.key = addr)
      ((planUpdate C addr).on w) ((planUpdate C addr).on w') := by
  unfold planUpdate
  refine (requireManaged_alike hV h hguard).bind ?_
  rintro u - v v' ⟨rfl, hstep⟩
  rw [Action.on_look_bind, Action.on_look_bind, hstep.core.staged]
  refine Matched.refuse_bind Iff.rfl hstep fun _ => ?_
  refine (signingKey_alike hV hstep).bind ?_
  rintro _ key v v' ⟨rfl, haddr, hstep⟩
  refine (readStore_alike hL hA hfirst hstep).bind ?_
  rintro u - v v' ⟨rfl, hstep, hresolver⟩
  rw [Action.on_look_bind, Action.on_look_bind, hstep.core.staged]
  rcases v.core.staged addr with - | staged
  · refine Matched.map (takeDropped_alike hstep) ?_
    rintro n - v v' ⟨rfl, hstep, hleft, hleft'⟩
    rw [hleft, hleft']
    exact ⟨rfl, hstep, hresolver, by simp⟩
  · dsimp only
    rw [hstep.core.fits_eq, hstep.core.extendable_eq, hstep.core.plannedEntries_eq,
      hstep.core.record_eq]
    refine Matched.orFail_bind hstep fun _ _ => ?_
    refine Matched.orFail_bind hstep fun draft _ => ?_
    refine Matched.pure ⟨rfl, hstep, hresolver, fun update hupdate => ?_⟩
    rw [← Sum.inr.inj hupdate]
    exact haddr

/-- The same update is written, and read back. -/
theorem writeUpdate_alike (hL : C.LogLaws) (hA : C.AccountLaws)
    (hfirst : ∀ record ∈ k.kept, C.ChecksFirst) (h : InStep C addr k w w')
    (hresolver : w'.core.resolver addr = w.core.resolver addr) {update : Update}
    (haddr : C.addrOf update.key = addr) :
    Matched (InStep C addr k) (Same (InStep C addr k)) ((writeUpdate C addr update).on w)
      ((writeUpdate C addr update).on w') := by
  unfold writeUpdate
  refine (Matched.calling (h.writeLog hresolver haddr update.base update.entries)).bind ?_
  rintro _ signed v v' ⟨rfl, hstep, hresolver⟩
  unfold changeCore
  rw [Action.on_change_bind, Action.on_change_bind]
  have hhanded := hstep.withCore ((hstep.core.restaged none).handed hresolver (some (addr, signed)))
  refine (Matched.calling (hhanded.resolve hL hA hfirst)).bind ?_
  rintro u - v v' ⟨rfl, hstep, -⟩
  refine (takeDropped_alike hstep).bind ?_
  rintro n - v v' ⟨rfl, hstep, -⟩
  exact Matched.pure ⟨rfl, hstep⟩

theorem publish_alike (hV : C.VaultLaws) (hL : C.LogLaws) (hA : C.AccountLaws)
    (hfirst : ∀ record ∈ k.kept, C.ChecksFirst) (h : InStep C addr k w w')
    (hguard : Guarded C addr k w) :
    Matched (InStep C addr k) (Same (InStep C addr k)) ((publish C addr).on w)
      ((publish C addr).on w') := by
  unfold publish
  refine (planUpdate_alike hV hL hA hfirst h hguard).bind ?_
  rintro _ planned v v' ⟨rfl, hstep, hresolver, haddr⟩
  rcases planned with published | update
  · exact Matched.pure ⟨rfl, hstep⟩
  · exact writeUpdate_alike hL hA hfirst hstep hresolver (haddr update rfl)

/-! ### Accounts taken in, forgotten and observed -/

/-- A program of the vault's that leaves the lists. -/
theorem vault_alike {α : Type} {p : FsM (VaultError Addr) α} (h : InStep C addr k w w')
    (hp : Disk.Matches (AlikeFor C addr) (Same (AlikeFor C addr)) p p w.disk w'.disk)
    (hlists : ∀ disk : Disk, (disk.run p.run).2.fs.node observedFile = disk.fs.node observedFile) :
    Matched (InStep C addr k) (Same (InStep C addr k)) ((vault p).on w) ((vault p).on w') := by
  have hleft : k.lists = false →
      ObservedAlike C addr (w.disk.run p.run).2.fs (w'.disk.run p.run).2.fs := fun hk =>
    (ObservedAlike.trans (.inl (hlists w.disk).symm) (h.fs.lists hk)).trans (.inl (hlists w'.disk))
  have hmatches : Disk.Matches (DiskAlike C addr k) (Same (DiskAlike C addr k)) p p w.disk
      w'.disk := by
    refine (hp.also (R := fun s t => k.lists = false → ObservedAlike C addr s.fs t.fs)
      hleft).mono ?_ ?_
    · exact fun s t hst => ⟨⟨hst.1.fs, hst.2⟩, hst.1.faults⟩
    · exact fun a b s t hst => ⟨⟨hst.1.fs.1, hst.1.fs.2, hst.2⟩, hst.1.faults⟩
  refine (h.vault hmatches fun _ _ _ _ hQ => hQ.2).mono (fun _ _ h => h) ?_
  exact fun a b v v' hQ => ⟨hQ.1.1, hQ.2⟩

theorem forgetAccount_alike (hV : C.VaultLaws) (h : InStep C addr k w w')
    (hguard : Guarded C addr k w) :
    Matched (InStep C addr k) (Same (InStep C addr k)) ((forgetAccount C addr).on w)
      ((forgetAccount C addr).on w') := by
  unfold forgetAccount
  refine (requireManaged_alike hV h hguard).bind ?_
  rintro u - v v' ⟨rfl, hstep⟩
  refine (vault_alike hstep (forget_alike hV ⟨hstep.fs.files, hstep.faults⟩)
    fun disk => (forget_run hV addr disk).1).bind ?_
  rintro u - v v' ⟨rfl, hstep⟩
  exact Matched.change ⟨rfl, hstep.withCore hstep.core.forgot⟩

theorem takeIn_alike (hV : C.VaultLaws) (h : InStep C addr k w w') {key : Ed25519SigningKey}
    (haddr : C.addrOf key = addr) (password : Option String) (seed : ℕ) :
    Matched (InStep C addr k)
      (fun taken taken' v v' => taken' = taken ∧ taken = addr ∧ InStep C addr k v v')
      ((takeIn C key password seed).on w) ((takeIn C key password seed).on w') := by
  subst haddr
  unfold takeIn
  have hcreated : ∀ taken, ((vault (create C key password seed)).on w).1 = .ok taken →
      taken = C.addrOf key := by
    intro taken htaken
    have hrun : (w.disk.run (create C key password seed).run).1 = .ok taken :=
      mapError_eq_ok.mp htaken
    have hres := (create_run hV key password seed w.disk).2
    rw [hrun] at hres
    exact hres.1
  have hvault := (vault_alike h (create_alike hV ⟨h.fs.files, h.faults⟩ password seed)
    fun disk => (create_run hV key password seed disk).1).answers hcreated fun _ _ => trivial
  refine hvault.bind ?_
  rintro taken - v v' ⟨⟨rfl, hstep⟩, rfl, -⟩
  unfold changeCore
  rw [Action.on_change_bind, Action.on_change_bind]
  refine Matched.pure ⟨rfl, rfl, ?_⟩
  dsimp only
  split
  · exact hstep.withCore (hstep.core.opened rfl)
  · exact hstep.withCore hstep.core

/-- A change to the lists that is about the account. -/
theorem change_on_alike (hV : C.VaultLaws) (h : InStep C addr k w w') (hlists : k.lists = false)
    (change : Change Addr) (haddr : change.addr = addr) :
    Matched (InStep C addr k) (Same (InStep C addr k)) ((observed (change.body C)).on w)
      ((observed (change.body C)).on w') := by
  subst haddr
  have hmatches := change_alike hV change ⟨h.fs.files, h.faults⟩ (h.fs.lists hlists)
  refine (Matched.calling (h.onDisk hmatches ?_ ?_)).mono (fun _ _ h => h) ?_
  · exact fun s t hst => ⟨hst.1, fun _ => hst.2⟩
  · exact fun a b s t hst => ⟨hst.2.1, fun _ => hst.2.2⟩
  · exact fun a b v v' hQ => ⟨hQ.1.1, hQ.2⟩

theorem observe_alike (hV : C.VaultLaws) (h : InStep C addr k w w') (hguard : Guarded C addr k w) :
    Matched (InStep C addr k) (Same (InStep C addr k)) ((observe C addr).on w)
      ((observe C addr).on w') := by
  unfold observe
  refine (manages_alike hV h hguard).bind ?_
  rintro _ managed v v' ⟨rfl, hstep, hlists⟩
  refine Matched.refuse_bind Iff.rfl hstep fun hmanaged => ?_
  exact change_on_alike hV hstep (hlists (by simpa using hmanaged)) (.add addr) rfl

theorem stopObserving_alike (hV : C.VaultLaws) (h : InStep C addr k w w')
    (hlists : k.lists = false) :
    Matched (InStep C addr k) (Same (InStep C addr k)) ((stopObserving C addr).on w)
      ((stopObserving C addr).on w') := by
  unfold stopObserving
  refine (change_on_alike hV h hlists (.remove addr) rfl).bind ?_
  rintro removed - v v' ⟨rfl, hstep⟩
  refine Matched.refuse_bind Iff.rfl hstep fun _ => ?_
  exact Matched.change ⟨rfl, hstep.withCore hstep.core.stopped⟩

theorem importAccount_alike (hV : C.VaultLaws) (h : InStep C addr k w w') (hlists : k.lists = false)
    {secretHex : String}
    (haddr : ∀ key, parseAccountKey secretHex = (.ok key : Except (CoreError Addr) _) →
      C.addrOf key = addr) (password : Option String) (seed : ℕ) :
    Matched (InStep C addr k) (Same (InStep C addr k))
      ((importAccount C secretHex password seed).on w)
      ((importAccount C secretHex password seed).on w') := by
  unfold importAccount
  refine Matched.orFail_bind h fun key hkey => ?_
  refine (takeIn_alike hV h (haddr key hkey) password seed).bind ?_
  rintro _ taken v v' ⟨rfl, htaken, hstep⟩
  refine (change_on_alike hV hstep hlists (.remove taken) htaken).bind ?_
  rintro removed - v v' ⟨rfl, hstep⟩
  exact Matched.pure ⟨rfl, hstep⟩

/-! ### What is drawn -/

theorem state_alike (hV : C.VaultLaws) (h : InStep C addr k w w') (hguard : Guarded C addr k w) :
    Matched (InStep C addr k) (Same (InStep C addr k)) ((state C addr).on w)
      ((state C addr).on w') := by
  unfold state
  refine (h.vault (accounts_alike hV h.related h.fs.files) fun _ _ _ _ hQ => hQ.1).bind ?_
  rintro l l' v v' ⟨⟨-, hs, -, hfind, hl, -⟩, hstep⟩
  dsimp only
  rw [hfind]
  generalize hheld : l.find? (·.addr = addr) = held
  have hknown : Matched (InStep C addr k) (Same (InStep C addr k))
      ((if held.isSome then return true else observes C addr : CoreM Addr Bool).on v)
      ((if held.isSome then return true else observes C addr : CoreM Addr Bool).on v') := by
    split
    · exact Matched.pure ⟨rfl, hstep⟩
    · next hnone =>
      refine observes_alike hstep (hguard.resolve_right ?_)
      rintro ⟨p, hp⟩
      rw [← hs] at hp
      have hfound : l.find? (·.addr = addr) = some ⟨addr, p⟩ :=
        (find?_listing hV hl).mpr ⟨rfl, hp⟩
      rw [hheld] at hfound
      exact hnone (by rw [hfound]; rfl)
  refine hknown.bind ?_
  rintro known - v v' ⟨rfl, hstep⟩
  refine Matched.refuse_bind Iff.rfl hstep fun _ => ?_
  rw [Action.on_look_bind, Action.on_look_bind]
  exact Matched.pure ⟨hstep.core.stateOf_eq held, hstep⟩

/-- The rows of a list of accounts that are one account's. -/
def rowsOf (C : Crates Addr) (addr : Addr) (rows : List AccountSummary) : List AccountSummary :=
  rows.filter (·.address = shownAs C addr)

theorem filter_addr {held : List (StoredAccount Addr)} (hnd : (held.map (·.addr)).Nodup) :
    held.filter (·.addr = addr) = (held.find? (·.addr = addr)).toList := by
  induction held with
  | nil => rfl
  | cons account held ih =>
    rw [List.map_cons, List.nodup_cons] at hnd
    by_cases haddr : account.addr = addr
    · have hnone : held.filter (·.addr = addr) = [] := by
        rw [List.filter_eq_nil_iff]
        intro other hother heq
        have hsame : other.addr = account.addr := (of_decide_eq_true heq).trans haddr.symm
        exact hnd.1 (hsame ▸ List.mem_map_of_mem hother)
      rw [List.filter_cons_of_pos (by simpa using haddr),
        List.find?_cons_of_pos (by simpa using haddr),
        hnone]
      rfl
    · rw [List.filter_cons_of_neg (by simpa using haddr),
        List.find?_cons_of_neg (by simpa using haddr),
        ih hnd.2]

theorem filter_listed {listed : List Addr} (hnd : listed.Nodup) :
    listed.filter (· = addr) = if addr ∈ listed then [addr] else [] := by
  rw [List.filter_eq]
  split
  · next hmem => rw [List.count_eq_one_of_mem hnd hmem, List.replicate_one]
  · next hmem => rw [List.count_eq_zero_of_not_mem hmem, List.replicate_zero]

/-- An account has a row for the key held of it, or one for being observed, or none. -/
theorem rowsOf_listed (hV : C.VaultLaws) {held : List (StoredAccount Addr)} {listed : List Addr}
    (hheld : (held.map (·.addr)).Nodup) (hlisted : listed.Nodup) (core : AccountCore Addr) :
    rowsOf C addr (heldRows C core held ++ observedRows C core held listed) =
      match held.find? (·.addr = addr) with
      | some account => [summaryOf C core addr (some account)]
      | none => if addr ∈ listed then [summaryOf C core addr none] else [] := by
  have hours : rowsOf C addr (heldRows C core held) =
      (held.find? (·.addr = addr)).toList.map fun account =>
        summaryOf C core account.addr (some account) := by
    unfold rowsOf heldRows
    rw [List.filter_map, ← filter_addr hheld]
    congr 2
    funext account
    exact decide_eq_decide.mpr (shownAs_inj hV)
  have hothers : rowsOf C addr (observedRows C core held listed) =
      ((listed.filter (· = addr)).filter fun addr => !held.any (·.addr = addr)).map fun addr =>
        summaryOf C core addr none := by
    unfold rowsOf observedRows
    rw [List.filter_map, List.filter_filter, List.filter_filter]
    congr 2
    funext other
    rw [Bool.and_comm]
    exact congrArg (_ && ·) (decide_eq_decide.mpr (shownAs_inj hV))
  have happend : rowsOf C addr (heldRows C core held ++ observedRows C core held listed) =
      rowsOf C addr (heldRows C core held) ++ rowsOf C addr (observedRows C core held listed) :=
    List.filter_append ..
  rw [happend, hours, hothers, filter_listed hlisted]
  have hany : held.any (·.addr = addr) = (held.find? (·.addr = addr)).isSome :=
    List.isSome_find?.symm
  generalize hfound : held.find? (·.addr = addr) = found at hany ⊢
  rcases found with - | account
  · split <;> simp [hany]
  · have haddr : account.addr = addr := by simpa using List.find?_some hfound
    split <;> simp [hany, haddr]

/-- Both list the account alike, or neither can list its accounts. -/
theorem accounts_on_alike (hV : C.VaultLaws) (h : InStep C addr k w w') (hlists : k.lists = false) :
    Matched (InStep C addr k)
      (fun rows rows' v v' => rowsOf C addr rows' = rowsOf C addr rows ∧ InStep C addr k v v')
      ((Manager.accounts C).on w) ((Manager.accounts C).on w') := by
  unfold Manager.accounts
  refine (h.vault (accounts_alike hV h.related h.fs.files) fun _ _ _ _ hQ => hQ.1).bind ?_
  rintro l l' v v' ⟨⟨-, -, -, hfind, hl, hl'⟩, hstep⟩
  have hlist : Matched (InStep C addr k) (fun listed listed' v v' =>
      (InStep C addr k v v' ∧ (addr ∈ listed' ↔ addr ∈ listed)) ∧ listed.Nodup ∧ listed'.Nodup)
      ((observed (Observed.list C)).on v) ((observed (Observed.list C)).on v') := by
    have hnodup : ∀ {v : World Addr} {listed : List Addr},
        ((observed (Observed.list C)).on v).1 = .ok listed → listed.Nodup := by
      intro v listed hlisted
      have hordered := (list_run (mapError_eq_ok.mp hlisted)).ordered hV
      exact hordered.imp fun hlt heq => absurd (congrArg C.addrText heq) hlt.ne
    refine Matched.answers ?_ (fun _ => hnodup) fun _ => hnodup
    refine (Matched.calling (hstep.onDisk (list_alike hstep.related (hstep.fs.lists hlists))
      (fun _ _ h => h) fun _ _ _ _ hQ => hQ.1)).mono (fun _ _ h => h) ?_
    exact fun _ _ _ _ hQ => ⟨hQ.2, hQ.1.2.2.2⟩
  refine hlist.bind ?_
  rintro listed listed' v v' ⟨⟨hstep, hmem⟩, hnd, hnd'⟩
  rw [Action.on_look_bind, Action.on_look_bind]
  refine Matched.pure ⟨?_, hstep⟩
  refine (rowsOf_listed hV (listing_nodup hl') hnd' v'.core).trans
    (Eq.trans ?_ (rowsOf_listed hV (listing_nodup hl) hnd v.core).symm)
  rw [hfind]
  generalize l.find? (·.addr = addr) = found
  rcases found with - | account
  · simp only [hmem, hstep.core.summaryOf_eq]
  · simp only [hstep.core.summaryOf_eq]

end Manager

/-! ### Every operation -/

/-- The operation asks for the list of observed accounts even where the account's key is held. -/
def CoreOp.AsksLists : CoreOp Addr → Prop
  | importAccount .. | stopObserving .. => True
  | _ => False

/-- An operation on an account, in two worlds in step for it. -/
theorem CoreOp.lockstep (hV : C.VaultLaws) (hL : C.LogLaws) (hA : C.AccountLaws)
    (hfirst : ∀ record ∈ k.kept, C.ChecksFirst) (h : InStep C addr k w w')
    (hguard : Guarded C addr k w) (op : CoreOp Addr) (hop : op.Concerns C addr)
    (hlists : op.AsksLists → k.lists = false) :
    Matched (InStep C addr k) (Same (InStep C addr k)) (op.run C w) (op.run C w') := by
  have hmap : ∀ {α : Type} {u : CoreM Addr α} (f : α → CoreAnswer Addr),
      Matched (InStep C addr k) (Same (InStep C addr k)) (u.on w) (u.on w') →
      Matched (InStep C addr k) (Same (InStep C addr k))
        ((do return f (← u) : CoreM Addr (CoreAnswer Addr)).on w)
        ((do return f (← u) : CoreM Addr (CoreAnswer Addr)).on w') :=
    fun f h => h.map fun _ _ _ _ hQ => ⟨congrArg f hQ.1, hQ.2⟩
  unfold CoreOp.run
  cases op with
  | createAccount generated password seed =>
    refine hmap .taken ((takeIn_alike hV h hop password seed).mono (fun _ _ h => h) ?_)
    exact fun _ _ _ _ hQ => ⟨hQ.1, hQ.2.2⟩
  | importAccount secretHex password seed =>
    refine hmap .taken (importAccount_alike hV h (hlists trivial) (fun key hkey => ?_)
      password seed)
    obtain ⟨key', hkey', haddr⟩ := hop
    rw [hkey] at hkey'
    exact Except.ok.inj hkey' ▸ haddr
  | exportAccount addr' password =>
    obtain rfl : addr' = addr := hop
    exact hmap .secret (exportAccount_alike hV h hguard password)
  | unlock addr' password =>
    obtain rfl : addr' = addr := hop
    exact hmap (fun _ => .done) (unlock_alike hV h hguard password)
  | forgetAccount addr' =>
    obtain rfl : addr' = addr := hop
    exact hmap (fun _ => .done) (forgetAccount_alike hV h hguard)
  | observe addr' =>
    obtain rfl : addr' = addr := hop
    exact hmap .observed (observe_alike hV h hguard)
  | stopObserving addr' =>
    obtain rfl : addr' = addr := hop
    exact hmap (fun _ => .done) (stopObserving_alike hV h (hlists trivial))
  | refresh addr' =>
    obtain rfl : addr' = addr := hop
    exact hmap .refreshed (refresh_alike hV hL hA hfirst h hguard)
  | stageAddInstallation addr' keyHex =>
    obtain rfl : addr' = addr := hop
    exact hmap (fun _ => .done) (stageAddInstallation_alike hV h hguard keyHex)
  | stageSetDisplayName addr' name =>
    obtain rfl : addr' = addr := hop
    exact hmap (fun _ => .done) (stageSetDisplayName_alike hV h hguard name)
  | stageRevoke addr' index =>
    obtain rfl : addr' = addr := hop
    exact hmap (fun _ => .done) (stageRevoke_alike hV h hguard index)
  | discardPending addr' =>
    obtain rfl : addr' = addr := hop
    exact hmap (fun _ => .done) (discardPending_alike hV h hguard)
  | publish addr' =>
    obtain rfl : addr' = addr := hop
    exact hmap .published (publish_alike hV hL hA hfirst h hguard)
  | accounts => exact hop.elim
  | state addr' =>
    obtain rfl : addr' = addr := hop
    exact hmap .shown (state_alike hV h hguard)

end AccountLogUi
