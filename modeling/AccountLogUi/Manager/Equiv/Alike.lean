import AccountLogUi.Manager.Equiv.Staged
import AccountLogUi.Observed.Equiv.Alike

/-!
# Worlds an account looks alike in

`Alike C addr k` relates two worlds that no operation on `addr` can tell apart, and `InStep` two
such worlds in which the same is about to happen: the same calls fail, the store answers alike, the
clock stands alike.  Two worlds may differ in all that is other accounts', and where `k` says so in
the observed lists, while the key is held, or in a record the resolver kept from before the account
was forgotten, which nothing shows.

What an operation looks at first is compared here (`requireManaged_alike`, `requireKnown_alike`,
`signingKey_alike`), with what it reads off the app's own state (`CoreAlike`).
-/

namespace AccountLogUi

open Manager Vault Observed

/-! ### Two states of the app -/

/-- What two worlds may differ in, alike though they are for an account. -/
structure Leeway where
  /-- The observed lists. -/
  lists : Bool
  /-- A record the first resolver kept, and the other never had. -/
  kept : Option AccountRecord

/-- Nothing of the account's. -/
def Leeway.strict : Leeway := ⟨false, none⟩

theorem Leeway.strict_kept {P : AccountRecord → Prop} : ∀ record ∈ strict.kept, P record := by
  intro record hkept
  cases hkept

variable {Addr : Type} {C : Crates Addr} {addr : Addr} {k : Leeway}

/-- A record the first resolver kept is not shown, since no read has landed. -/
structure Masked (C : Crates Addr) (addr : Addr) (record : AccountRecord)
    (core core' : AccountCore Addr) : Prop where
  kept : core.resolver addr = some record
  fresh : core'.resolver addr = none
  unread : core.answered addr = false
  idle : core.written = none
  decoded : C.decode record.signedLog.payload = .ok record.log

/-- The app shows the same of the account in both. -/
structure CoreAlike (C : Crates Addr) (addr : Addr) (k : Leeway) (core core' : AccountCore Addr) :
    Prop where
  read : core'.read addr = core.read addr
  staged : core'.staged addr = core.staged addr
  dropped : core'.dropped addr = core.dropped addr
  unlocked : core'.unlocked addr = core.unlocked addr
  written : core'.written = core.written
  resolver : core'.resolver addr = core.resolver addr ∨
    ∃ record ∈ k.kept, Masked C addr record core core'
  /-- A key unlocked is the account's own. -/
  own : ∀ key, core.unlocked addr = some key → C.addrOf key = addr

namespace CoreAlike

variable {core core' : AccountCore Addr}

theorem readAt_eq (h : CoreAlike C addr k core core') : core'.readAt addr = core.readAt addr := by
  unfold AccountCore.readAt
  rw [h.read]

theorem answered_eq (h : CoreAlike C addr k core core') :
    core'.answered addr = core.answered addr := by
  unfold AccountCore.answered
  rw [h.readAt_eq]

theorem problem_eq (h : CoreAlike C addr k core core') :
    core'.problem addr = core.problem addr := by
  unfold AccountCore.problem
  rw [h.read]

/-- A record kept is not shown, so the same is. -/
theorem record_eq (h : CoreAlike C addr k core core') : core'.record addr = core.record addr := by
  unfold AccountCore.record
  rw [h.answered_eq]
  rcases h.resolver with heq | ⟨record, -, hmasked⟩
  · rw [heq]
  · rw [hmasked.kept, hmasked.fresh, hmasked.unread]
    rfl

theorem extendable_eq (h : CoreAlike C addr k core core') :
    core'.extendable C addr = core.extendable C addr := by
  unfold AccountCore.extendable
  rw [h.record_eq]

theorem fits_eq (h : CoreAlike C addr k core core') (staged : List StagedEdit) :
    core'.fits C addr staged = core.fits C addr staged := by
  unfold AccountCore.fits
  rw [h.extendable_eq]

theorem liveName_eq (h : CoreAlike C addr k core core') :
    core'.liveName C addr = core.liveName C addr := by
  unfold AccountCore.liveName
  rw [h.record_eq]

theorem plannedEntries_eq (h : CoreAlike C addr k core core') :
    core'.plannedEntries addr = core.plannedEntries addr := by
  unfold AccountCore.plannedEntries
  rw [h.staged]

/-- The pane draws the same. -/
theorem stateOf_eq (h : CoreAlike C addr k core core') (held : Option (StoredAccount Addr)) :
    stateOf C core' addr held = stateOf C core addr held := by
  unfold stateOf
  dsimp only
  rw [h.record_eq, h.unlocked, h.answered_eq, h.readAt_eq, h.problem_eq, h.plannedEntries_eq]

theorem summaryOf_eq (h : CoreAlike C addr k core core') (held : Option (StoredAccount Addr)) :
    summaryOf C core' addr held = summaryOf C core addr held := by
  unfold summaryOf
  rw [h.unlocked, h.answered_eq, h.liveName_eq, h.plannedEntries_eq, h.problem_eq]

/-- What is shown of a record does not change where neither record, nor what has been read. -/
theorem resolver_congr (h : CoreAlike C addr k core core') {core₁ core₁' : AccountCore Addr}
    (hresolver : core₁.resolver = core.resolver) (hresolver' : core₁'.resolver = core'.resolver)
    (hunread : core.answered addr = false → core₁.answered addr = false)
    (hwritten : core₁.written = core.written) :
    core₁'.resolver addr = core₁.resolver addr ∨
      ∃ record ∈ k.kept, Masked C addr record core₁ core₁' := by
  rw [hresolver, hresolver']
  refine h.resolver.imp_right fun ⟨record, hkept, hm⟩ => ⟨record, hkept, ?_⟩
  exact ⟨by rw [hresolver, hm.kept], by rw [hresolver', hm.fresh], hunread hm.unread,
    hwritten.trans hm.idle, hm.decoded⟩

/-! ### Changes made to both -/

/-- The hand-over slot is filled, or emptied, where no record is kept. -/
theorem handed (h : CoreAlike C addr k core core')
    (hresolver : core'.resolver addr = core.resolver addr)
    (written : Option (Addr × SignedAccountLog)) :
    CoreAlike C addr k { core with written := written } { core' with written := written } where
  read := h.read
  staged := h.staged
  dropped := h.dropped
  unlocked := h.unlocked
  written := rfl
  resolver := .inl hresolver
  own := h.own

variable [DecidableEq Addr]

theorem update_alike {β : Type} {f g : Addr → β} (b : β) :
    Function.update f addr b addr = Function.update g addr b addr := by
  rw [Function.update_self, Function.update_self]

/-- The same is staged for the account. -/
theorem restaged (h : CoreAlike C addr k core core') (staged : Option (List StagedEdit)) :
    CoreAlike C addr k { core with staged := Function.update core.staged addr staged }
      { core' with staged := Function.update core'.staged addr staged } where
  read := h.read
  staged := update_alike staged
  dropped := h.dropped
  unlocked := h.unlocked
  written := h.written
  resolver := h.resolver_congr rfl rfl id rfl
  own := h.own

theorem collected (h : CoreAlike C addr k core core') :
    CoreAlike C addr k (core.collected addr) (core'.collected addr) where
  read := h.read
  staged := h.staged
  dropped := update_alike none
  unlocked := h.unlocked
  written := h.written
  resolver := h.resolver_congr rfl rfl id rfl
  own := h.own

/-- A key of the account's is unlocked. -/
theorem opened (h : CoreAlike C addr k core core') {key : Ed25519SigningKey}
    (haddr : C.addrOf key = addr) :
    CoreAlike C addr k { core with unlocked := Function.update core.unlocked addr (some key) }
      { core' with unlocked := Function.update core'.unlocked addr (some key) } where
  read := h.read
  staged := h.staged
  dropped := h.dropped
  unlocked := update_alike (some key)
  written := h.written
  resolver := h.resolver_congr rfl rfl id rfl
  own key' hkey' := by
    have hsome : Function.update core.unlocked addr (some key) addr = some key' := hkey'
    rw [Function.update_self] at hsome
    exact Option.some.inj hsome ▸ haddr

/-- What was read of the account is forgotten. -/
theorem stopped (h : CoreAlike C addr k core core') :
    CoreAlike C addr k
      { core with
        read := Function.update core.read addr none
        dropped := Function.update core.dropped addr none }
      { core' with
        read := Function.update core'.read addr none
        dropped := Function.update core'.dropped addr none } where
  read := update_alike none
  staged := h.staged
  dropped := update_alike none
  unlocked := h.unlocked
  written := h.written
  resolver := by
    refine h.resolver_congr rfl rfl (fun _ => ?_) rfl
    unfold AccountCore.answered AccountCore.readAt
    dsimp only
    rw [Function.update_self]
    rfl
  own := h.own

/-- The account is forgotten. -/
theorem forgot (h : CoreAlike C addr k core core') :
    CoreAlike C addr k
      { core with
        unlocked := Function.update core.unlocked addr none
        staged := Function.update core.staged addr none
        read := Function.update core.read addr none
        dropped := Function.update core.dropped addr none }
      { core' with
        unlocked := Function.update core'.unlocked addr none
        staged := Function.update core'.staged addr none
        read := Function.update core'.read addr none
        dropped := Function.update core'.dropped addr none } where
  read := h.stopped.read
  staged := update_alike none
  dropped := h.stopped.dropped
  unlocked := update_alike none
  written := h.written
  resolver := h.stopped.resolver_congr rfl rfl id rfl
  own key hkey := by
    have hnone : Function.update core.unlocked addr none addr = some key := hkey
    rw [Function.update_self] at hnone
    cases hnone

/-- A read failed. -/
theorem failed (h : CoreAlike C addr k core core') (e : AccountError) :
    CoreAlike C addr k (core.failed addr e) (core'.failed addr e) where
  read := by
    unfold AccountCore.failed
    dsimp only
    rw [Function.update_self, Function.update_self, h.read]
  staged := h.staged
  dropped := h.dropped
  unlocked := h.unlocked
  written := h.written
  resolver := by
    refine h.resolver_congr rfl rfl (fun hunread => ?_) rfl
    unfold AccountCore.answered AccountCore.readAt at hunread ⊢
    unfold AccountCore.failed
    dsimp only
    rw [Function.update_self]
    -- A read that fails keeps the time of the last one that landed.
    rcases hread : core.read addr with - | last
    · rfl
    · rw [hread] at hunread
      exact hunread
  own := h.own

/-- The resolvers hold the same of the account now. -/
theorem adopted (h : CoreAlike C addr k core core') (held : Option AccountRecord) :
    CoreAlike C addr k { core with resolver := Function.update core.resolver addr held }
      { core' with resolver := Function.update core'.resolver addr held } where
  read := h.read
  staged := h.staged
  dropped := h.dropped
  unlocked := h.unlocked
  written := h.written
  resolver := .inl (update_alike held)
  own := h.own

/-- The same read landed. -/
theorem landed (h : CoreAlike C addr k core core')
    (hresolver : core'.resolver addr = core.resolver addr) (read : LastRead) :
    CoreAlike C addr k { core with read := Function.update core.read addr (some read) }
      { core' with read := Function.update core'.read addr (some read) } where
  read := update_alike (some read)
  staged := h.staged
  dropped := h.dropped
  unlocked := h.unlocked
  written := h.written
  resolver := .inl hresolver
  own := h.own

/-- The same edits are dropped, as the log holds them already. -/
theorem settle (h : CoreAlike C addr k core core')
    (hresolver : core'.resolver addr = core.resolver addr) :
    CoreAlike C addr k (core.settle C addr) (core'.settle C addr) := by
  unfold AccountCore.settle
  rw [h.record_eq, h.staged]
  rcases core.record addr with - | record
  · exact h
  dsimp only
  rcases C.fromLog record.log with e | draft
  · exact h
  dsimp only
  rcases core.staged addr with - | staged
  · exact h
  dsimp only
  refine ⟨h.read, update_alike _, ?_, h.unlocked, h.written, .inl hresolver, h.own⟩
  dsimp only
  split
  · rw [Function.update_self, Function.update_self, h.dropped]
  · exact h.dropped

end CoreAlike

/-! ### Two worlds -/

/-- What a store over HTTP makes of the next requests. -/
def Store.turns : Store Addr → Option (List Turn)
  | .chat store => some store.turns
  | .memory _ => none

/-- What was fetched is a log, which goes on from the one of the record. -/
def GoesOn (record : AccountRecord) (fetched : Option SignedAccountLog) : Prop :=
  ∃ signed, fetched = some signed ∧ record.signedLog.payload <+: signed.payload

variable [DecidableEq Addr]

/-- Whatever the store gives for the account goes on from the record. -/
def Store.Appends (addr : Addr) (record : AccountRecord) : Store Addr → Prop
  | .chat store => ∀ turn ∈ store.turns, ∀ fetched, turn.fetch = .ok fetched →
    GoesOn record fetched
  | .memory store => GoesOn record (store.held addr)

/-- The directories are alike for the account, the observed lists as far as `k` says. -/
structure DiskAlike (C : Crates Addr) (addr : Addr) (k : Leeway) (fs fs' : Fs) : Prop where
  files : AlikeFor C addr fs fs'
  lists : k.lists = false → ObservedAlike C addr fs fs'

/-- Two worlds are alike for one account. -/
structure Alike (C : Crates Addr) (addr : Addr) (k : Leeway) (w w' : World Addr) : Prop where
  fs : DiskAlike C addr k w.disk.fs w'.disk.fs
  core : CoreAlike C addr k w.core w'.core
  kind : w'.store.turns.isSome = w.store.turns.isSome
  held : w'.store.held addr = w.store.held addr
  /-- A store in memory holds a log that goes on from a record kept. -/
  appended : ∀ record ∈ k.kept, w.store.turns = none → w.store.Appends addr record

/-- Alike, with the same to come. -/
structure InStep (C : Crates Addr) (addr : Addr) (k : Leeway) (w w' : World Addr) : Prop extends
    Alike C addr k w w' where
  faults : w'.disk.faults = w.disk.faults
  now : w'.now = w.now
  turns : w'.store.turns = w.store.turns
  appends : ∀ record ∈ k.kept, w.store.Appends addr record

/-- Where the lists are not to be relied on, the vault holds the account's key. -/
def Guarded (C : Crates Addr) (addr : Addr) (k : Leeway) (w : World Addr) : Prop :=
  k.lists = false ∨ Present C w.disk.fs addr

namespace InStep

variable {w w' : World Addr}

theorem related (h : InStep C addr k w w') : w.disk.Related (DiskAlike C addr k) w'.disk :=
  ⟨h.fs, h.faults⟩

theorem withDisk (h : InStep C addr k w w') {d d' : Disk} (hd : d.Related (DiskAlike C addr k) d') :
    InStep C addr k { w with disk := d } { w' with disk := d' } :=
  ⟨⟨hd.fs, h.core, h.kind, h.held, h.appended⟩, hd.faults, h.now, h.turns,
    h.appends⟩

theorem withCore (h : InStep C addr k w w') {core core' : AccountCore Addr}
    (hcore : CoreAlike C addr k core core') :
    InStep C addr k { w with core := core } { w' with core := core' } :=
  ⟨⟨h.fs, hcore, h.kind, h.held, h.appended⟩, h.faults, h.now, h.turns, h.appends⟩

/-- A program of filesystem calls. -/
theorem onDisk {ε α β : Type} (h : InStep C addr k w w') {p : FsM ε α} {q : FsM ε β}
    {E : Fs → Fs → Prop} {Q : α → β → Fs → Fs → Prop} (hp : Disk.Matches E Q p q w.disk w'.disk)
    (hE : ∀ s t, E s t → DiskAlike C addr k s t)
    (hQ : ∀ a b s t, Q a b s t → DiskAlike C addr k s t) :
    Matched (InStep C addr k)
      (fun a b v v' => Q a b v.disk.fs v'.disk.fs ∧ InStep C addr k v v')
      (w.onDisk p) (w'.onDisk q) := by
  unfold World.onDisk
  unfold Disk.Matches at hp
  generalize w.disk.run p.run = x at hp ⊢
  generalize w'.disk.run q.run = y at hp ⊢
  rcases hp with hp | hp
  · exact .ok ⟨hp.fs, h.withDisk (hp.mono (hQ _ _))⟩
  · exact .error (h.withDisk (hp.mono hE))

/-- A program of the vault's, as a link of a chain. -/
theorem vault {α β : Type} (h : InStep C addr k w w') {p : FsM (VaultError Addr) α}
    {q : FsM (VaultError Addr) β} {Q : α → β → Fs → Fs → Prop}
    (hp : Disk.Matches (DiskAlike C addr k) Q p q w.disk w'.disk)
    (hQ : ∀ a b s t, Q a b s t → DiskAlike C addr k s t) :
    Matched (InStep C addr k)
      (fun a b v v' => Q a b v.disk.fs v'.disk.fs ∧ InStep C addr k v v')
      ((Manager.vault p).on w) ((Manager.vault q).on w') :=
  Matched.calling (h.onDisk hp (fun _ _ h => h) hQ)

end InStep

namespace Manager

variable {w w' : World Addr}

/-! ### Who may do what -/

/-- The account is held in both, or in neither. -/
theorem manages_alike (hV : C.VaultLaws) (h : InStep C addr k w w') (hguard : Guarded C addr k w) :
    Matched (InStep C addr k)
      (fun b b' v v' => b' = b ∧ InStep C addr k v v' ∧ (b = false → k.lists = false))
      ((manages C addr).on w) ((manages C addr).on w') := by
  unfold manages
  refine (h.vault (accounts_alike hV h.related h.fs.files) fun _ _ _ _ hQ => hQ.1).bind ?_
  rintro l l' v v' ⟨⟨-, hs, -, hfind, hl, -⟩, hstep⟩
  have hany : l'.any (·.addr = addr) = l.any (·.addr = addr) := by
    rw [← List.isSome_find?, ← List.isSome_find?, hfind]
  refine Matched.pure ⟨hany, hstep, fun hfalse => hguard.resolve_right ?_⟩
  rintro ⟨p, hp⟩
  rw [← hs] at hp
  have hfound : l.find? (·.addr = addr) = some ⟨addr, p⟩ := (find?_listing hV hl).mpr ⟨rfl, hp⟩
  rw [← List.isSome_find?, hfound] at hfalse
  cases hfalse

theorem observes_alike (h : InStep C addr k w w') (hlists : k.lists = false) :
    Matched (InStep C addr k) (Same (InStep C addr k)) ((observes C addr).on w)
      ((observes C addr).on w') := by
  unfold observes observed
  refine (Matched.calling (h.onDisk (list_alike h.related (h.fs.lists hlists))
    (fun _ _ h => h) fun _ _ _ _ hQ => hQ.1)).bind ?_
  rintro l l' v v' ⟨⟨-, -, -, hmem⟩, hstep⟩
  refine Matched.pure ⟨?_, hstep⟩
  rw [Bool.eq_iff_iff, List.contains_iff_mem, List.contains_iff_mem]
  exact hmem

/-- The lists are asked only where the key is not held. -/
theorem requireManaged_alike (hV : C.VaultLaws) (h : InStep C addr k w w')
    (hguard : Guarded C addr k w) :
    Matched (InStep C addr k) (Same (InStep C addr k)) ((requireManaged C addr).on w)
      ((requireManaged C addr).on w') := by
  unfold requireManaged
  refine (manages_alike hV h hguard).bind ?_
  rintro _ b v v' ⟨rfl, hstep, hlists⟩
  rcases b with _ | _
  · rw [if_neg (by simp)]
    refine (observes_alike hstep (hlists rfl)).bind ?_
    rintro b - v v' ⟨rfl, hstep⟩
    exact Matched.refuse_bind Iff.rfl hstep fun _ => Matched.throw hstep
  · exact Matched.pure ⟨rfl, hstep⟩

theorem requireKnown_alike (hV : C.VaultLaws) (h : InStep C addr k w w')
    (hguard : Guarded C addr k w) :
    Matched (InStep C addr k) (Same (InStep C addr k)) ((requireKnown C addr).on w)
      ((requireKnown C addr).on w') := by
  unfold requireKnown
  refine (manages_alike hV h hguard).bind ?_
  rintro _ b v v' ⟨rfl, hstep, hlists⟩
  rcases b with _ | _
  · rw [if_neg (by simp)]
    refine (observes_alike hstep (hlists rfl)).bind ?_
    rintro b - v v' ⟨rfl, hstep⟩
    exact Matched.refuse Iff.rfl (fun _ => hstep) fun _ => ⟨rfl, hstep⟩
  · exact Matched.pure ⟨rfl, hstep⟩

/-! ### The key to sign with -/

/-- The key opened is the account's own. -/
theorem openKey_on_alike (hV : C.VaultLaws) (h : InStep C addr k w w') (password : Option String)
    (wrap : VaultError Addr → CoreError Addr) :
    Matched (InStep C addr k)
      (fun key key' v v' => key' = key ∧ C.addrOf key = addr ∧ InStep C addr k v v')
      ((Action.calling wrap (·.onDisk (openKey C addr password)) :
        CoreM Addr Ed25519SigningKey).on w)
      ((Action.calling wrap (·.onDisk (openKey C addr password)) :
        CoreM Addr Ed25519SigningKey).on w') := by
  refine Matched.calling ((h.onDisk (openKey_alike hV (fun _ _ hst => hst.files) h.related password)
    (fun _ _ h => h) fun _ _ _ _ hQ => hQ.1.2).mono (fun _ _ h => h) ?_)
  rintro key key' v v' ⟨⟨⟨hkey, -⟩, haddr⟩, hstep⟩
  exact ⟨hkey, haddr, hstep⟩

theorem signingKey_alike (hV : C.VaultLaws) (h : InStep C addr k w w') :
    Matched (InStep C addr k)
      (fun key key' v v' => key' = key ∧ C.addrOf key = addr ∧ InStep C addr k v v')
      ((signingKey C addr).on w) ((signingKey C addr).on w') := by
  unfold signingKey
  rw [Action.on_look_bind, Action.on_look_bind, h.core.unlocked]
  rcases hkey : w.core.unlocked addr with - | key
  · exact openKey_on_alike hV h none _
  · exact Matched.pure ⟨rfl, h.core.own key hkey, h⟩

end Manager

end AccountLogUi
