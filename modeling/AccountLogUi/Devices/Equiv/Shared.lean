import AccountLogUi.Devices.Basic
import AccountLogUi.Manager.Equiv.Planned
import AccountLogUi.Reference.Equiv.Laws

/-!
# No update is lost

`Follows` is what holds of one device's world in every run: the store's logs check, and what its
resolver holds is where one of them starts.  An operation keeps it (`Follows.op`), so does planning
an update (`Follows.plan`), and so does a write of another device, which only adds to a log
(`Follows.restored`).  `Follows.write` says what a write does where it is taken and where it is
refused.

`Shared` puts the devices together, and `no_update_is_lost` what follows for a run.
-/

namespace AccountLogUi

open Manager

variable {Addr : Type} {C : Crates Addr}

namespace Store

variable [DecidableEq Addr] {store store' : Store Addr} {addr : Addr}

theorem entries_congr (h : store'.held addr = store.held addr) :
    store'.entries C addr = store.entries C addr := by
  unfold entries
  rw [h]

theorem entries_none (h : store.held addr = none) : store.entries C addr = [] := by
  unfold entries
  rw [h]

theorem entries_held {signed : SignedAccountLog} {log : AccountLog}
    (h : store.held addr = some signed) (hverify : C.verify addr signed = .ok log) :
    store.entries C addr = log.entries := by
  unfold entries
  rw [h]
  dsimp only
  rw [hverify]

/-- What a store in memory answers a read with. -/
theorem fetch_memory (h : ∃ memory, store = .memory memory) :
    store.fetch addr = (.ok (store.held addr), store) := by
  obtain ⟨memory, rfl⟩ := h
  rfl

/-- A store in memory stays one. -/
theorem publish_memory (h : ∃ memory, store = .memory memory) (signed : SignedAccountLog) :
    ∃ memory, (store.publish addr signed).2 = .memory memory := by
  obtain ⟨memory, rfl⟩ := h
  exact ⟨_, rfl⟩

/-- A store in memory refuses a log for one reason, and leaves what it holds. -/
theorem publish_memory_error (h : ∃ memory, store = .memory memory) {signed : SignedAccountLog}
    {e : StoreError} (he : (store.publish addr signed).1 = .error e) :
    e = .diverged ∧ (store.publish addr signed).2 = store ∧
      ∃ existing, store.held addr = some existing ∧ ¬existing.payload <+: signed.payload := by
  obtain ⟨memory, rfl⟩ := h
  have he' : (memory.publish addr signed).1 = .error e := he
  show e = .diverged ∧ Store.memory (memory.publish addr signed).2 = .memory memory ∧
    ∃ existing, memory.held addr = some existing ∧ _
  unfold MemoryStore.publish at he' ⊢
  cases hheld : memory.held addr with
  | none =>
    rw [hheld] at he'
    cases he'
  | some existing =>
    rw [hheld] at he'
    dsimp only at he' ⊢
    split at he'
    · cases he'
    · next hpre =>
      rw [if_neg hpre]
      refine ⟨(Except.error.inj he').symm, rfl, existing, rfl, fun hprefix => hpre ?_⟩
      exact List.isPrefixOf_iff_prefix.mpr hprefix

theorem publish_memory_ok (h : ∃ memory, store = .memory memory) {signed : SignedAccountLog}
    (hok : (store.publish addr signed).1 = .ok ()) {existing : SignedAccountLog}
    (hheld : store.held addr = some existing) : existing.payload <+: signed.payload := by
  obtain ⟨memory, rfl⟩ := h
  exact MemoryStore.publish_ok hok hheld

end Store

/-! ### One device -/

variable [DecidableEq Addr] {w w' : World Addr} {addr : Addr}

theorem takeIn_store (hV : C.VaultLaws) {key : Ed25519SigningKey} {password : Option String}
    {seed : ℕ} {taken : Addr} (h : (takeIn C key password seed).on w = (.ok taken, w')) :
    w'.store = w.store ∧ w'.core.resolver = w.core.resolver := by
  obtain ⟨-, -, -, hoffline, hcore⟩ := takeIn_ok hV h
  rw [hcore]
  refine ⟨hoffline.store, ?_⟩
  split <;> rfl

/-- An operation that does not ask the store leaves it, and the records held. -/
theorem CoreOp.offline (hV : C.VaultLaws) (hA : C.AccountLaws) (hwritten : w.core.written = none)
    {op : CoreOp Addr} (hop : ¬op.AsksStore) {r : Except (CoreError Addr) (CoreAnswer Addr)}
    (hrun : op.run C w = (r, w')) :
    w'.store = w.store ∧ w'.core.resolver = w.core.resolver := by
  cases CoreOp.outcome hV hA hwritten hrun with
  | refused h => exact ⟨h.offline.store, congrArg (·.resolver) h.core⟩
  | looked hlooks h => exact ⟨h.store, congrArg (·.resolver) h.core⟩
  | created h => exact takeIn_store hV h
  | imported hkey htake hlisted =>
    rw [hlisted.offline.store, hlisted.core]
    exact takeIn_store hV htake
  | opened hpresent haddr hopens hcore hfs hoffline =>
    exact ⟨hoffline.store, congrArg (·.resolver) hcore⟩
  | forgot hdropped habsent hobserved hcore hoffline =>
    exact ⟨hoffline.store, congrArg (·.resolver) hcore⟩
  | observed h => exact ⟨h.offline.store, congrArg (·.resolver) h.core⟩
  | stopped h => exact ⟨h.offline.store, congrArg (·.resolver) h.core⟩
  | staged hstages hpresent hrestages h =>
    exact ⟨h.offline.store, congrArg (·.resolver) h.core⟩
  | discarded hpresent hcore hfs hoffline =>
    exact ⟨hoffline.store, congrArg (·.resolver) hcore⟩
  | unread | refreshed | published => exact absurd trivial hop

/-- What holds of a device's world in every run: the logs of the store check, and each one starts
with what the device holds of it. -/
structure Follows (C : Crates Addr) (w : World Addr) : Prop where
  memory : ∃ store, w.store = .memory store
  checks : ∀ addr signed, w.store.held addr = some signed →
    ∃ log, C.verify addr signed = .ok log
  sound : Sound C w.core
  written : w.core.written = none
  behind : ∀ addr, heldEntries (w.core.resolver addr) <+: w.store.entries C addr

namespace Follows

/-- Where nothing changes but the app's own state, and the records held stay. -/
theorem kept (h : Follows C w) (hstore : w'.store = w.store)
    (hresolver : w'.core.resolver = w.core.resolver) (hsound : Sound C w'.core)
    (hwritten : w'.core.written = none) : Follows C w' where
  memory := hstore ▸ h.memory
  checks := hstore ▸ h.checks
  sound := hsound
  written := hwritten
  behind addr := by
    rw [hstore, hresolver]
    exact h.behind addr

/-- A change to the app's own state keeps what holds of it. -/
theorem steps (hL : C.LogLaws) (hA : C.AccountLaws) (h : Follows C w)
    (hsteps : AccountCore.Steps C w.core w'.core) :
    Sound C w'.core ∧ w'.core.written = none :=
  ⟨h.sound.steps hL hA hsteps, hsteps.written_eq.trans h.written⟩

/-- A read that lands brings the log the store holds. -/
theorem landed_eq (hA : C.AccountLaws) (h : Follows C w) {held : Option AccountRecord}
    (hlanded : Landed C addr held w w') : heldEntries held = w.store.entries C addr := by
  obtain ⟨fetched, hfetch, hresolve⟩ := hlanded.resolved
  rw [Store.fetch_memory h.memory] at hfetch
  obtain rfl := Except.ok.inj hfetch
  have hbehind := h.behind addr
  cases hheld : w.store.held addr with
  | none =>
    -- Nothing is held, so the record was empty, and nothing was fetched to adopt.
    rw [Store.entries_none hheld] at hbehind ⊢
    rw [hheld] at hresolve
    rcases hA.resolve_adopts hresolve with rfl | ⟨signed, log, hnone, -⟩
    · exact List.prefix_nil.mp hbehind
    · cases hnone
  | some signed =>
    obtain ⟨log, hverify⟩ := h.checks addr signed hheld
    rw [Store.entries_held hheld hverify] at hbehind ⊢
    rw [hheld] at hresolve
    have hextends : ∀ record, w.core.resolver addr = some record →
        record.log.entries <+: log.entries := by
      intro record hrecord
      rw [hrecord] at hbehind
      exact hbehind
    rw [hA.resolve_extends hverify hextends] at hresolve
    rw [← Except.ok.inj hresolve]
    rfl

theorem landed (hL : C.LogLaws) (hA : C.AccountLaws) (h : Follows C w)
    {held : Option AccountRecord} (hlanded : Landed C addr held w w') :
    Follows C w' ∧ w'.store = w.store ∧
      heldEntries (w'.core.resolver addr) = w.store.entries C addr := by
  obtain ⟨hsound, hwritten⟩ := h.steps hL hA hlanded.steps
  have hstore : w'.store = w.store := by rw [hlanded.store, Store.fetch_memory h.memory]
  have hresolver := hlanded.resolver hL
  have hentries : heldEntries (w'.core.resolver addr) = w.store.entries C addr := by
    rw [hresolver, Function.update_self]
    exact h.landed_eq hA hlanded
  refine ⟨⟨hstore ▸ h.memory, hstore ▸ h.checks, hsound, hwritten, fun other => ?_⟩, hstore,
    hentries⟩
  rw [hstore]
  by_cases hother : other = addr
  · subst hother
    rw [hentries]
  · rw [hresolver, Function.update_of_ne hother]
    exact h.behind other

theorem failed (hL : C.LogLaws) (hA : C.AccountLaws) (h : Follows C w) {e : AccountError}
    (hfailed : Failed C addr e w w') : Follows C w' ∧ w'.store = w.store := by
  obtain ⟨hsound, hwritten⟩ := h.steps hL hA hfailed.steps
  have hstore : w'.store = w.store := by rw [hfailed.store, Store.fetch_memory h.memory]
  have hresolver : w'.core.resolver = w.core.resolver := by
    rw [hfailed.core]
    rfl
  exact ⟨h.kept hstore hresolver hsound hwritten, hstore⟩

theorem looked (h : Follows C w) (hlooked : Looked w w') : Follows C w' ∧ w'.store = w.store := by
  have hsound := h.sound
  have hwritten := h.written
  rw [← hlooked.core] at hsound hwritten
  exact ⟨h.kept hlooked.store (by rw [hlooked.core]) hsound hwritten, hlooked.store⟩

theorem collected (hL : C.LogLaws) (hA : C.AccountLaws) (h : Follows C w) :
    Follows C { w with core := w.core.collected addr } :=
  h.kept rfl rfl (h.sound.step hL hA (.collected addr)) h.written

/-- An operation that writes nothing leaves the store. -/
theorem op (hV : C.VaultLaws) (hL : C.LogLaws) (hA : C.AccountLaws) (h : Follows C w)
    {op : CoreOp Addr} (hop : ∀ addr, op ≠ .publish addr)
    {r : Except (CoreError Addr) (CoreAnswer Addr)} (hrun : op.run C w = (r, w')) :
    Follows C w' ∧ w'.store = w.store := by
  by_cases hasks : op.AsksStore
  · cases op with
    | refresh addr =>
      obtain ⟨r', hrefresh, -⟩ := Action.on_map_cases hrun
      rcases r' with e | n
      · rcases refresh_error hV h.written hrefresh with hlooked | ⟨error, hfailed⟩
        · exact h.looked hlooked
        · exact h.failed hL hA hfailed
      · obtain ⟨held, w₁, hlanded, -, rfl⟩ := refresh_ok hV h.written hrefresh
        obtain ⟨hfollows, hstore, -⟩ := h.landed hL hA hlanded
        exact ⟨hfollows.collected hL hA, hstore⟩
    | publish addr => exact absurd rfl (hop addr)
    | _ => exact hasks.elim
  · obtain ⟨hstore, hresolver⟩ := CoreOp.offline hV hA h.written hasks hrun
    have hsteps : AccountCore.Steps C w.core w'.core := by
      have hsteps := CoreOp.steps hV hA h.written op
      rwa [hrun] at hsteps
    obtain ⟨hsound, hwritten⟩ := h.steps hL hA hsteps
    exact ⟨h.kept hstore hresolver hsound hwritten, hstore⟩

/-- Planning an update leaves the store, and what is planned goes on top of all it holds. -/
theorem plan (hV : C.VaultLaws) (hL : C.LogLaws) (hA : C.AccountLaws) (h : Follows C w)
    {r : Except (CoreError Addr) (Published ⊕ Update)}
    (hplan : (planUpdate C addr).on w = (r, w')) :
    Follows C w' ∧ w'.store = w.store ∧ ∀ update, r = .ok (.inr update) →
      Planned C addr w'.core update ∧
        heldEntries (w'.core.resolver addr) = w.store.entries C addr := by
  cases planUpdate_outcome hV h.written hplan with
  | refused hoff hlooked => exact ⟨(h.looked hlooked).1, (h.looked hlooked).2, by simp⟩
  | unread hadmitted hfailed =>
    exact ⟨(h.failed hL hA hfailed).1, (h.failed hL hA hfailed).2, by simp⟩
  | nothing hadmitted hlanded =>
    obtain ⟨hfollows, hstore, -⟩ := h.landed hL hA hlanded
    exact ⟨hfollows.collected hL hA, hstore, by simp⟩
  | unfit hadmitted hlanded =>
    obtain ⟨hfollows, hstore, -⟩ := h.landed hL hA hlanded
    exact ⟨hfollows, hstore, by simp⟩
  | planned hadmitted hlanded hstaged hfits hdraft =>
    obtain ⟨hfollows, hstore, hentries⟩ := h.landed hL hA hlanded
    refine ⟨hfollows, hstore, fun update hupdate => ⟨?_, hentries⟩⟩
    obtain rfl := Sum.inr.inj (Except.ok.inj hupdate)
    exact hlanded.planned hL hA h.sound hadmitted hstaged hfits hdraft

omit [DecidableEq Addr] in
/-- One log's payload starts another's as its entries start the other's. -/
theorem payload_prefix_iff (hL : C.LogLaws) (hA : C.AccountLaws) {signed signed' : SignedAccountLog}
    {log log' : AccountLog} (h : C.verify addr signed = .ok log)
    (h' : C.verify addr signed' = .ok log') :
    signed.payload <+: signed'.payload ↔ log.entries <+: log'.entries := by
  have hdecode := hA.verify_decode h
  have hdecode' := hA.verify_decode h'
  constructor
  · exact hL.decode_prefix hdecode hdecode'
  · intro hprefix
    rw [hL.decode_payload hdecode, hL.decode_payload hdecode']
    exact Crates.payloadOf_prefix hprefix

/-- What a store in memory holds has only grown. -/
structure Grown (C : Crates Addr) (store store' : Store Addr) : Prop where
  memory : ∃ memory, store' = .memory memory
  checks : ∀ addr signed, store'.held addr = some signed →
    ∃ log, C.verify addr signed = .ok log
  entries : ∀ addr, store.entries C addr <+: store'.entries C addr

/-- Another device's write. -/
theorem restored (h : Follows C w) {store : Store Addr} (hgrown : Grown C w.store store) :
    Follows C { w with store := store } where
  memory := hgrown.memory
  checks := hgrown.checks
  sound := h.sound
  written := h.written
  behind addr := (h.behind addr).trans (hgrown.entries addr)

theorem grown_refl (h : Follows C w) : Grown C w.store w.store :=
  ⟨h.memory, h.checks, fun _ => List.prefix_rfl⟩

/-- How a write goes.  The store takes it exactly where what it holds starts the log written, and
holds that log then; otherwise it refuses it as diverged, and nothing has changed. -/
theorem write (hL : C.LogLaws) (hA : C.AccountLaws) (h : Follows C w) {update : Update}
    (hplanned : Planned C addr w.core update) {r : Except (CoreError Addr) Published}
    (hwrite : (writeUpdate C addr update).on w = (r, w')) :
    (r = .error (.account (.provider .diverged)) ∧ w'.store = w.store ∧ w'.core = w.core ∧
        ¬w.store.entries C addr <+: heldEntries (w.core.resolver addr) ++ update.entries) ∨
      (∃ dropped, r = .ok ⟨some (heldEntries (w.core.resolver addr)).length, dropped⟩) ∧
        w.store.entries C addr <+: heldEntries (w.core.resolver addr) ++ update.entries ∧
        w'.store.entries C addr = heldEntries (w.core.resolver addr) ++ update.entries ∧
        Grown C w.store w'.store ∧ Follows C w' := by
  obtain ⟨signed, hsigned, hrest⟩ := hplanned.writes hL hA h.sound hwrite
  obtain ⟨-, -, hverify⟩ := hplanned.signed_eq hL hA h.sound hsigned
  rcases hrest with ⟨e, rfl, he, rfl⟩ | ⟨hwrote, rfl, hcore⟩
  · obtain ⟨rfl, hstore, existing, hheld, hpre⟩ := Store.publish_memory_error h.memory he
    -- The store refused it, so what it holds does not start what was written.
    refine .inl ⟨rfl, hstore, rfl, ?_⟩
    obtain ⟨log, hlog⟩ := h.checks addr existing hheld
    rw [Store.entries_held hheld hlog]
    exact fun hprefix => hpre ((payload_prefix_iff hL hA hlog hverify).mpr hprefix)
  -- The store took it, and holds it from then on.
  have htaken := hwrote.taken
  have hstore := hwrote.store
  rw [hplanned.key] at htaken hstore
  have hheld' : w'.store.held addr = some signed := by
    rw [hstore]
    exact Store.held_publish_ok htaken
  have hother : ∀ {other}, other ≠ addr → w'.store.held other = w.store.held other := by
    intro other hne
    rw [hstore]
    exact Store.held_publish_ne w.store hne signed
  have hentries := Store.entries_held hheld' hverify
  have hprefix : w.store.entries C addr <+:
      heldEntries (w.core.resolver addr) ++ update.entries := by
    cases hheld : w.store.held addr with
    | none =>
      rw [Store.entries_none hheld]
      exact List.nil_prefix
    | some existing =>
      obtain ⟨log, hlog⟩ := h.checks addr existing hheld
      rw [Store.entries_held hheld hlog]
      exact (payload_prefix_iff hL hA hlog hverify).mp
        (Store.publish_memory_ok h.memory htaken hheld)
  have hgrown : Grown C w.store w'.store := by
    refine ⟨hstore ▸ Store.publish_memory h.memory signed, fun other log hlog => ?_,
      fun other => ?_⟩
    · by_cases hne : other = addr
      · subst hne
        rw [hheld'] at hlog
        obtain rfl := Option.some.inj hlog
        exact ⟨_, hverify⟩
      · rw [hother hne] at hlog
        exact h.checks other log hlog
    · by_cases hne : other = addr
      · subst hne
        rw [hentries]
        exact hprefix
      · rw [Store.entries_congr (hother hne)]
  refine .inr ⟨⟨_, by rw [hplanned.firstNew]⟩, hprefix, hentries, hgrown, hgrown.memory,
    hgrown.checks, ?_, ?_, fun other => ?_⟩
  · exact (h.steps hL hA (writeUpdate_steps h.written hwrite)).1
  · exact (h.steps hL hA (writeUpdate_steps h.written hwrite)).2
  -- No device holds more than the store: this one was handed what it wrote.
  · have hresolver : w'.core.resolver = Function.update w.core.resolver addr
        (some ⟨⟨heldEntries (w.core.resolver addr) ++ update.entries⟩, signed⟩) := by
      rw [hcore]
      rfl
    rw [hresolver]
    by_cases hne : other = addr
    · subst hne
      rw [Function.update_self, hentries]
      exact List.prefix_rfl
    · rw [Function.update_of_ne hne, Store.entries_congr (hother hne)]
      exact h.behind other

end Follows

/-! ### All of them -/

namespace Devices

variable {ι : Type} [DecidableEq ι] {start s s' : Devices ι Addr} {ps : List (Write ι Addr)} {i : ι}

/-- What holds of all devices in every run: an update in flight was planned on top of what the
device holds, which is all the store held when it read it. -/
structure Shared (C : Crates Addr) (s : Devices ι Addr) : Prop where
  follows : ∀ i, Follows C (s.worldOf i)
  planned : ∀ i inFlight, (s.device i).inFlight = some inFlight →
    Planned C inFlight.addr (s.device i).core inFlight.update
  read : ∀ i inFlight, (s.device i).inFlight = some inFlight →
    heldEntries ((s.device i).core.resolver inFlight.addr) = inFlight.read

omit [DecidableEq ι] in
theorem Fresh.shared (h : s.Fresh C) : Shared C s where
  follows i := by
    have hcore : (s.worldOf i).core = .new := h.core i
    refine ⟨h.memory, h.checks, ?_, ?_, fun addr => ?_⟩
    · rw [hcore]
      exact .new
    · rw [hcore]
      rfl
    · rw [hcore]
      exact List.nil_prefix
  planned i inFlight hflight := by
    rw [h.idle i] at hflight
    cases hflight
  read i inFlight hflight := by
    rw [h.idle i] at hflight
    cases hflight

/-- Where one device went on, and the store only grew. -/
theorem Shared.put (h : Shared C s) {w : World Addr} {inFlight : Option (InFlight Addr)}
    (hfollows : Follows C w) (hgrown : Follows.Grown C s.store w.store)
    (hplanned : ∀ plan, inFlight = some plan → Planned C plan.addr w.core plan.update ∧
      heldEntries (w.core.resolver plan.addr) = plan.read) : Shared C (s.put i w inFlight) := by
  have hdevice : (s.put i w inFlight).device i = ⟨w.core, w.disk, w.now, w.asked, inFlight⟩ :=
    Function.update_self ..
  have hother : ∀ {j}, j ≠ i → (s.put i w inFlight).device j = s.device j :=
    fun hne => Function.update_of_ne hne ..
  refine ⟨fun j => ?_, fun j plan hplan => ?_, fun j plan hplan => ?_⟩
  · by_cases hj : j = i
    · subst hj
      have hworld : (s.put j w inFlight).worldOf j = w := by
        unfold worldOf
        rw [hdevice]
        rfl
      rw [hworld]
      exact hfollows
    · have hworld : (s.put i w inFlight).worldOf j = { s.worldOf j with store := w.store } := by
        unfold worldOf
        rw [hother hj]
        rfl
      rw [hworld]
      exact (h.follows j).restored hgrown
  · by_cases hj : j = i
    · subst hj
      rw [hdevice] at hplan ⊢
      exact (hplanned plan hplan).1
    · rw [hother hj] at hplan ⊢
      exact h.planned j plan hplan
  · by_cases hj : j = i
    · subst hj
      rw [hdevice] at hplan ⊢
      exact (hplanned plan hplan).2
    · rw [hother hj] at hplan ⊢
      exact h.read j plan hplan

/-- An operation up to a write leaves the store. -/
theorem Shared.act (hV : C.VaultLaws) (hL : C.LogLaws) (hA : C.AccountLaws) (h : Shared C s)
    (i : ι) (op : CoreOp Addr) : Shared C (s.act C i op) ∧ (s.act C i op).store = s.store := by
  have hfollows := h.follows i
  have hgrown : ∀ {w' : World Addr}, w'.store = s.store → Follows.Grown C s.store w'.store := by
    intro w' hstore
    rw [hstore]
    exact hfollows.grown_refl
  have hquiet : ∀ {w'}, op.upToWrite C (s.worldOf i) = (none, w') → Follows C w' →
      w'.store = s.store → Shared C (s.act C i op) ∧ (s.act C i op).store = s.store := by
    intro w' hop hfollows' hstore
    unfold Devices.act
    rw [hop]
    refine ⟨h.put hfollows' (hgrown hstore) ?_, hstore⟩
    rintro plan ⟨⟩
  by_cases hpublish : ∃ addr, op = .publish addr
  · obtain ⟨addr, rfl⟩ := hpublish
    rcases hplan : (planUpdate C addr).on (s.worldOf i) with ⟨r, w'⟩
    obtain ⟨hfollows', hstore, hplanned⟩ := hfollows.plan hV hL hA hplan
    rcases r with e | published | update
    · exact hquiet (by simp only [CoreOp.upToWrite, hplan]) hfollows' hstore
    · exact hquiet (by simp only [CoreOp.upToWrite, hplan]) hfollows' hstore
    · have hop : (CoreOp.publish addr).upToWrite C (s.worldOf i) = (some (addr, update), w') := by
        simp only [CoreOp.upToWrite, hplan]
      unfold Devices.act
      rw [hop]
      refine ⟨h.put hfollows' (hgrown hstore) ?_, hstore⟩
      rintro plan ⟨⟩
      exact hplanned update rfl
  · rcases hrun : op.run C (s.worldOf i) with ⟨r, w'⟩
    have hne : ∀ addr, op ≠ .publish addr := fun addr heq => hpublish ⟨addr, heq⟩
    obtain ⟨hfollows', hstore⟩ := hfollows.op hV hL hA hne hrun
    refine hquiet ?_ hfollows' hstore
    cases op with
    | publish addr => exact absurd rfl (hne addr)
    | _ => exact congrArg (Prod.mk none) (congrArg Prod.snd hrun)

/-- The store refused the write as diverged, and nothing has changed. -/
structure Write.Refused (C : Crates Addr) (p : Write ι Addr) : Prop where
  answer : p.answer = .error (.account (.provider .diverged))
  store : p.after.store = p.before.store
  core : (p.after.device p.device).core = (p.before.device p.device).core
  past : ¬p.before.store.entries C p.inFlight.addr <+: p.inFlight.read ++ p.inFlight.update.entries

/-- The store took the write, and holds what was read with what was planned after it. -/
structure Write.Taken (C : Crates Addr) (p : Write ι Addr) : Prop where
  answer : ∃ dropped, p.answer = .ok ⟨some p.inFlight.read.length, dropped⟩
  before : p.before.store.entries C p.inFlight.addr <+:
    p.inFlight.read ++ p.inFlight.update.entries
  after : p.after.store.entries C p.inFlight.addr = p.inFlight.read ++ p.inFlight.update.entries

omit [DecidableEq ι] in
/-- What was read is where the log the store holds starts. -/
theorem Shared.read_prefix (h : Shared C s) {inFlight : InFlight Addr}
    (hflight : (s.device i).inFlight = some inFlight) :
    inFlight.read <+: s.store.entries C inFlight.addr := by
  rw [← h.read i inFlight hflight]
  exact (h.follows i).behind inFlight.addr

/-- A write. -/
theorem Shared.write (hL : C.LogLaws) (hA : C.AccountLaws) (h : Shared C s)
    {inFlight : InFlight Addr} (hflight : (s.device i).inFlight = some inFlight) :
    Shared C (s.write C i inFlight).after ∧
      Follows.Grown C s.store (s.write C i inFlight).after.store ∧
      ((s.write C i inFlight).Refused C ∨ (s.write C i inFlight).Taken C) := by
  have hfollows := h.follows i
  have hplanned : Planned C inFlight.addr (s.worldOf i).core inFlight.update :=
    h.planned i inFlight hflight
  have hread : heldEntries ((s.worldOf i).core.resolver inFlight.addr) = inFlight.read :=
    h.read i inFlight hflight
  rcases hwrite : (writeUpdate C inFlight.addr inFlight.update).on (s.worldOf i) with ⟨r, w'⟩
  have hcases := hfollows.write hL hA hplanned hwrite
  rw [hread] at hcases
  have hp : s.write C i inFlight = ⟨i, inFlight, s, r, s.put i w' none⟩ := by
    unfold Devices.write
    rw [hwrite]
  rw [hp]
  rcases hcases with ⟨rfl, hstore, hcore, hpast⟩ | ⟨hanswer, hbefore, hafter, hgrown, hfollows'⟩
  · have hgrown : Follows.Grown C s.store w'.store := hstore ▸ hfollows.grown_refl
    have hfollows' : Follows C w' := by
      refine hfollows.kept hstore (by rw [hcore]) ?_ ?_
      · rw [hcore]
        exact hfollows.sound
      · rw [hcore]
        exact hfollows.written
    refine ⟨h.put hfollows' hgrown (by simp), hgrown, .inl ⟨rfl, hstore, ?_, hpast⟩⟩
    have hdevice : (s.put i w' none).device i = ⟨w'.core, w'.disk, w'.now, w'.asked, none⟩ :=
      Function.update_self ..
    dsimp only
    rw [hdevice]
    exact hcore
  · exact ⟨h.put hfollows' hgrown (by simp), hgrown, .inr ⟨hanswer, hbefore, hafter⟩⟩

/-- What happens to a device besides its operations. -/
theorem Shared.elsewhere (h : Shared C s) (i : ι) (disk : Disk) (now : ℤ) :
    Shared C (s.put i { s.worldOf i with disk := disk, now := now } (s.device i).inFlight) :=
  h.put ((h.follows i).kept rfl rfl (h.follows i).sound (h.follows i).written)
    (h.follows i).grown_refl fun plan hplan => ⟨h.planned i plan hplan, h.read i plan hplan⟩

/-- What holds of all devices holds in every run, and no log of the store loses an entry. -/
theorem Run.shared (hV : C.VaultLaws) (hL : C.LogLaws) (hA : C.AccountLaws)
    (hstart : Shared C start)
    (h : Run C start ps s) :
    Shared C s ∧ ∀ addr, start.store.entries C addr <+: s.store.entries C addr := by
  induction h with
  | nil => exact ⟨hstart, fun _ => List.prefix_rfl⟩
  | act i op _ _ ih =>
    obtain ⟨hshared, hstore⟩ := ih.1.act hV hL hA i op
    rw [hstore]
    exact ⟨hshared, ih.2⟩
  | write _ hflight ih =>
    obtain ⟨hshared, hgrown, -⟩ := ih.1.write hL hA hflight
    exact ⟨hshared, fun addr => (ih.2 addr).trans (hgrown.entries addr)⟩
  | elsewhere i disk now _ ih => exact ⟨ih.1.elsewhere i disk now, ih.2⟩

/-- A write of a run, with the run before it and what the store holds of it from then on. -/
structure Write.Performed (C : Crates Addr) (s : Devices ι Addr) (p : Write ι Addr) : Prop where
  shared : Shared C p.before
  flight : (p.before.device p.device).inFlight = some p.inFlight
  eq : p = p.before.write C p.device p.inFlight
  since : ∀ addr, p.after.store.entries C addr <+: s.store.entries C addr

theorem Run.performed (hV : C.VaultLaws) (hL : C.LogLaws) (hA : C.AccountLaws)
    (hstart : Shared C start) (h : Run C start ps s) :
    ∀ p ∈ ps, p.Performed C s := by
  induction h with
  | nil => simp
  | act i op h _ ih =>
    obtain ⟨-, hstore⟩ := (h.shared hV hL hA hstart).1.act hV hL hA i op
    intro p hp
    refine ⟨(ih p hp).shared, (ih p hp).flight, (ih p hp).eq, ?_⟩
    rw [hstore]
    exact (ih p hp).since
  | write h hflight ih =>
    have hshared := (h.shared hV hL hA hstart).1
    obtain ⟨-, hgrown, -⟩ := hshared.write hL hA hflight
    intro p hp
    rcases List.mem_append.mp hp with hp | hp
    · exact ⟨(ih p hp).shared, (ih p hp).flight, (ih p hp).eq,
        fun addr => ((ih p hp).since addr).trans (hgrown.entries addr)⟩
    · obtain rfl := List.mem_singleton.mp hp
      exact ⟨hshared, hflight, rfl, fun _ => List.prefix_rfl⟩
  | elsewhere i disk now _ ih =>
    exact fun p hp => ⟨(ih p hp).shared, (ih p hp).flight, (ih p hp).eq, (ih p hp).since⟩

theorem Write.Performed.refused_or_taken (hL : C.LogLaws) (hA : C.AccountLaws) {p : Write ι Addr}
    (h : p.Performed C s) : p.Refused C ∨ p.Taken C := by
  obtain ⟨-, -, hcases⟩ := h.shared.write hL hA h.flight
  rwa [← h.eq] at hcases

/-- The edits staged for the account on the device that wrote. -/
def Write.staged (p : Write ι Addr) : List StagedEdit :=
  ((p.before.device p.device).core.staged p.inFlight.addr).getD []

omit [DecidableEq ι] in
/-- What is in flight is what is staged, the revocations first. -/
theorem Shared.entries_eq (h : Shared C s) {inFlight : InFlight Addr}
    (hflight : (s.device i).inFlight = some inFlight) : inFlight.update.entries =
      plan (((s.device i).core.staged inFlight.addr).getD []) := by
  obtain ⟨staged, hstaged, hentries⟩ := (h.planned i inFlight hflight).staged
  rw [hstaged]
  exact hentries

/-- Any number of devices write to one store in memory, whatever they do and in whatever order, and
whatever comes between the read of a publish and its write.  The log the store holds for an account
only grows; a log read of it is where it starts; and a publish that answers with the index of its
first entry read a log of just that many, and what it planned is in the log from that index on, from
then on in every run. -/
theorem no_update_is_lost (hV : C.VaultLaws) (hL : C.LogLaws) (hA : C.AccountLaws)
    (hstart : start.Fresh C) (h : Run C start ps s) :
    (∀ qs s', Run C s qs s' → ∀ addr, s.store.entries C addr <+: s'.store.entries C addr) ∧
      (∀ i addr record, (s.device i).core.record addr = some record →
        record.log.entries <+: s.store.entries C addr) ∧
      ∀ p ∈ ps, ∀ first dropped, p.answer = .ok ⟨some first, dropped⟩ →
        first = p.inFlight.read.length ∧ p.inFlight.update.entries = plan p.staged ∧
          p.inFlight.update.entries <+: (s.store.entries C p.inFlight.addr).drop first := by
  have hshared := (h.shared hV hL hA hstart.shared).1
  refine ⟨fun qs s' hrun => (hrun.shared hV hL hA hshared).2, fun i addr record hrecord => ?_,
    fun p hp first dropped hanswer => ?_⟩
  · have hbehind := (hshared.follows i).behind addr
    have hheld : (s.worldOf i).core.resolver addr = some record := (record_eq_some.mp hrecord).2
    rw [hheld] at hbehind
    exact hbehind
  · have hp := h.performed hV hL hA hstart.shared p hp
    rcases hp.refused_or_taken hL hA with hrefused | htaken
    · rw [hrefused.answer] at hanswer
      cases hanswer
    obtain ⟨dropped', hanswer'⟩ := htaken.answer
    rw [hanswer'] at hanswer
    obtain rfl : p.inFlight.read.length = first :=
      Option.some.inj (Published.mk.inj (Except.ok.inj hanswer)).1
    refine ⟨rfl, hp.shared.entries_eq hp.flight, ?_⟩
    -- The store held what was read with the update after it, and has only grown.
    obtain ⟨more, hmore⟩ := hp.since p.inFlight.addr
    rw [htaken.after] at hmore
    rw [← hmore, List.append_assoc, List.drop_left]
    exact List.prefix_append _ _

/-! ### Two devices -/

/-- Operations of the devices, those a device has no time for left out. -/
def acts (C : Crates Addr) (s : Devices ι Addr) (ops : List (ι × CoreOp Addr)) : Devices ι Addr :=
  ops.foldl (fun s op => if (s.device op.1).inFlight.isNone then s.act C op.1 op.2 else s) s

theorem Run.acts (h : Run C start ps s) (ops : List (ι × CoreOp Addr)) :
    Run C start ps (s.acts C ops) := by
  induction ops generalizing s with
  | nil => exact h
  | cons op ops ih =>
    refine ih ?_
    dsimp only
    split
    · next hidle => exact h.act op.1 op.2 (Option.isNone_iff_eq_none.mp hidle)
    · exact h

/-- Two devices just started, on a store that holds nothing. -/
def twoFresh : Devices Bool Reference.Addr where
  store := .memory ⟨[]⟩
  device _ := ⟨.new, ⟨.empty, []⟩, 0, [], none⟩

theorem twoFresh_fresh : twoFresh.Fresh Crates.reference where
  memory := ⟨_, rfl⟩
  checks _ _ h := by cases h
  core _ := rfl
  idle _ := rfl

/-- Two devices that hold one account, and planned a name for it each. -/
def twoPlanned (name name' : String) : Devices Bool Reference.Addr :=
  twoFresh.acts Crates.reference [
    (false, .createAccount (Reference.someKey 1) none 0),
    (true, .createAccount (Reference.someKey 1) none 0),
    (false, .stageSetDisplayName ⟨(Reference.someKey 1).bytes⟩ name),
    (true, .stageSetDisplayName ⟨(Reference.someKey 1).bytes⟩ name'),
    (false, .publish ⟨(Reference.someKey 1).bytes⟩),
    (true, .publish ⟨(Reference.someKey 1).bytes⟩)]

theorem twoPlanned_run (name name' : String) :
    Run Crates.reference twoFresh [] (twoPlanned name name') := Run.nil.acts _

/-- The first of two devices to write puts its name first in the log. -/
theorem no_update_is_lost_named : ∃ p, Run Crates.reference twoFresh [p] p.after ∧
    p.inFlight.update.entries <+:
      (p.after.store.entries Crates.reference p.inFlight.addr).drop 0 := by
  have hplanned : ∃ h, ((twoPlanned "Saro" "Raya").write Crates.reference false
      (((twoPlanned "Saro" "Raya").device false).inFlight.get h)).answer = .ok ⟨some 0, 0⟩ := by
    decide +kernel
  obtain ⟨hsome, hanswer⟩ := hplanned
  have hrun := (twoPlanned_run "Saro" "Raya").write (Option.some_get hsome).symm
  generalize (twoPlanned "Saro" "Raya").write Crates.reference false _ = p at hrun hanswer
  have h := no_update_is_lost Reference.vaultLaws Reference.logLaws Reference.accountLaws
    twoFresh_fresh hrun
  exact ⟨p, hrun, (h.2.2 p (List.mem_singleton_self p) 0 0 hanswer).2.2⟩

end Devices

end AccountLogUi
