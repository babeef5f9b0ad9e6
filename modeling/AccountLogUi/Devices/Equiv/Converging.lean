import AccountLogUi.Devices.Equiv.MovedOn
import AccountLogUi.View.Equiv.Growing

/-!
# What the devices show agrees

Every device holds of an account where the one log the store holds of it starts, so no two of them
show logs that forked: one went on from the other.  A store in memory answers every read, with a log
that goes on from what the device holds, so a read that is asked for lands, and from then on, until
some device writes, the device shows the log of the store.

`devices_agree` is the result for a run, and `Follows.reads` what it rests on.
-/

namespace AccountLogUi

open Manager View

variable {Addr : Type} [DecidableEq Addr] {C : Crates Addr} {w w' : World Addr} {addr : Addr}

/-! ### Reads land -/

/-- Of each account something is held of, the store holds a log. -/
def World.Backed (w : World Addr) : Prop :=
  ∀ addr, w.core.resolver addr ≠ none → w.store.held addr ≠ none

namespace Follows

/-- The resolver takes what the store holds. -/
theorem resolves (hA : C.AccountLaws) (h : Follows C w) (hbacked : w.Backed) (addr : Addr) :
    ∃ held, C.resolve addr (w.core.resolver addr) (w.store.held addr) = .ok held := by
  have hbehind := h.behind addr
  cases hheld : w.store.held addr with
  | none =>
    have hnone : w.core.resolver addr = none := by
      by_contra hsome
      exact hbacked addr hsome hheld
    rw [hnone]
    exact ⟨none, hA.resolve_none⟩
  | some signed =>
    obtain ⟨log, hverify⟩ := h.checks addr signed hheld
    refine ⟨_, hA.resolve_extends hverify fun record hrecord => ?_⟩
    rw [hrecord, Store.entries_held hheld hverify] at hbehind
    exact hbehind

/-- No read fails. -/
theorem not_failed (hA : C.AccountLaws) (h : Follows C w) (hbacked : w.Backed) {e : AccountError} :
    ¬Failed C addr e w w' := by
  obtain ⟨held, hresolve⟩ := h.resolves hA hbacked addr
  have hfetch : (w.store.fetch addr).1 = .ok (w.store.held addr) := by
    rw [Store.fetch_memory h.memory]
  exact Manager.not_failed hfetch hresolve

/-- A refresh is refused without a request, or lands. -/
theorem reads (hV : C.VaultLaws) (hA : C.AccountLaws) (h : Follows C w) (hbacked : w.Backed)
    {r : Except (CoreError Addr) ℕ} (hrun : (refresh C addr).on w = (r, w')) :
    (∃ e, r = .error e) ∧ Looked w w' ∨ ∃ held w₁, Landed C addr held w w₁ ∧
      r = .ok ((w₁.core.dropped addr).getD 0) ∧
        w' = { w₁ with core := w₁.core.collected addr } := by
  rcases r with e | n
  · rcases refresh_error hV h.written hrun with hlooked | ⟨error, hfailed⟩
    · exact .inl ⟨⟨e, rfl⟩, hlooked⟩
    · exact absurd hfailed (h.not_failed hA hbacked)
  · obtain ⟨held, w₁, hlanded, hn, hw'⟩ := refresh_ok hV h.written hrun
    exact .inr ⟨held, w₁, hlanded, by rw [hn], hw'⟩

end Follows

/-! ### Something is held of what the store holds -/

/-- What is held stays, or a read brought it. -/
def Adopts (w w' : World Addr) : Prop :=
  w'.core.resolver = w.core.resolver ∨ ∃ addr held, (held ≠ none → w.core.resolver addr ≠ none ∨
    ∃ signed, (w.store.fetch addr).1 = .ok (some signed)) ∧
      w'.core.resolver = Function.update w.core.resolver addr held

theorem Adopts.backed (hmemory : ∃ memory, w.store = .memory memory) (hbacked : w.Backed)
    (h : Adopts w w') {addr : Addr} (hsome : w'.core.resolver addr ≠ none) :
    w.store.held addr ≠ none := by
  rcases h with hsame | ⟨addr', held, hheld, hupdate⟩
  · rw [hsame] at hsome
    exact hbacked addr hsome
  · rw [hupdate] at hsome
    by_cases haddr : addr = addr'
    · subst haddr
      rw [Function.update_self] at hsome
      rcases hheld hsome with hbefore | ⟨signed, hfetch⟩
      · exact hbacked addr hbefore
      · rw [Store.fetch_memory hmemory] at hfetch
        rw [Except.ok.inj hfetch]
        exact Option.some_ne_none signed
    · rw [Function.update_of_ne haddr] at hsome
      exact hbacked addr hsome

theorem Manager.Landed.adopts (hL : C.LogLaws) (hA : C.AccountLaws) {held : Option AccountRecord}
    (h : Landed C addr held w w') : Adopts w w' := by
  refine .inr ⟨addr, held, fun hsome => ?_, h.resolver hL⟩
  obtain ⟨fetched, hfetch, hresolve⟩ := h.resolved
  rcases hA.resolve_adopts hresolve with rfl | ⟨signed, log, rfl, -, -⟩
  · exact .inl hsome
  · exact .inr ⟨signed, hfetch⟩

theorem CoreOp.upToWrite_of_ne {op : CoreOp Addr} (hop : ∀ addr, op ≠ .publish addr)
    (w : World Addr) : op.upToWrite C w = (none, (op.run C w).2) := by
  cases op with
  | publish addr => exact absurd rfl (hop addr)
  | _ => rfl

theorem CoreOp.upToWrite_publish {r : Except (CoreError Addr) (Published ⊕ Update)}
    (h : (planUpdate C addr).on w = (r, w')) :
    ((CoreOp.publish addr).upToWrite C w).2 = w' := by
  unfold CoreOp.upToWrite
  dsimp only
  rw [h]
  rcases r with e | published | update <;> rfl

/-- Up to its write, an operation holds what it held or what it read. -/
theorem CoreOp.adopts (hV : C.VaultLaws) (hL : C.LogLaws) (hA : C.AccountLaws)
    (hwritten : w.core.written = none) (op : CoreOp Addr) :
    Adopts w (op.upToWrite C w).2 := by
  have hlooked : ∀ {w'}, Looked w w' → Adopts w w' := fun h => .inl (by rw [h.core])
  have hfailed : ∀ {addr e w'}, Failed C addr e w w' → Adopts w w' := by
    intro addr e w' h
    refine .inl ?_
    rw [h.core]
    rfl
  by_cases hpublish : ∃ addr, op = .publish addr
  · obtain ⟨addr, rfl⟩ := hpublish
    rcases hplan : (planUpdate C addr).on w with ⟨r, w'⟩
    rw [CoreOp.upToWrite_publish hplan]
    -- Up to its write a publish is a read, which was refused, failed or landed.
    cases planUpdate_outcome hV hwritten hplan with
    | refused hoff h => exact hlooked h
    | unread hadmitted h => exact hfailed h
    | nothing hadmitted hlanded =>
      have hadopts := hlanded.adopts hL hA
      exact hadopts
    | unfit hadmitted hlanded => exact hlanded.adopts hL hA
    | planned hadmitted hlanded => exact hlanded.adopts hL hA
  · have hne : ∀ addr, op ≠ .publish addr := fun addr heq => hpublish ⟨addr, heq⟩
    rw [CoreOp.upToWrite_of_ne hne]
    rcases hrun : op.run C w with ⟨r, w'⟩
    by_cases hasks : op.AsksStore
    · cases op with
      | refresh addr =>
        obtain ⟨r', hrefresh, -⟩ := Action.on_map_cases hrun
        rcases r' with e | n
        · rcases refresh_error hV hwritten hrefresh with h | ⟨error, h⟩
          · exact hlooked h
          · exact hfailed h
        · obtain ⟨held, w₁, hlanded, -, rfl⟩ := refresh_ok hV hwritten hrefresh
          have hadopts := hlanded.adopts hL hA
          exact hadopts
      | publish addr => exact absurd rfl (hne addr)
      | _ => exact hasks.elim
    · exact .inl (CoreOp.offline hV hA hwritten hasks hrun).2

/-- Up to its write, an operation makes changes of those there are. -/
theorem CoreOp.upToWrite_steps (hV : C.VaultLaws) (hA : C.AccountLaws)
    (hwritten : w.core.written = none) (op : CoreOp Addr) :
    AccountCore.Steps C w.core (op.upToWrite C w).2.core := by
  by_cases hpublish : ∃ addr, op = .publish addr
  · obtain ⟨addr, rfl⟩ := hpublish
    rcases hplan : (planUpdate C addr).on w with ⟨r, w'⟩
    rw [CoreOp.upToWrite_publish hplan]
    exact planUpdate_steps hV hwritten hplan
  · rw [CoreOp.upToWrite_of_ne fun addr heq => hpublish ⟨addr, heq⟩]
    exact CoreOp.steps hV hA hwritten op

/-- A log a store holds is not taken from it by a write. -/
theorem Store.held_publish_ne_none {store : Store Addr} (hmemory : ∃ memory, store = .memory memory)
    {addr' : Addr} (signed : SignedAccountLog) (hsome : store.held addr ≠ none) :
    (store.publish addr' signed).2.held addr ≠ none := by
  by_cases haddr : addr = addr'
  · subst haddr
    cases hanswer : (store.publish addr signed).1 with
    | ok u =>
      rw [Store.held_publish_ok hanswer]
      exact Option.some_ne_none signed
    | error e =>
      rw [(Store.publish_memory_error hmemory hanswer).2.1]
      exact hsome
  · rw [Store.held_publish_ne store haddr]
    exact hsome

/-- A write adds a log to the store, or nothing. -/
theorem Follows.write_backed (hL : C.LogLaws) (hA : C.AccountLaws) (h : Follows C w)
    {update : Update} (hplanned : Planned C addr w.core update)
    {r : Except (CoreError Addr) Published} (hwrite : (writeUpdate C addr update).on w = (r, w')) :
    (∀ other, w.store.held other ≠ none → w'.store.held other ≠ none) ∧
      (w.Backed → w'.Backed) := by
  obtain ⟨signed, hsigned, hrest⟩ := hplanned.writes hL hA h.sound hwrite
  rcases hrest with ⟨e, -, -, rfl⟩ | ⟨hwrote, -, hcore⟩
  · have hkept := fun other => @Store.held_publish_ne_none _ _ other _ h.memory addr signed
    exact ⟨hkept, fun hbacked other hsome => hkept other (hbacked other hsome)⟩
  · have htaken := hwrote.taken
    have hstore := hwrote.store
    rw [hplanned.key] at htaken hstore
    have hkept : ∀ other, w.store.held other ≠ none → w'.store.held other ≠ none := by
      intro other hsome
      rw [hstore]
      exact Store.held_publish_ne_none h.memory signed hsome
    refine ⟨hkept, fun hbacked other hsome => ?_⟩
    by_cases hother : other = addr
    · subst hother
      rw [hstore, Store.held_publish_ok htaken]
      exact Option.some_ne_none signed
    · have hresolver : w'.core.resolver other = w.core.resolver other := by
        rw [hcore]
        exact Function.update_of_ne hother ..
      rw [hresolver] at hsome
      exact hkept other (hbacked other hsome)

namespace Devices

variable {ι : Type} [DecidableEq ι] {start s s' : Devices ι Addr} {i j : ι}
  {ps : List (Write ι Addr)}

omit [DecidableEq Addr] in
theorem worldOf_put (s : Devices ι Addr) (i : ι) (w : World Addr)
    (inFlight : Option (InFlight Addr)) : (s.put i w inFlight).worldOf i = w := by
  have hdevice : (s.put i w inFlight).device i = ⟨w.core, w.disk, w.now, w.asked, inFlight⟩ :=
    Function.update_self ..
  unfold worldOf
  rw [hdevice]
  rfl

omit [DecidableEq Addr] in
theorem worldOf_put_ne (s : Devices ι Addr) (hne : j ≠ i) (w : World Addr)
    (inFlight : Option (InFlight Addr)) :
    (s.put i w inFlight).worldOf j = { s.worldOf j with store := w.store } := by
  have hdevice : (s.put i w inFlight).device j = s.device j := Function.update_of_ne hne ..
  unfold worldOf
  rw [hdevice]
  rfl

/-- Of all that is held the store holds something, where one device went on and the store kept what
it held. -/
theorem backed_put (hbacked : ∀ j, (s.worldOf j).Backed)
    {w : World Addr} {inFlight : Option (InFlight Addr)}
    (hkept : ∀ addr, s.store.held addr ≠ none → w.store.held addr ≠ none) (hdevice : w.Backed) :
    ∀ j, ((s.put i w inFlight).worldOf j).Backed := by
  intro j
  by_cases hj : j = i
  · subst hj
    rw [worldOf_put]
    exact hdevice
  · rw [worldOf_put_ne s hj]
    exact fun addr hsome => hkept addr (hbacked j addr hsome)

theorem Run.backed (hV : C.VaultLaws) (hL : C.LogLaws) (hA : C.AccountLaws)
    (hstart : start.Fresh C) (h : Run C start ps s) : ∀ i, (s.worldOf i).Backed := by
  induction h with
  | nil =>
    intro i addr hsome
    have hcore : (start.worldOf i).core = .new := hstart.core i
    rw [hcore] at hsome
    exact absurd rfl hsome
  | @act ps s i op h _ ih =>
    obtain ⟨hshared, -⟩ := h.shared hV hL hA hstart.shared
    have hfollows := hshared.follows i
    have hstore : (op.upToWrite C (s.worldOf i)).2.store = s.store :=
      (hshared.act hV hL hA i op).2
    have hadopts := op.adopts hV hL hA hfollows.written
    refine backed_put ih (fun addr hsome => by rwa [hstore]) fun addr hsome => ?_
    rw [hstore]
    exact hadopts.backed hfollows.memory (ih i) hsome
  | @write ps s i inFlight h hflight ih =>
    obtain ⟨hshared, -⟩ := h.shared hV hL hA hstart.shared
    have hplanned : Planned C inFlight.addr (s.worldOf i).core inFlight.update :=
      hshared.planned i inFlight hflight
    obtain ⟨hkept, hbacked⟩ := (hshared.follows i).write_backed hL hA hplanned rfl
    exact backed_put ih hkept (hbacked (ih i))
  -- Files changed and time passing touch neither the store nor what is held.
  | elsewhere i disk now _ ih => exact backed_put ih (fun _ hsome => hsome) (ih i)

/-! ### What is drawn -/

/-- What is drawn of an account that is not of this device alone. -/
def ofLog (shown : AccountState) : AccountState :=
  { shown with
    managed := false
    protected_ := false
    locked := false
    readAtMs := none
    problem := none
    pending := [] }

omit [DecidableEq Addr] in
/-- One log is drawn the same on every device. -/
theorem ofLog_stateOf (hL : C.LogLaws) (hA : C.AccountLaws) {core core' : AccountCore Addr}
    (hsound : Sound C core) (hsound' : Sound C core') {record record' : AccountRecord}
    (hrecord : core.record addr = some record) (hrecord' : core'.record addr = some record')
    (hentries : record.log.entries = record'.log.entries)
    (held held' : Option (StoredAccount Addr)) :
    ofLog (stateOf C core addr held) = ofLog (stateOf C core' addr held') := by
  have hlog : record.log = record'.log := congrArg AccountLog.mk hentries
  obtain ⟨hanswered, hheld⟩ := record_eq_some.mp hrecord
  obtain ⟨hanswered', hheld'⟩ := record_eq_some.mp hrecord'
  have hbytes : record.signedLog.payload = record'.signedLog.payload := by
    rw [hL.decode_payload (hA.verify_decode (hsound.resolver addr record hheld)),
      hL.decode_payload (hA.verify_decode (hsound'.resolver addr record' hheld')), hlog]
  unfold ofLog stateOf
  dsimp only
  rw [hrecord, hrecord', hanswered, hanswered']
  dsimp only [Option.map_some, Option.elim_some]
  rw [hlog, hbytes]
  rfl

/-! ### Catching up -/

/-- The device holds all of the log the store holds. -/
def CaughtUp (C : Crates Addr) (addr : Addr) (i : ι) (s : Devices ι Addr) : Prop :=
  heldEntries ((s.worldOf i).core.resolver addr) = s.store.entries C addr

/-- Until some device writes, a device that caught up stays so. -/
theorem Shared.caughtUp_act (hV : C.VaultLaws) (hL : C.LogLaws) (hA : C.AccountLaws)
    (hshared : Shared C s) (j : ι) (op : CoreOp Addr) (h : CaughtUp C addr i s) :
    CaughtUp C addr i (s.act C j op) := by
  obtain ⟨hshared', hstore⟩ := hshared.act hV hL hA j op
  have hbehind := (hshared'.follows i).behind addr
  have hentries : ((s.act C j op).worldOf i).store.entries C addr = s.store.entries C addr := by
    show (s.act C j op).store.entries C addr = _
    rw [hstore]
  rw [hentries, ← h] at hbehind
  unfold CaughtUp
  rw [hstore, ← h]
  by_cases hj : i = j
  · -- What it holds only grows, up to what the store holds, which it held already.
    subst hj
    have hgrows := (op.upToWrite_steps hV hA (hshared.follows i).written).held_log_grows hA addr
    have hworld : (s.act C i op).worldOf i = (op.upToWrite C (s.worldOf i)).2 := worldOf_put ..
    rw [hworld] at hbehind ⊢
    exact hbehind.eq_of_length_le hgrows.length_le
  · have hworld : (s.act C j op).worldOf i =
        { s.worldOf i with store := (op.upToWrite C (s.worldOf j)).2.store } :=
      worldOf_put_ne s hj ..
    rw [hworld]

theorem Run.caughtUp (hV : C.VaultLaws) (hL : C.LogLaws) (hA : C.AccountLaws)
    (hshared : Shared C s) (h : Run C s ps s') (hquiet : ps = []) (hcaught : CaughtUp C addr i s) :
    CaughtUp C addr i s' := by
  induction h with
  | nil => exact hcaught
  | act j op h _ ih => exact ((h.shared hV hL hA hshared).1).caughtUp_act hV hL hA j op (ih hquiet)
  | write _ _ _ => simp at hquiet
  | @elsewhere ps s' j disk now h ih =>
    have hbefore := ih hquiet
    unfold CaughtUp at hbefore ⊢
    by_cases hj : i = j
    · subst hj
      rw [worldOf_put]
      exact hbefore
    · rw [worldOf_put_ne s' hj]
      exact hbefore

/-- A refresh that answers catches up. -/
theorem Shared.caughtUp_refresh (hV : C.VaultLaws) (hL : C.LogLaws) (hA : C.AccountLaws)
    (hshared : Shared C s) {n : ℕ} {w : World Addr}
    (hrun : (refresh C addr).on (s.worldOf i) = (.ok n, w)) :
    CaughtUp C addr i (s.act C i (.refresh addr)) := by
  have hfollows := hshared.follows i
  obtain ⟨held, w₁, hlanded, -, rfl⟩ := refresh_ok hV hfollows.written hrun
  obtain ⟨-, -, hentries⟩ := hfollows.landed hL hA hlanded
  have hstore := (hshared.act hV hL hA i (.refresh addr)).2
  have hworld : (s.act C i (.refresh addr)).worldOf i =
      { w₁ with core := w₁.core.collected addr } := by
    have hup : ((CoreOp.refresh addr).upToWrite C (s.worldOf i)).2 =
        { w₁ with core := w₁.core.collected addr } := by
      rw [CoreOp.upToWrite_of_ne (by simp)]
      exact congrArg Prod.snd (Action.on_bind_ok.mpr ⟨_, _, hrun, rfl⟩)
    rw [← hup]
    exact worldOf_put ..
  unfold CaughtUp
  rw [hworld, hstore]
  exact hentries

/-- A refresh of the account on the device answered, and no device has written since. -/
def Refreshed (C : Crates Addr) (start : Devices ι Addr) (addr : Addr) (i : ι)
    (s : Devices ι Addr) : Prop :=
  ∃ (ps : List (Write ι Addr)) (s₁ : Devices ι Addr) (n : ℕ) (w : World Addr),
    Run C start ps s₁ ∧ (s₁.device i).inFlight = none ∧
      (refresh C addr).on (s₁.worldOf i) = (.ok n, w) ∧ Run C (s₁.act C i (.refresh addr)) [] s

theorem Refreshed.caughtUp (hV : C.VaultLaws) (hL : C.LogLaws) (hA : C.AccountLaws)
    (hstart : start.Fresh C) (h : Refreshed C start addr i s) : CaughtUp C addr i s := by
  obtain ⟨ps, s₁, n, w, hrun, -, hrefresh, hquiet⟩ := h
  have hshared := (hrun.shared hV hL hA hstart.shared).1
  exact hquiet.caughtUp hV hL hA (hshared.act hV hL hA i _).1 rfl
    (hshared.caughtUp_refresh hV hL hA hrefresh)

/-- Any number of devices on one store in memory, whatever they do and in whatever order.  What two
of them show of an account never forked: one went on from the other; and it is the same, where each
was refreshed since some device last wrote.  A refresh is refused without asking the store, or
lands. -/
theorem devices_agree (hV : C.VaultLaws) (hL : C.LogLaws) (hA : C.AccountLaws)
    (hstart : start.Fresh C) (h : Run C start ps s) (addr : Addr) (i : ι) :
    (∀ r w, (refresh C addr).on (s.worldOf i) = (r, w) →
      (∃ e, r = .error e) ∧ Looked (s.worldOf i) w ∨ (∃ n, r = .ok n) ∧
        heldEntries (w.core.record addr) = s.store.entries C addr) ∧
      ∀ j shown shown' w w', (state C addr).on (s.worldOf i) = (.ok shown, w) →
        (state C addr).on (s.worldOf j) = (.ok shown', w') → shown.published = true →
        shown'.published = true → (Grown shown shown' ∨ Grown shown' shown) ∧
          (Refreshed C start addr i s → Refreshed C start addr j s →
            ofLog shown = ofLog shown') := by
  have hshared := (h.shared hV hL hA hstart.shared).1
  refine ⟨fun r w hrun => ?_, fun j shown shown' w w' hshown hshown' hpublished hpublished' => ?_⟩
  · have hfollows := hshared.follows i
    rcases hfollows.reads hV hA (h.backed hV hL hA hstart i) hrun with
      hrefused | ⟨held, w₁, hlanded, rfl, rfl⟩
    · exact .inl hrefused
    · obtain ⟨-, -, hentries⟩ := hfollows.landed hL hA hlanded
      refine .inr ⟨⟨_, rfl⟩, ?_⟩
      have hanswered : (w₁.core.collected addr).answered addr = true := hlanded.answered hL
      rw [record_of_answered hanswered]
      exact hentries
  · obtain ⟨record, hrecord, hauthentic⟩ :=
      authentic_of_state hL (hshared.follows i).sound hshown hpublished
    obtain ⟨record', hrecord', hauthentic'⟩ :=
      authentic_of_state hL (hshared.follows j).sound hshown' hpublished'
    have hheld := (record_eq_some.mp hrecord).2
    have hheld' := (record_eq_some.mp hrecord').2
    have hbehind := (hshared.follows i).behind addr
    have hbehind' := (hshared.follows j).behind addr
    rw [hheld] at hbehind
    rw [hheld'] at hbehind'
    refine ⟨?_, fun hrefreshed hrefreshed' => ?_⟩
    -- Both hold a start of the one log of the store.
    · rcases List.prefix_or_prefix_of_prefix hbehind hbehind' with hextends | hextends
      · exact .inl (hauthentic.grown hL hA hauthentic' hextends)
      · exact .inr (hauthentic'.grown hL hA hauthentic hextends)
    · have hcaught := hrefreshed.caughtUp hV hL hA hstart
      have hcaught' := hrefreshed'.caughtUp hV hL hA hstart
      unfold CaughtUp at hcaught hcaught'
      rw [hheld] at hcaught
      rw [hheld'] at hcaught'
      obtain ⟨held, rfl⟩ := state_stateOf hshown
      obtain ⟨held', rfl⟩ := state_stateOf hshown'
      exact ofLog_stateOf hL hA (hshared.follows i).sound (hshared.follows j).sound hrecord hrecord'
        (hcaught.trans hcaught'.symm) held held'

/-- Two devices planned different names, and wrote them; both are refreshed then, and show the name
of the first. -/
theorem devices_agree_after_two_names : ∃ shown shown' : AccountState,
    shown.displayName = some "Saro" ∧ shown.pending = [] ∧ shown'.pending.length = 1 ∧
      ofLog shown = ofLog shown' := by
  let addr : Reference.Addr := ⟨(Reference.someKey 1).bytes⟩
  obtain ⟨p, q, hrun, -, hq⟩ := twoPlanned_writes "Saro" "Raya" (P := fun _ => True)
    (Q := fun _ q =>
      let s := q.after.act Crates.reference false (.refresh addr)
      let s' := s.act Crates.reference true (.refresh addr)
      ((q.after.device false).inFlight.isNone = true ∧ (s.device true).inFlight.isNone = true) ∧
        (((refresh Crates.reference addr).on (q.after.worldOf false)).1.toOption.isSome = true ∧
          ((refresh Crates.reference addr).on (s.worldOf true)).1.toOption.isSome = true) ∧
        ((state Crates.reference addr).on (s'.worldOf false)).1.toOption.any (fun shown =>
          decide (shown.published = true) && (decide (shown.displayName = some "Saro") &&
            decide (shown.pending = []))) = true ∧
        ((state Crates.reference addr).on (s'.worldOf true)).1.toOption.any (fun shown =>
          decide (shown.published = true) && decide (shown.pending.length = 1)) = true)
    (by decide +kernel)
  obtain ⟨⟨hidle, hidle'⟩, ⟨hok, hok'⟩, hfirst, hsecond⟩ := hq
  obtain ⟨n, w, hrefresh⟩ := Action.on_of_isSome hok
  obtain ⟨n', w', hrefresh'⟩ := Action.on_of_isSome hok'
  obtain ⟨shown, hshown, hfacts⟩ := (Option.any_eq_true ..).mp hfirst
  obtain ⟨shown', hshown', hfacts'⟩ := (Option.any_eq_true ..).mp hsecond
  rw [Bool.and_eq_true, decide_eq_true_iff] at hfacts hfacts'
  rw [Bool.and_eq_true, decide_eq_true_iff, decide_eq_true_iff] at hfacts
  rw [decide_eq_true_iff] at hfacts'
  have hrun₁ := hrun.act false (.refresh addr) (Option.isNone_iff_eq_none.mp hidle)
  have hrun₂ := hrun₁.act true (.refresh addr) (Option.isNone_iff_eq_none.mp hidle')
  have hquiet := (Run.nil (C := Crates.reference)).act true (.refresh addr)
    (Option.isNone_iff_eq_none.mp hidle')
  have hagree := (devices_agree Reference.vaultLaws Reference.logLaws Reference.accountLaws
    twoFresh_fresh hrun₂ addr false).2 true shown shown' _ _ (Action.on_of_toOption hshown)
    (Action.on_of_toOption hshown') hfacts.1 hfacts'.1
  exact ⟨shown, shown', hfacts.2.1, hfacts.2.2, hfacts'.2, hagree.2
    ⟨_, _, n, w, hrun, Option.isNone_iff_eq_none.mp hidle, hrefresh, hquiet⟩
    ⟨_, _, n', w', hrun₁, Option.isNone_iff_eq_none.mp hidle', hrefresh', .nil⟩⟩

end Devices

end AccountLogUi
