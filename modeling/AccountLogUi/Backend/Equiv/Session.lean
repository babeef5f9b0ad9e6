import AccountLogUi.Backend.Equiv.Coherent
import AccountLogUi.Backend.Session
import AccountLogUi.Ffi.Equiv.Calls
import AccountLogUi.Library.Increasing

/-!
# The screen shows what the core has

`Library.whole_laws` says that the library the backend is linked with does what the backend relies
on, as long as no import fails with its account stored already.  `screen_shows_the_core` follows:
through the C ABI, the core, the vault and the filesystem, what is drawn is what the core would
answer now.
-/

namespace AccountLogUi

open Manager

variable {Addr : Type} [DecidableEq Addr] {C : Crates Addr} {w w' : World Addr} {addr : Addr}

/-! ### Operations that fail -/

/-- An operation that fails without having asked the store left things as they were, unless it is
an import that had stored its account. -/
theorem CoreOp.refused (hV : C.VaultLaws) (hA : C.AccountLaws) (hwritten : w.core.written = none)
    {op : CoreOp Addr} (hasks : ¬op.AsksStore) {e : CoreError Addr}
    (hrun : op.run C w = (.error e, w')) :
    Refused C w w' ∨ (∃ secretHex password seed, op = .importAccount secretHex password seed) ∧
      ¬Vault.SameFiles C w.disk.fs w'.disk.fs := by
  cases CoreOp.outcome hV hA hwritten hrun with
  | refused h => exact .inl h
  | unread | published => exact absurd trivial hasks
  | @imported secretHex key password seed taken r w₁ w' hkey htake hlisted =>
    -- The account was absent before, and is there now.
    refine .inr ⟨⟨secretHex, password, seed, rfl⟩, fun hsame => ?_⟩
    obtain ⟨-, hstored, -⟩ := takeIn_ok hV htake
    refine hstored.absent ⟨password.isSome, ?_⟩
    rw [← hsame, hlisted.files, hstored.file]
    rfl

/-! ### What is shown, where no call fails -/

/-- What the directory lists, it lists once. -/
theorem Manager.Listing.unique (hV : C.VaultLaws) {fs : Fs} {held held' : List (StoredAccount Addr)}
    {listed listed' : List Addr} (h : Listing C fs held listed) (h' : Listing C fs held' listed') :
    held' = held ∧ listed' = listed := by
  refine ⟨?_, h.observed.unique h'.observed⟩
  have hincreasing : ∀ {held listed}, Listing C fs held listed →
      Increasing (fun account : StoredAccount Addr => C.addrText account.addr) held := by
    intro held listed h
    refine .of_sorted h.order ?_
    have honce := h.once
    have hmap : held.map (fun account => C.addrText account.addr) =
        (held.map (·.addr)).map C.addrText := by rw [List.map_map]; rfl
    rw [hmap]
    exact honce.map (Vault.addrText_injective hV)
  exact (hincreasing h').ext (hincreasing h) fun account =>
    (h'.files account).trans (h.files account).symm

theorem Manager.Listing.congr {fs fs' : Fs} {held : List (StoredAccount Addr)} {listed : List Addr}
    (h : Listing C fs held listed) (hdata : SameData C fs fs') : Listing C fs' held listed where
  once := h.once
  order := h.order
  files account := by
    rw [hdata.files]
    exact h.files account
  observed := h.observed.congr hdata.observed

omit [DecidableEq Addr] in
theorem Manager.Drawn.congr {fs fs' : Fs} {held : Option (StoredAccount Addr)}
    (h : Drawn C fs addr held) (hdata : SameData C fs fs') : Drawn C fs' addr held where
  some account hheld := by
    rw [hdata.files]
    exact h.some account hheld
  none hheld hpresent := h.none hheld (hdata.files.present.mp hpresent)

omit [DecidableEq Addr] in
/-- An account is drawn as one thing. -/
theorem Manager.Drawn.unique {fs : Fs} {held held' : Option (StoredAccount Addr)}
    (hsingle : ¬Vault.Doubled C fs addr) (h : Drawn C fs addr held) (h' : Drawn C fs addr held') :
    held' = held := by
  rcases held with - | ⟨addr₁, protected₁⟩ <;> rcases held' with - | ⟨addr₂, protected₂⟩
  · rfl
  · exact absurd ⟨_, (h'.some _ rfl).2⟩ (h.none rfl)
  · exact absurd ⟨_, (h.some _ rfl).2⟩ (h'.none rfl)
  · obtain ⟨haddr₁, hfile₁⟩ := h.some _ rfl
    obtain ⟨haddr₂, hfile₂⟩ := h'.some _ rfl
    obtain rfl : addr₁ = addr := haddr₁
    obtain rfl : addr₂ = addr₁ := haddr₂
    cases protected₁ <;> cases protected₂
    · rfl
    · exact absurd ⟨hfile₂, hfile₁⟩ hsingle
    · exact absurd ⟨hfile₁, hfile₂⟩ hsingle
    · rfl

/-- The account may be drawn as `held` says. -/
structure Shown (C : Crates Addr) (fs : Fs) (addr : Addr) (held : Option (StoredAccount Addr)) :
    Prop extends Drawn C fs addr held where
  known : held = Option.none → ∃ observed, Observed.Lists C fs observed ∧ addr ∈ observed

theorem Shown.congr {fs fs' : Fs} {held : Option (StoredAccount Addr)} (h : Shown C fs addr held)
    (hdata : SameData C fs fs') : Shown C fs' addr held where
  toDrawn := h.toDrawn.congr hdata
  known hnone := by
    obtain ⟨observed, hlists, hmem⟩ := h.known hnone
    exact ⟨observed, hlists.congr hdata.observed, hmem⟩

namespace Session

variable (hV : C.VaultLaws) (hA : C.AccountLaws) (l : Session C)
include hV hA

/-- The accounts of a session are listed. -/
theorem accounts_calm {held : List (StoredAccount Addr)} {listed : List Addr}
    (h : Listing C l.world.disk.fs held listed) : ((accounts C).on l.world.calm).1 =
      .ok (heldRows C l.world.core held ++ observedRows C l.world.core held listed) := by
  have hsane := l.alone.sane hV hA
  obtain ⟨rows, hrows⟩ := @accounts_answers _ C l.world.calm _ hV rfl hsane.single _ h.observed
  obtain ⟨held', listed', hlisting, rfl⟩ := accounts_ok hV hrows
  obtain ⟨rfl, rfl⟩ := h.unique hV hlisting
  rw [hrows]
  rfl

theorem listing_exists : ∃ held listed, Listing C l.world.disk.fs held listed := by
  have hsane := l.alone.sane hV hA
  obtain ⟨listed, hlists⟩ := hsane.listed
  obtain ⟨rows, hrows⟩ := @accounts_answers _ C l.world.calm _ hV rfl hsane.single _ hlists
  obtain ⟨held, listed', hlisting, -⟩ := accounts_ok hV hrows
  exact ⟨held, listed', hlisting⟩

/-- An account is drawn exactly where it may be. -/
theorem state_calm {shown : AccountState} : ((state C addr).on l.world.calm).1 = .ok shown ↔
    ∃ held, Shown C l.world.disk.fs addr held ∧ shown = stateOf C l.world.core addr held := by
  have hsane := l.alone.sane hV hA
  constructor
  · intro h
    obtain ⟨held, hshown, hdrawn, hknown, -⟩ := state_ok hV (Prod.ext h rfl)
    exact ⟨held, ⟨hdrawn, hknown⟩, hshown⟩
  · rintro ⟨held, hheld, rfl⟩
    obtain ⟨listed, hlists⟩ := hsane.listed
    have hknown : Vault.Present C l.world.disk.fs addr ∨ addr ∈ listed := by
      rcases held with - | held
      · obtain ⟨observed, hlists', hmem⟩ := hheld.known rfl
        exact .inr (hlists.unique hlists' ▸ hmem)
      · exact .inl ⟨_, (hheld.some held rfl).2⟩
    obtain ⟨shown, hshown⟩ := @state_answers _ C l.world.calm addr _ hV rfl hsane.single _ hlists
      hknown
    obtain ⟨held', rfl, hdrawn, -⟩ := state_ok hV hshown
    rw [hshown, hheld.toDrawn.unique (hsane.single addr) hdrawn]
    rfl

variable {text : CoreError Addr → String}

/-- What is listed of a session. -/
theorem listing_eq {held : List (StoredAccount Addr)} {listed : List Addr}
    (h : Listing C l.world.disk.fs held listed) : (Library.core C text).listing l =
      heldRows C l.world.core held ++ observedRows C l.world.core held listed := by
  unfold Library.core
  dsimp only
  rw [accounts_calm hV hA l h]
  rfl

/-- What is shown of an account. -/
theorem screen_eq {address : String} {shown : AccountState} :
    (Library.core C text).screen l address = some shown ↔
      ∃ addr held, parseAddress C (beforeNul address) = (.ok addr : Except (CoreError Addr) _) ∧
        Shown C l.world.disk.fs addr held ∧ shown = stateOf C l.world.core addr held := by
  unfold Library.core Ffi.state
  dsimp only
  rw [addressArg_utf8, Action.on_bind, Action.on_orFail]
  cases parseAddress C (beforeNul address) with
  | error e => simp [Except.toOption]
  | ok addr =>
    dsimp only
    rw [Action.on_bind]
    have hcalm := @state_calm _ _ C addr hV hA l shown
    generalize (state C addr).on l.world.calm = ran at hcalm
    obtain ⟨e | drawn, w'⟩ := ran
    · have hnone : ¬∃ held, Shown C l.world.disk.fs addr held ∧
          shown = stateOf C l.world.core addr held := fun h => by cases hcalm.mpr h
      simpa [Except.toOption] using hnone
    · have hsome : drawn = shown ↔ ∃ held, Shown C l.world.disk.fs addr held ∧
          shown = stateOf C l.world.core addr held := by
        rw [← hcalm]
        exact ⟨fun h => by rw [h], fun h => Except.ok.inj h⟩
      simpa [Except.toOption] using hsome

/-- What leaves the core and the data leaves what is shown. -/
theorem same {l' : Session C} (hcore : l'.world.core = l.world.core)
    (hdata : SameData C l.world.disk.fs l'.world.disk.fs) :
    (Library.core C text).Same l l' := by
  constructor
  · obtain ⟨held, listed, hlisting⟩ := l.listing_exists hV hA
    rw [listing_eq hV hA l hlisting, listing_eq hV hA l' (hlisting.congr hdata), hcore]
  · funext address
    ext shown
    rw [screen_eq hV hA, screen_eq hV hA, hcore]
    have hback : SameData C l'.world.disk.fs l.world.disk.fs :=
      ⟨fun addr p => (hdata.files addr p).symm, hdata.observed.symm⟩
    constructor
    · rintro ⟨addr, held, hparse, hshown, heq⟩
      exact ⟨addr, held, hparse, hshown.congr hback, heq⟩
    · rintro ⟨addr, held, hparse, hshown, heq⟩
      exact ⟨addr, held, hparse, hshown.congr hdata, heq⟩

end Session

/-! ### The library's laws -/

/-- The library, where no import fails with its account stored. -/
def Library.whole (C : Crates Addr) (text : CoreError Addr → String) : Library (Session C) where
  Answers task l reply l' := (Library.core C text).Answers task l reply l' ∧
    ∀ secretHex password, task = .importAccount secretHex password → reply.ok = false →
      Vault.SameFiles C l.world.disk.fs l'.world.disk.fs
  listing := (Library.core C text).listing
  screen := (Library.core C text).screen

omit [DecidableEq Addr] in
theorem CoreAnswer.reply_ok (answer : CoreAnswer Addr) : (answer.reply C).ok = true := by
  cases answer <;> rfl

omit [DecidableEq Addr] in
/-- An operation asked for of an address is one of an account. -/
theorem addressed {address : Except (CoreError Addr) Addr} {f : Addr → CoreOp Addr}
    {op : CoreOp Addr} (h : (do return f (← address) : Except (CoreError Addr) _) = .ok op) :
    ∃ addr, f addr = op := by
  cases address with
  | error e => cases h
  | ok addr => exact ⟨addr, Except.ok.inj h⟩

omit [DecidableEq Addr] in
/-- A task that is to leave things as they were where it fails asks for an operation that does not
ask the store. -/
theorem Task.not_asksStore {task : Task} (htask : task.allOrNothing = true)
    {generated : Ed25519SigningKey} {seed : ℕ} {op : CoreOp Addr}
    (hop : task.op C generated seed = .ok op) : ¬op.AsksStore := by
  cases task with
  | refresh address selection => cases htask
  | publish address => cases htask
  | accounts | createAccount password | importAccount secretHex password =>
    rw [← Except.ok.inj hop]
    exact id
  | state address | forgetAccount address | observeAccount address | stopObserving address
    | discardPending address | exportAccount address password | unlock address password
    | stageAddInstallation address keyHex | stageSetDisplayName address name
    | stageRevoke address index =>
    obtain ⟨addr, rfl⟩ := addressed hop
    exact id

omit [DecidableEq Addr] in
/-- Only an import asks for one. -/
theorem Task.import_of_op {task : Task} {generated : Ed25519SigningKey} {seed seed' : ℕ}
    {secretHex : String} {password : Option String}
    (hop : task.op C generated seed = .ok (.importAccount secretHex password seed')) :
    ∃ secretHex password, task = .importAccount secretHex password := by
  cases task with
  | importAccount secretHex password => exact ⟨secretHex, password, rfl⟩
  | accounts | createAccount password => cases Except.ok.inj hop
  | state address | forgetAccount address | observeAccount address | stopObserving address
    | discardPending address | exportAccount address password | unlock address password
    | stageAddInstallation address keyHex | stageSetDisplayName address name
    | stageRevoke address index | refresh address selection | publish address =>
    obtain ⟨addr, h⟩ := addressed hop
    cases h

section

variable {text : CoreError Addr → String} {l l' : Session C} {task : Task} {reply : Reply}

omit [DecidableEq Addr] in
/-- An address is shown as 64 characters. -/
theorem Manager.shownAs_ne (hV : C.VaultLaws) : shownAs C addr ≠ "" := by
  intro hempty
  have hlength : (shownAs C addr).toList.length = 64 := by
    unfold shownAs
    rw [String.toList_ofList]
    exact hV.addrText_length addr
  rw [hempty] at hlength
  cases hlength

/-- What leaves the core and the data, after what others did, leaves what is shown. -/
theorem Session.same_of_refused (hV : C.VaultLaws) (hA : C.AccountLaws) {w : World Addr}
    (hcore : w.core = l.world.core) (hfs : w.disk.fs = l.world.disk.fs)
    (h : Refused C w l'.world) : (Library.core C text).Same l l' :=
  l.same hV hA (h.core.trans hcore) (hfs ▸ h.data)

/-- How the library answers: refusing an argument, or with what an operation of the core answers. -/
theorem Library.answers_cases (hV : C.VaultLaws) (hA : C.AccountLaws)
    (h : (Library.core C text).Answers task l reply l') :
    ((Library.core C text).Same l l' ∧ reply.ok = false) ∨
      ∃ w generated seed op answer, w.core = l.world.core ∧ w.disk.fs = l.world.disk.fs ∧
        task.op C generated seed = .ok op ∧ op.run C w = (answer, l'.world) ∧
        reply = task.reply C text answer := by
  obtain ⟨generated, seed, w, hcore, hfs, h⟩ := h
  rw [work_eq] at h
  cases hop : task.op C generated seed with
  | error e =>
    rw [hop] at h
    obtain ⟨hreply, hworld⟩ := Prod.mk.inj h
    left
    rw [← hreply]
    exact ⟨l.same hV hA (hworld ▸ hcore) (.of_eq (hworld ▸ hfs)), rfl⟩
  | ok op =>
    rw [hop] at h
    obtain ⟨hreply, hworld⟩ := Prod.mk.inj h
    exact .inr ⟨w, generated, seed, op, (op.run C w).1, hcore, hfs, hop, Prod.ext rfl hworld,
      hreply.symm⟩

omit [DecidableEq Addr] in
/-- A call that failed told of an error. -/
theorem Task.reply_failed {answer : Except (CoreError Addr) (CoreAnswer Addr)}
    (h : (task.reply C text answer).ok = false) : ∃ e, answer = .error e := by
  cases answer with
  | error e => exact ⟨e, rfl⟩
  | ok answer =>
    have hok : task.reply C text (.ok answer) = answer.reply C := by cases task <;> rfl
    rw [hok, CoreAnswer.reply_ok] at h
    cases h

/-- A listing that is answered is the listing. -/
theorem Library.accounts_law (hV : C.VaultLaws) (hA : C.AccountLaws)
    (h : (Library.core C text).Answers .accounts l reply l') :
    (Library.core C text).Same l l' ∧
      (reply.ok = true → reply.accounts = (Library.core C text).listing l) := by
  rcases Library.answers_cases hV hA h with
    ⟨hsame, hfailed⟩ | ⟨w, generated, seed, op, answer, hcore, hfs, hop, hrun, rfl⟩
  · exact ⟨hsame, fun hok => by rw [hfailed] at hok; cases hok⟩
  obtain rfl : CoreOp.accounts = op := Except.ok.inj hop
  obtain ⟨rows, hrows, hanswer⟩ := Action.on_map_cases hrun
  refine ⟨Session.same_of_refused hV hA hcore hfs (accounts_looked hrows).refused, fun hok => ?_⟩
  cases rows with
  | error e =>
    rw [hanswer] at hok
    cases hok
  | ok rows =>
    obtain ⟨held, listed, hlisting, rfl⟩ := accounts_ok hV hrows
    rw [hfs] at hlisting
    rw [Session.listing_eq hV hA l hlisting, hanswer, hcore]
    rfl

/-- A screen that is answered is the screen. -/
theorem Library.state_law (hV : C.VaultLaws) (hA : C.AccountLaws) {address : String}
    (h : (Library.core C text).Answers (.state address) l reply l') :
    (Library.core C text).Same l l' ∧
      (reply.ok = true → reply.state = (Library.core C text).screen l address) := by
  rcases Library.answers_cases hV hA h with
    ⟨hsame, hfailed⟩ | ⟨w, generated, seed, op, answer, hcore, hfs, hop, hrun, rfl⟩
  · exact ⟨hsame, fun hok => by rw [hfailed] at hok; cases hok⟩
  unfold Task.op at hop
  dsimp only at hop
  cases hparse : (parseAddress C (beforeNul address) : Except (CoreError Addr) Addr) with
  | error e =>
    rw [hparse] at hop
    cases hop
  | ok addr =>
    rw [hparse] at hop
    obtain rfl : CoreOp.state addr = op := Except.ok.inj hop
    obtain ⟨shown, hshown, hanswer⟩ := Action.on_map_cases hrun
    refine ⟨Session.same_of_refused hV hA hcore hfs (state_looked hshown).1.refused, fun hok => ?_⟩
    cases shown with
    | error e =>
      rw [hanswer] at hok
      cases hok
    | ok shown =>
      obtain ⟨held, heq, hdrawn, hknown, -⟩ := state_ok hV hshown
      rw [hfs] at hdrawn hknown
      rw [hcore] at heq
      have hscreen : (Library.core C text).screen l address = some shown :=
        (Session.screen_eq hV hA l).mpr ⟨addr, held, hparse, ⟨hdrawn, hknown⟩, heq⟩
      rw [hscreen, hanswer]
      rfl

/-- An export leaves what is shown. -/
theorem Library.export_law (hV : C.VaultLaws) (hA : C.AccountLaws) {address password : String}
    (h : (Library.core C text).Answers (.exportAccount address password) l reply l') :
    (Library.core C text).Same l l' := by
  rcases Library.answers_cases hV hA h with
    ⟨hsame, -⟩ | ⟨w, generated, seed, op, answer, hcore, hfs, hop, hrun, rfl⟩
  · exact hsame
  obtain ⟨addr, rfl⟩ := addressed hop
  obtain ⟨secret, hsecret, -⟩ := Action.on_map_cases hrun
  rcases secret with e | secret
  · exact Session.same_of_refused hV hA hcore hfs (exportAccount_error hV hsecret).refused
  · exact Session.same_of_refused hV hA hcore hfs (exportAccount_ok hV hsecret).1.refused

/-- So does a call that fails, but for an import that had stored its account, and a call that asks
the store. -/
theorem Library.failed_law (hV : C.VaultLaws) (hA : C.AccountLaws)
    (h : (Library.core C text).Answers task l reply l') (htask : task.allOrNothing = true)
    (hfailed : reply.ok = false) : (Library.core C text).Same l l' ∨
      (∃ secretHex password, task = .importAccount secretHex password) ∧
        ¬Vault.SameFiles C l.world.disk.fs l'.world.disk.fs := by
  rcases Library.answers_cases hV hA h with
    ⟨hsame, -⟩ | ⟨w, generated, seed, op, answer, hcore, hfs, hop, hrun, hreply⟩
  · exact .inl hsame
  rw [hreply] at hfailed
  obtain ⟨e, rfl⟩ := Task.reply_failed hfailed
  have hwritten : w.core.written = none := by
    rw [hcore]
    exact l.alone.reachable.written_eq hV hA
  rcases CoreOp.refused hV hA hwritten (Task.not_asksStore htask hop) hrun with
    hrefused | ⟨⟨secretHex, password, seed', rfl⟩, hfiles⟩
  · exact .inl (Session.same_of_refused hV hA hcore hfs hrefused)
  · rw [hfs] at hfiles
    exact .inr ⟨Task.import_of_op hop, hfiles⟩

/-- What is listed is named. -/
theorem Library.named_law (hV : C.VaultLaws) (hA : C.AccountLaws) {row : AccountSummary}
    (h : row ∈ (Library.core C text).listing l) : row.address ≠ "" := by
  obtain ⟨held, listed, hlisting⟩ := l.listing_exists hV hA
  rw [Session.listing_eq hV hA l hlisting] at h
  rcases List.mem_append.mp h with hrow | hrow
  · obtain ⟨account, -, rfl⟩ := List.mem_map.mp hrow
    exact shownAs_ne hV
  · obtain ⟨addr, -, rfl⟩ := List.mem_map.mp hrow
    exact shownAs_ne hV

theorem Library.whole_listing : (Library.whole C text).listing =
    (Library.core C text).listing := rfl

theorem Library.whole_screen : (Library.whole C text).screen = (Library.core C text).screen := rfl

theorem Library.whole_same (h : (Library.core C text).Same l l') :
    (Library.whole C text).Same l l' := by
  unfold Library.Same at h ⊢
  rwa [whole_listing, whole_screen]

/-- The library keeps the backend's laws, where no import fails with its account stored. -/
theorem Library.whole_laws (hV : C.VaultLaws) (hA : C.AccountLaws) :
    (Library.whole C text).Laws where
  named l row h := by
    rw [whole_listing] at h
    exact named_law hV hA h
  accounts h := by
    obtain ⟨hsame, hrows⟩ := accounts_law hV hA h.1
    rw [whole_listing]
    exact ⟨whole_same hsame, hrows⟩
  state h := by
    obtain ⟨hsame, hscreen⟩ := state_law hV hA h.1
    rw [whole_screen]
    exact ⟨whole_same hsame, hscreen⟩
  exportAccount h := whole_same (export_law hV hA h.1)
  failed {task l reply l'} h htask hfailed := by
    rcases failed_law hV hA h.1 htask hfailed with
      hsame | ⟨⟨secretHex, password, himport⟩, hfiles⟩
    · exact whole_same hsame
    · exact absurd (h.2 secretHex password himport hfailed) hfiles

end

/-! ### The screen -/

omit [DecidableEq Addr] in
/-- An address is taken in the spelling it is shown in. -/
theorem Manager.parseAddress_shownAs (hV : C.VaultLaws) (addr : Addr) :
    parseAddress C (beforeNul (shownAs C addr)) = (.ok addr : Except (CoreError Addr) Addr) := by
  have hhex : ∀ c ∈ C.addrText addr, c ≠ Char.ofNat 0 ∧ isWhitespace c = false := by
    intro c hc
    have hdigits : ("0123456789abcdef".toList.all fun c =>
        decide (c ≠ Char.ofNat 0) && !isWhitespace c) = true := by decide +kernel
    simpa using List.all_eq_true.mp hdigits c (hV.addrText_hex addr c hc)
  have hnul : beforeNul (shownAs C addr) = shownAs C addr := by
    refine beforeNul_eq fun hmem => ?_
    rw [shownAs, String.toList_ofList] at hmem
    exact (hhex _ hmem).1 rfl
  have hfirst : (C.addrText addr).dropWhile isWhitespace = C.addrText addr := by
    rw [List.dropWhile_eq_self_iff]
    intro hne
    simp [(hhex _ (List.getElem_mem hne)).2]
  have hlast : (C.addrText addr).rdropWhile isWhitespace = C.addrText addr := by
    rw [List.rdropWhile_eq_self_iff]
    intro hne
    simp [(hhex _ (List.getLast_mem hne)).2]
  rw [hnul]
  unfold parseAddress trim shownAs
  rw [String.toList_ofList, String.toList_ofList, hfirst, hlast, hV.parseAddr_eq.mpr rfl]

/-- A run in which no import fails halfway is one of the library that keeps the laws. -/
theorem UiHost.Played.whole {text : CoreError Addr → String} {start s : UiHost (Session C)}
    {hs : List (UiHost.Happened (Session C))} (h : UiHost.Played (Library.core C text) start hs s)
    (hwhole : ∀ h ∈ hs, ¬h.Halfway) : UiHost.Played (Library.whole C text) start hs s := by
  induction h with
  | nil => exact .nil
  | @step hs s s' event hplayed hstep ih =>
    refine .step (ih fun h hmem => hwhole h (List.mem_append_left _ hmem)) ?_
    have hnot := hwhole ⟨event, s, s'⟩ (List.mem_append_right _ (List.mem_singleton_self _))
    cases hstep with
    | slot slot => exact .slot slot s
    | begin hidle hpool => exact .begin hidle hpool
    | skip hrunning => exact .skip hrunning
    | land clock hposted => exact .land clock hposted
    | @finish _ task reply l hrunning hanswers =>
      refine .finish hrunning ⟨hanswers, ?_⟩
      rintro secretHex password rfl hfailed
      by_contra hfiles
      refine hnot ⟨secretHex, password, reply, ?_, rfl, hfailed, hfiles⟩
      unfold UiHost.Happened.ran
      dsimp only
      rw [hrunning]

/-- Nothing is owed once the backend is not busy. -/
theorem Inv.rest {L : Type} {lib : Library L} {hs : List (UiHost.Happened L)} {s : UiHost L}
    (h : Inv lib hs s) (hidle : s.app.busy = false) : Owes lib s.library hs s.app [] := by
  have hnone : s.items = [] := by
    rw [← List.length_eq_zero_iff, ← h.inFlight]
    exact h.busy hidle
  rw [← hnone]
  exact h.owes

/-- What is drawn is what the core answers, were it asked now. -/
structure DrawnNow (C : Crates Addr) (w : World Addr) (b : Backend) : Prop where
  accountsJson : ((accounts C).on w).1 = .ok b.accountsJson
  stateJson : b.accountsJson = [] ∧ b.selectedAddress = "" ∧ b.stateJson = none ∨
    ∃ addr shown, b.selectedAddress = shownAs C addr ∧
      b.selectedAddress ∈ b.accountsJson.map (·.address) ∧
      ((state C addr).on w).1 = .ok shown ∧ b.stateJson = some shown

/-- Whatever is asked for, in whatever order it comes back, what is drawn is what the core answers
once the backend is not busy: as long as the core did not refuse to list the accounts or to show
one, and no import failed with its account stored. -/
theorem screen_shows_the_core (hV : C.VaultLaws) (hA : C.AccountLaws)
    {text : CoreError Addr → String} {vault : String} {l : Session C} {s : UiHost (Session C)}
    {hs : List (UiHost.Happened (Session C))}
    (hrun : UiHost.Played (Library.core C text) (UiHost.start true vault l) hs s)
    (hshown : ∀ h ∈ hs, h.shown = true) (hwhole : ∀ h ∈ hs, ¬h.Halfway)
    (hidle : s.app.busy = false) : DrawnNow C s.library.world.calm s.app := by
  -- Idle, the backend owes the screen nothing: no listing or state is still to land.
  have howes := (Inv.run (Library.whole_laws hV hA) (hrun.whole hwhole) hshown).rest hidle
  have hlisting : s.app.accountsJson = (Library.core C text).listing s.library := by
    rcases howes.listable with hsettles | ⟨⟨address, hmem⟩, -⟩
    · exact hsettles
    · cases hmem
  have honlist : OnList s.app := by
    rcases howes.selectable with honlist | ⟨item, hmem, -⟩ | ⟨address, hmem⟩
    · exact honlist
    · cases hmem
    · cases hmem
  obtain ⟨held, listed, hlists⟩ := s.library.listing_exists hV hA
  rw [Session.listing_eq hV hA s.library hlists] at hlisting
  refine ⟨by rw [hlisting]; exact Session.accounts_calm hV hA s.library hlists, ?_⟩
  have hcurrent : s.app.stateJson = current (Library.whole C text) s.library s.app :=
    howes.drawable
  unfold current at hcurrent
  rw [Library.whole_screen] at hcurrent
  rcases honlist with hmem | ⟨hnone, hrows⟩
  · right
    obtain ⟨row, hrow, haddress⟩ := List.mem_map.mp hmem
    rw [hlisting] at hrow
    -- The row drawn is that of an account held, or of one observed.
    obtain ⟨addr, hname, hknown⟩ : ∃ addr, s.app.selectedAddress = shownAs C addr ∧
        (Vault.Present C s.library.world.disk.fs addr ∨ addr ∈ listed) := by
      rw [← haddress]
      rcases List.mem_append.mp hrow with hrow | hrow
      · obtain ⟨account, haccount, rfl⟩ := List.mem_map.mp hrow
        exact ⟨account.addr, rfl, .inl ⟨_, (hlists.files account).mp haccount⟩⟩
      · obtain ⟨addr, haddr, -, rfl⟩ := (mem_observedRows hlists).mp hrow
        exact ⟨addr, rfl, .inr haddr⟩
    obtain ⟨shown, hstate⟩ := @state_answers _ C s.library.world.calm addr _ hV rfl
      (s.library.alone.sane hV hA).single _ hlists.observed hknown
    obtain ⟨drawn, hdrawn, heq⟩ :=
      (Session.state_calm hV hA s.library).mp (congrArg Prod.fst hstate)
    have hscreen : (Library.core C text).screen s.library s.app.selectedAddress = some shown :=
      (Session.screen_eq hV hA s.library).mpr
        ⟨addr, drawn, hname ▸ parseAddress_shownAs hV addr, hdrawn, heq⟩
    have hne : s.app.selectedAddress ≠ "" := by
      rw [hname]
      exact shownAs_ne hV
    rw [if_neg hne, hscreen] at hcurrent
    exact ⟨addr, shown, hname, hmem, congrArg Prod.fst hstate, hcurrent⟩
  · rw [if_pos hnone] at hcurrent
    exact .inl ⟨hrows, hnone, hcurrent⟩

/-- How the library answers by itself. -/
def Session.answer (C : Crates Addr) (text : CoreError Addr → String)
    (generated : Ed25519SigningKey) (seed : ℕ) (task : Task) (l : Session C) : Reply × Session C :=
  match task.op C generated seed with
  | .error e => ({ error := text e }, l)
  | .ok op => (task.reply C text (op.run C l.world).1, ⟨(op.run C l.world).2, .op op l.alone⟩)

theorem Session.answers {text : CoreError Addr → String} (generated : Ed25519SigningKey) (seed : ℕ)
    (task : Task) (l : Session C) : (Library.core C text).Answers task l
      (l.answer C text generated seed task).1 (l.answer C text generated seed task).2 := by
  refine ⟨generated, seed, l.world, rfl, rfl, ?_⟩
  rw [work_eq]
  unfold Session.answer
  cases task.op C generated seed <;> rfl

/-- The app, opened on a directory with an account of its own, a name staged, and one it
observes. -/
theorem screen_shows_the_core_staged :
    let run := UiHost.Run.goOn
      (Session.answer Crates.reference (fun _ => "refused") (Reference.someKey 1) 0) "09:00:00" 20
      ([], UiHost.start true "/home/user/vault"
        ⟨ownAndObserved, Alone.runs (.fresh rfl (sane_empty _)) _⟩)
    (run.2.app.stateJson.map fun shown => shown.pending.length) = some 1 ∧
      run.2.app.accountsJson.length = 2 ∧
        DrawnNow Crates.reference run.2.library.world.calm run.2.app := by
  intro run
  have hplayed : UiHost.Played (Library.core Crates.reference fun _ => "refused")
      (UiHost.start true "/home/user/vault"
        ⟨ownAndObserved, Alone.runs (.fresh rfl (sane_empty _)) _⟩) run.1 run.2 :=
    UiHost.Played.nil.goOn (Session.answers (Reference.someKey 1) 0) 20
  have hran : (run.1.all fun h => h.shown && decide (h.ran = none ∨ h.ran = some .accounts ∨
      h.ran = some (.state (shownAs Crates.reference ⟨(Reference.someKey 1).bytes⟩)))) = true ∧
      run.2.app.busy = false ∧
        (run.2.app.stateJson.map fun shown => shown.pending.length) = some 1 ∧
          run.2.app.accountsJson.length = 2 := by
    decide +kernel
  obtain ⟨hall, hidle, hpending, hrows⟩ := hran
  have hevents : ∀ h ∈ run.1, h.shown = true ∧ (h.ran = none ∨ h.ran = some .accounts ∨
      h.ran = some (.state (shownAs Crates.reference ⟨(Reference.someKey 1).bytes⟩))) := by
    intro h hmem
    simpa using List.all_eq_true.mp hall h hmem
  refine ⟨hpending, hrows, screen_shows_the_core Reference.vaultLaws Reference.accountLaws hplayed
    (fun h hmem => (hevents h hmem).1) (fun h hmem hhalf => ?_) hidle⟩
  obtain ⟨secretHex, password, reply, himport, -⟩ := hhalf
  rcases (hevents h hmem).2 with hnone | hlist | hstate
  · rw [himport] at hnone
    cases hnone
  · rw [himport] at hlist
    cases hlist
  · rw [himport] at hstate
    cases hstate

end AccountLogUi
