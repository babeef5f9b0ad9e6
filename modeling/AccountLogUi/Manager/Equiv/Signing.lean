import AccountLogUi.Library.Since
import AccountLogUi.Manager.Equiv.Counting
import AccountLogUi.Manager.Equiv.Importing

/-!
# Which keys sign

A sealed key is opened by storing it with a password or by unlocking it with the one that opens its
file, and it stays open until the account is forgotten.  `Run.opened` says that every key a run
holds unlocked was opened so, and not forgotten since: it is the invariant of the run, and
`unlocked_of_run` its step.

`keys_sign_only_when_opened` says what follows for each operation of a run, whatever is in the
vault's directory: what it may ask of the store, which key signed what it hands over, what it takes
in and what it shows of a key.
-/

namespace AccountLogUi

open Manager

variable {Addr : Type} [DecidableEq Addr] {C : Crates Addr} {start w w' : World Addr} {addr : Addr}
  {ps : List (Performed Addr)} {key : Ed25519SigningKey}

/-- The vault keeps the account's key in a sealed file. -/
def Vault.Sealed (C : Crates Addr) (fs : Fs) (addr : Addr) : Prop :=
  (fs.node (Vault.pathOf C addr true)).isSome

/-- The password opens the account's sealed file, and the key is inside. -/
def Vault.Unseals (C : Crates Addr) (fs : Fs) (addr : Addr) (password : String)
    (key : Ed25519SigningKey) : Prop :=
  C.addrOf key = addr ∧ ∃ text synced,
    fs.node (Vault.pathOf C addr true) = some (.file ⟨.text text, synced⟩) ∧
      C.decryptKey (.text text) password = .ok key.bytes.toList

/-- The operation opened the account's key: it stored it with a password, or unlocked it with the
password of its file. -/
inductive Performed.Opens (C : Crates Addr) (addr : Addr) (key : Ed25519SigningKey)
    (p : Performed Addr) : Prop
  | created {password : String} {seed : ℕ} (hop : p.op = .createAccount key (some password) seed)
      (haddr : C.addrOf key = addr)
      (hstored : Vault.Stored C key (some password) seed p.before.disk.fs p.after.disk.fs)
  | imported {secretHex password : String} {seed : ℕ}
      (hop : p.op = .importAccount secretHex (some password) seed)
      (hkey : parseAccountKey secretHex = (.ok key : Except (CoreError Addr) _))
      (haddr : C.addrOf key = addr)
      (hstored : Vault.Stored C key (some password) seed p.before.disk.fs p.after.disk.fs)
  | unlocked {password : String} (hop : p.op = .unlock addr password) (hok : p.Answered)
      (hopens : Vault.Unseals C p.before.disk.fs addr password key)

/-- The account's key was opened, and the account not forgotten since. -/
abbrev Opened (C : Crates Addr) (addr : Addr) (key : Ed25519SigningKey)
    (ps : List (Performed Addr)) : Prop :=
  HeldSince (Performed.Opens C addr key) (Performed.Forgets addr) ps

/-- What an operation may do with keys, after those performed earlier. -/
structure KeepsKeys (C : Crates Addr) (earlier : List (Performed Addr)) (p : Performed Addr) :
    Prop where
  /-- A publish of a sealed account reaches the store only with its key opened. -/
  reaches : ∀ addr, p.op = .publish addr → Vault.Sealed C p.before.disk.fs addr →
    p.after.asked ≠ p.before.asked → ∃ key, Opened C addr key earlier
  /-- What is handed to the store is signed with the key of the account it is handed over for, one
  opened or one kept in the clear. -/
  signs : ∃ asked, p.after.asked = asked ++ p.before.asked ∧
    ∀ addr signed, .published addr signed ∈ asked → p.op = .publish addr ∧
      ∃ key, C.addrOf key = addr ∧ signed.signature = C.sign key signed.payload ∧
        (∃ log, C.verify addr signed = .ok log) ∧
        (Opened C addr key earlier ∨ ¬Vault.Sealed C p.before.disk.fs addr ∧
          (p.before.disk.fs.node (Vault.pathOf C addr false)).isSome)
  /-- A key already held is not imported again, with whatever password. -/
  imports : ∀ secretHex password seed key, p.op = .importAccount secretHex password seed →
    parseAccountKey secretHex = (.ok key : Except (CoreError Addr) _) →
    Vault.Present C p.before.disk.fs (C.addrOf key) → ¬p.Answered ∧ p.after.core = p.before.core ∧
      SameData C p.before.disk.fs p.after.disk.fs
  /-- A sealed key is shown only to who supplies the password of its file. -/
  exports : ∀ addr password secret, p.op = .exportAccount addr password →
    p.answer = .ok (.secret secret) → Vault.Sealed C p.before.disk.fs addr →
    ∃ chosen key, password = some chosen ∧ Vault.Unseals C p.before.disk.fs addr chosen key ∧
      secret = String.ofList (Hex.encode key.bytes.toList)

/-! ### One operation -/

/-- What an operation makes of the keys unlocked, and asks of the store. -/
inductive Uses (C : Crates Addr) (p : Performed Addr) : Prop
  | neither (hforgets : ∀ addr, ¬p.Forgets addr)
      (hunlocked : p.after.core.unlocked = p.before.core.unlocked)
      (hasked : p.after.asked = p.before.asked)
  | opened {addr : Addr} {key : Ed25519SigningKey} (hopens : p.Opens C addr key)
      (hunlocked : p.after.core.unlocked =
        Function.update p.before.core.unlocked addr (some key))
      (hasked : p.after.asked = p.before.asked)
  | forgot {addr : Addr} (hforgets : p.Forgets addr)
      (hunlocked : p.after.core.unlocked = Function.update p.before.core.unlocked addr none)
      (hasked : p.after.asked = p.before.asked)
  | read {addr : Addr} (hop : p.op = .refresh addr)
      (hunlocked : p.after.core.unlocked = p.before.core.unlocked)
      (hasked : p.after.asked = .fetched addr :: p.before.asked)
  /-- The key was found before the store was asked for the log, and the log handed over is signed
  with it. -/
  | published {addr : Addr} {key : Ed25519SigningKey} (hop : p.op = .publish addr)
      (hadmitted : Admitted C addr key p.before) (haddr : C.addrOf key = addr)
      (hunlocked : p.after.core.unlocked = p.before.core.unlocked)
      (hasked : p.after.asked = .fetched addr :: p.before.asked ∨
        ∃ signed log, p.after.asked = .published addr signed :: .fetched addr :: p.before.asked ∧
          signed.signature = C.sign key signed.payload ∧ C.verify addr signed = .ok log)

/-- An operation that leaves the app's own state and asks for nothing. -/
theorem Uses.quiet {p : Performed Addr} (hop : ∀ addr, p.op ≠ .forgetAccount addr)
    (hcore : p.after.core = p.before.core) (hasked : p.after.asked = p.before.asked) : Uses C p :=
  .neither (fun addr hforgets => hop addr hforgets.1) (by rw [hcore]) hasked

theorem Uses.refused {op : CoreOp Addr} {e : CoreError Addr} (hcore : w'.core = w.core)
    (hasked : w'.asked = w.asked) : Uses C ⟨op, w, .error e, w'⟩ := by
  refine .neither ?_ (by rw [hcore]) hasked
  rintro addr ⟨-, answer, hanswer⟩
  cases hanswer

theorem Uses.staging {op : CoreOp Addr} {r : Except (CoreError Addr) (CoreAnswer Addr)}
    {staged : List StagedEdit} (hop : op.Stages addr) (h : Staged C addr staged w w') :
    Uses C ⟨op, w, r, w'⟩ := by
  refine .neither ?_ (by rw [h.core]) h.offline.asked
  rintro addr' ⟨rfl, -⟩
  exact hop

/-- What a key taken in leaves, once nothing else changed the vault's files. -/
theorem stored_of_takeIn (hV : C.VaultLaws) {password : Option String} {seed : ℕ} {taken : Addr}
    {w₁ : World Addr} (h : (takeIn C key password seed).on w = (.ok taken, w₁))
    (hfiles : Vault.SameFiles C w₁.disk.fs w'.disk.fs) :
    Vault.Stored C key password seed w.disk.fs w'.disk.fs := by
  obtain ⟨-, hstored, -⟩ := takeIn_ok hV h
  refine ⟨hstored.absent, ?_, fun addr protected_ hother => ?_⟩
  · rw [hfiles]
    exact hstored.file
  · rw [hfiles]
    exact hstored.other addr protected_ hother

theorem publish_uses (hV : C.VaultLaws) (hL : C.LogLaws) (hA : C.AccountLaws)
    (hsound : Sound C w.core) (hwritten : w.core.written = none)
    {r : Except (CoreError Addr) Published} {r' : Except (CoreError Addr) (CoreAnswer Addr)}
    (h : (publish C addr).on w = (r, w')) : Uses C ⟨.publish addr, w, r', w'⟩ := by
  have hnever : ∀ addr', CoreOp.publish addr ≠ .forgetAccount addr' := fun _ hop => by cases hop
  cases publish_outcome hV hwritten h with
  | refused hoff hlooked => exact .quiet hnever hlooked.core hlooked.asked
  | unread hadmitted hfailed =>
    exact .published rfl hadmitted (hadmitted.addrOf hsound) (by rw [hfailed.core]; rfl)
      (.inl hfailed.asked)
  | nothing hadmitted hlanded =>
    exact .published rfl hadmitted (hadmitted.addrOf hsound) hlanded.read.unlocked
      (.inl hlanded.asked)
  | unfit hadmitted hlanded =>
    exact .published rfl hadmitted (hadmitted.addrOf hsound) hlanded.read.unlocked
      (.inl hlanded.asked)
  | written hadmitted hlanded hkey hplan hwrite =>
    have haddr := hadmitted.addrOf hsound
    have hplanned := Planned.of_plan hV hL hA hsound hwritten hplan
    have hsound₁ := hlanded.sound hL hA hsound
    obtain ⟨signed, hsigned, hrest⟩ := hplanned.writes hL hA hsound₁ hwrite
    obtain ⟨-, hsignature, hverify⟩ := hplanned.signed_eq hL hA hsound₁ hsigned
    rw [hkey] at hsignature
    rcases hrest with ⟨e, -, -, rfl⟩ | ⟨hwrote, -, hcore⟩
    -- Refused by the store, the log was handed over all the same.
    · exact .published rfl hadmitted haddr hlanded.read.unlocked
        (.inr ⟨signed, _, by rw [← hlanded.asked], hsignature, hverify⟩)
    · refine .published rfl hadmitted haddr ?_ (.inr ⟨signed, _, ?_, hsignature, hverify⟩)
      · rw [hcore]
        exact hlanded.read.unlocked
      · rw [hwrote.asked, hplanned.key, hlanded.asked]

/-- A key that is stored is opened where it is stored with a password. -/
theorem Uses.taken (hV : C.VaultLaws) {op : CoreOp Addr} (hop : ∀ addr, op ≠ .forgetAccount addr)
    {r : Except (CoreError Addr) (CoreAnswer Addr)} {password : Option String} {seed : ℕ}
    {taken : Addr} {w₁ : World Addr}
    (htake : (takeIn C key password seed).on w = (.ok taken, w₁)) (hcore : w'.core = w₁.core)
    (hasked : w'.asked = w₁.asked)
    (hopens : ∀ chosen, password = some chosen →
      (⟨op, w, r, w'⟩ : Performed Addr).Opens C (C.addrOf key) key) : Uses C ⟨op, w, r, w'⟩ := by
  obtain ⟨-, -, -, hoffline, hcore₁⟩ := takeIn_ok hV htake
  have hasked' : w'.asked = w.asked := hasked.trans hoffline.asked
  rcases password with - | chosen
  · exact .quiet hop (hcore.trans hcore₁) hasked'
  · exact .opened (hopens chosen rfl) (by dsimp only; rw [hcore, hcore₁]; rfl) hasked'

/-- What any operation does. -/
theorem perform_uses (hV : C.VaultLaws) (hL : C.LogLaws) (hA : C.AccountLaws) (h : Reachable C w)
    (op : CoreOp Addr) : Uses C (op.perform C w) := by
  have hsound := h.sound hV hL hA
  have hwritten := h.written_eq hV hA
  unfold CoreOp.perform
  generalize hrun : op.run C w = ran
  obtain ⟨r, w'⟩ := ran
  cases CoreOp.outcome hV hA hwritten hrun with
  | refused h => exact .refused h.core h.offline.asked
  | looked hlooks h => exact .quiet hlooks.ne_forgetAccount h.core h.asked
  | created htake =>
    refine .taken hV (fun _ hop => by cases hop) htake rfl rfl ?_
    rintro chosen rfl
    exact .created rfl rfl (takeIn_ok hV htake).2.1
  | imported hkey htake hlisted =>
    refine .taken hV (fun _ hop => by cases hop) htake hlisted.core hlisted.offline.asked ?_
    rintro chosen rfl
    exact .imported rfl hkey rfl (stored_of_takeIn hV htake hlisted.files)
  | opened hpresent haddr hopens hcore hfs hoffline =>
    exact .opened (.unlocked rfl ⟨.done, rfl⟩ ⟨haddr, hopens⟩) (by dsimp only; rw [hcore])
      hoffline.asked
  | forgot hdropped habsent hobserved hcore hoffline =>
    exact .forgot ⟨rfl, .done, rfl⟩ (by dsimp only; rw [hcore]) hoffline.asked
  | observed h => exact .quiet (fun _ hop => by cases hop) h.core h.offline.asked
  | stopped h =>
    refine .neither (fun _ hforgets => by cases hforgets.1) ?_ h.offline.asked
    rw [← h.core]
  | unread h => exact .read rfl (by dsimp only; rw [h.core]; rfl) h.asked
  | refreshed h => exact .read rfl h.read.unlocked h.asked
  | staged hstages hpresent hrestages h => exact .staging hstages h
  | discarded hpresent hcore hfs hoffline =>
    exact .neither (fun _ hforgets => by cases hforgets.1) (by dsimp only; rw [hcore])
      hoffline.asked
  | published hr h => exact publish_uses hV hL hA hsound hwritten h

/-! ### A run -/

/-- A key unlocked after an operation was opened by it, or unlocked before and not forgotten. -/
theorem Uses.unlocked {p : Performed Addr} (h : Uses C p)
    (hkey : p.after.core.unlocked addr = some key) :
    p.Opens C addr key ∨ p.before.core.unlocked addr = some key ∧ ¬p.Forgets addr := by
  cases h with
  | neither hforgets hunlocked =>
    rw [hunlocked] at hkey
    exact .inr ⟨hkey, hforgets addr⟩
  | @opened addr' key' hopens hunlocked =>
    rw [hunlocked] at hkey
    by_cases haddr : addr = addr'
    · subst haddr
      rw [Function.update_self] at hkey
      obtain rfl := Option.some.inj hkey
      exact .inl hopens
    · rw [Function.update_of_ne haddr] at hkey
      refine .inr ⟨hkey, fun hforgets => ?_⟩
      cases hopens with
      | created hop => cases hop.symm.trans hforgets.1
      | imported hop => cases hop.symm.trans hforgets.1
      | unlocked hop => cases hop.symm.trans hforgets.1
  | @forgot addr' hforgets hunlocked =>
    rw [hunlocked] at hkey
    by_cases haddr : addr = addr'
    -- Forgetting takes the key, so one there is another account's.
    · subst haddr
      rw [Function.update_self] at hkey
      cases hkey
    · rw [Function.update_of_ne haddr] at hkey
      refine .inr ⟨hkey, fun hforgets' => haddr ?_⟩
      exact (CoreOp.forgetAccount.inj (hforgets.1.symm.trans hforgets'.1)).symm
  | read hop hunlocked =>
    rw [hunlocked] at hkey
    exact .inr ⟨hkey, fun hforgets => by cases hop.symm.trans hforgets.1⟩
  | published hop _ _ hunlocked =>
    rw [hunlocked] at hkey
    exact .inr ⟨hkey, fun hforgets => by cases hop.symm.trans hforgets.1⟩

/-- Every key a run holds unlocked was opened in it, and its account not forgotten since. -/
theorem Run.opened (hV : C.VaultLaws) (hL : C.LogLaws) (hA : C.AccountLaws)
    (hstart : start.core = .new) (h : Run C start ps w)
    (hkey : w.core.unlocked addr = some key) : Opened C addr key ps := by
  induction h generalizing key with
  | nil =>
    rw [hstart] at hkey
    cases hkey
  | elsewhere _ hcore ih =>
    rw [hcore] at hkey
    exact ih hkey
  | op op hrun ih =>
    have huses := perform_uses hV hL hA (hrun.reachable (.fresh hstart)) op
    refine heldSince_concat.mpr ?_
    rcases huses.unlocked hkey with hopens | ⟨hbefore, hforgets⟩
    · exact .inl hopens
    · exact .inr ⟨ih hbefore, hforgets⟩

/-- An operation of a run was performed after a run of those before it. -/
theorem Run.split (h : Run C start ps w) {earlier later : List (Performed Addr)}
    {p : Performed Addr} (hps : ps = earlier ++ p :: later) :
    ∃ (w₁ : World Addr) (op : CoreOp Addr), Run C start earlier w₁ ∧ p = op.perform C w₁ := by
  induction h generalizing later with
  | nil => simp at hps
  | elsewhere _ _ ih => exact ih hps
  | @op ps w op hrun ih =>
    rcases List.eq_nil_or_concat later with rfl | ⟨later, q, rfl⟩
    · obtain ⟨rfl, hlast⟩ := List.append_inj' hps rfl
      exact ⟨w, op, hrun, (List.cons.inj hlast).1.symm⟩
    · rw [List.concat_eq_append, ← List.cons_append, ← List.append_assoc] at hps
      exact ih (List.append_inj' hps rfl).1

/-- A key to sign with is one opened, or one kept in the clear. -/
theorem admitted_opened (hV : C.VaultLaws) (hL : C.LogLaws) (hA : C.AccountLaws)
    (hstart : start.core = .new) (h : Run C start ps w) (hadmitted : Admitted C addr key w) :
    Opened C addr key ps ∨ ¬Vault.Sealed C w.disk.fs addr ∧
      (w.disk.fs.node (Vault.pathOf C addr false)).isSome := by
  rcases hadmitted.key with hunlocked | ⟨-, hclear⟩
  · exact .inl (h.opened hV hL hA hstart hunlocked)
  · exact .inr ⟨fun hsealed => hadmitted.single ⟨hsealed, hclear⟩, hclear⟩

/-- An account that is held already is not taken in. -/
theorem import_of_present (hV : C.VaultLaws) {secretHex : String} {password : Option String}
    {seed : ℕ} {r : Except (CoreError Addr) Addr}
    (hkey : parseAccountKey secretHex = (.ok key : Except (CoreError Addr) _))
    (hpresent : Vault.Present C w.disk.fs (C.addrOf key))
    (h : (importAccount C secretHex password seed).on w = (r, w')) :
    (∃ e, r = .error e) ∧ Refused C w w' := by
  rcases importAccount_cases hV h with
    ⟨e, hr, hrefused, -⟩ | ⟨key', taken, w₁, hkey', htake, -⟩
  · exact ⟨⟨e, hr⟩, hrefused⟩
  · rw [hkey] at hkey'
    obtain rfl := Except.ok.inj hkey'
    obtain ⟨-, hstored, -⟩ := takeIn_ok hV htake
    exact absurd hpresent hstored.absent

/-- Whatever is in the directory and whatever fails: a sealed account is published only with its key
opened, and not forgotten since; what is handed to the store is signed with a key of the account it
is handed over for; a key held is not imported again; and a sealed key is shown only for the
password of its file. -/
theorem keys_sign_only_when_opened (hV : C.VaultLaws) (hL : C.LogLaws) (hA : C.AccountLaws)
    (hstart : start.core = .new) {earlier later : List (Performed Addr)} {p : Performed Addr}
    (h : Run C start (earlier ++ p :: later) w) : KeepsKeys C earlier p := by
  obtain ⟨w₁, op, hrun, rfl⟩ := h.split rfl
  have huses := perform_uses hV hL hA (hrun.reachable (.fresh hstart)) op
  constructor
  case reaches =>
    intro addr hop hsealed hasked
    cases huses with
    | neither _ _ hsame => exact absurd hsame hasked
    | opened _ _ hsame => exact absurd hsame hasked
    | forgot _ _ hsame => exact absurd hsame hasked
    -- A refresh asks the store too, but is no publish.
    | read hop' => cases hop'.symm.trans hop
    | @published addr' key hop' hadmitted =>
      -- The key was opened, or lies in the clear; the file is sealed.
      obtain rfl := CoreOp.publish.inj (hop'.symm.trans hop)
      rcases admitted_opened hV hL hA hstart hrun hadmitted with hopened | ⟨hclear, -⟩
      · exact ⟨key, hopened⟩
      · exact absurd hsealed hclear
  case signs =>
    cases huses with
    | neither _ _ hsame => exact ⟨[], hsame, by simp⟩
    | opened _ _ hsame => exact ⟨[], hsame, by simp⟩
    | forgot _ _ hsame => exact ⟨[], hsame, by simp⟩
    | @read addr' _ _ hasked => exact ⟨[.fetched addr'], hasked, by simp⟩
    | @published addr' key hop hadmitted haddr _ hasked =>
      rcases hasked with hasked | ⟨signed, log, hasked, hsignature, hverify⟩
      · exact ⟨[.fetched addr'], hasked, by simp⟩
      refine ⟨[.published addr' signed, .fetched addr'], hasked, fun addr signed' hmem => ?_⟩
      obtain ⟨rfl, rfl⟩ : addr = addr' ∧ signed' = signed := by simpa using hmem
      exact ⟨hop, key, haddr, hsignature, ⟨log, hverify⟩,
        admitted_opened hV hL hA hstart hrun hadmitted⟩
  case imports =>
    rintro secretHex password seed key rfl hkey hpresent
    generalize hran : (importAccount C secretHex password seed).on w₁ = ran
    obtain ⟨r, w'⟩ := ran
    obtain ⟨⟨e, rfl⟩, hrefused⟩ := import_of_present hV hkey hpresent hran
    have hperform : (CoreOp.importAccount secretHex password seed).run C w₁ = (.error e, w') := by
      unfold CoreOp.run
      exact Action.on_bind_error.mpr (.inl hran)
    unfold CoreOp.perform
    rw [hperform]
    refine ⟨?_, hrefused.core, hrefused.data⟩
    rintro ⟨answer, hanswer⟩
    cases hanswer
  case exports =>
    rintro addr password secret rfl hanswer hsealed
    generalize hran : (CoreOp.exportAccount addr password).run C w₁ = ran
    obtain ⟨r, w'⟩ := ran
    unfold CoreOp.perform at hanswer
    rw [hran] at hanswer
    obtain rfl : r = .ok (.secret secret) := hanswer
    obtain ⟨secret', hexport, hsecret⟩ := Action.on_map_ok hran
    obtain rfl := CoreAnswer.secret.inj hsecret
    obtain ⟨-, key, hhex, haddr, hnode, hsingle, hopens⟩ := exportAccount_ok hV hexport
    rcases password with - | chosen
    · -- Without a password only a clear file opens.
      exact absurd ⟨hsealed, hnode⟩ hsingle
    · exact ⟨chosen, key, rfl, ⟨haddr, hopens chosen rfl⟩, hhex⟩

/-- An account is made with a password, and a name staged for it. -/
def sealedAndNamed : List (CoreOp Reference.Addr) :=
  [.createAccount (Reference.someKey 1) (some "correct horse") 0,
    .stageSetDisplayName ⟨(Reference.someKey 1).bytes⟩ "Saro"]

/-- Its publish reaches the store, since making it opened its key. -/
theorem keys_sign_only_when_opened_sealed :
    ∃ key, Opened Crates.reference ⟨(Reference.someKey 1).bytes⟩ key
      (CoreOp.performs Crates.reference sealedAndNamed (World.start [])) := by
  have hrun : Run Crates.reference (World.start []) _ _ :=
    (run_performs sealedAndNamed (World.start [])).op (.publish ⟨(Reference.someKey 1).bytes⟩)
  refine (keys_sign_only_when_opened Reference.vaultLaws Reference.logLaws Reference.accountLaws
    rfl hrun).reaches _ rfl ?_ ?_
  · unfold Vault.Sealed
    decide +kernel
  · decide +kernel

end AccountLogUi
