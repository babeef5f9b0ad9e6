import AccountLogUi.Manager.Equiv.Frame
import AccountLogUi.Observed.Equiv.List

/-!
# What an operation does to the directory

`DataStep` lists the changes the operations make to the app's data: an account's file put there or
taken away, and an address put on the observed list or taken off it.  `CoreOp.data` sums up the
operations: whatever one answers, it made some of the changes its name allows.  An invariant of the
directory, and that an operation leaves the data of the accounts it does not name
(`CoreOp.data_frame`), follow change by change.
-/

namespace AccountLogUi

open Manager Vault

variable {Addr : Type} [DecidableEq Addr] {C : Crates Addr} {w w' : World Addr} {addr addr' : Addr}

/-- One change an operation makes to the app's data. -/
inductive DataStep (C : Crates Addr) (op : CoreOp Addr) (fs fs' : Fs) : Prop
  | same (h : SameData C fs fs')
  | stored {key : Ed25519SigningKey} {password : Option String} {seed : ℕ}
      (hop : op.Concerns C (C.addrOf key)) (h : Stored C key password seed fs fs')
      (hobserved : fs'.node Observed.observedFile = fs.node Observed.observedFile)
  | dropped {addr : Addr} (hop : op = .forgetAccount addr) (h : Dropped C addr fs fs')
      (habsent : ¬Present C fs' addr)
      (hobserved : fs'.node Observed.observedFile = fs.node Observed.observedFile)
  | listed {change : Observed.Change Addr} {before after : List Addr}
      (hop : op.Concerns C change.addr) (hfiles : SameFiles C fs fs')
      (hbefore : Observed.Lists C fs before) (hafter : Observed.Lists C fs' after)
      (hmem : ∀ addr, addr ∈ after ↔ addr ∈ change.apply before)

/-- Any number of them. -/
abbrev DataSteps (C : Crates Addr) (op : CoreOp Addr) : Fs → Fs → Prop :=
  Relation.ReflTransGen (DataStep C op)

namespace Manager

theorem Refused.data_steps {op : CoreOp Addr} (h : Refused C w w') :
    DataSteps C op w.disk.fs w'.disk.fs :=
  .single (.same h.data)

theorem data_steps_of_eq {op : CoreOp Addr} {fs fs' : Fs} (h : fs' = fs) :
    DataSteps C op fs fs' := h ▸ .refl

theorem takeIn_data (hV : C.VaultLaws) {op : CoreOp Addr} {key : Ed25519SigningKey}
    {password : Option String} {seed : ℕ} {taken : Addr}
    (h : (takeIn C key password seed).on w = (.ok taken, w')) (hop : op.Concerns C (C.addrOf key)) :
    DataSteps C op w.disk.fs w'.disk.fs := by
  obtain ⟨-, hstored, hobserved, -, -⟩ := takeIn_ok hV h
  exact .single (.stored hop hstored hobserved)

theorem Listed.data_steps {op : CoreOp Addr} {change : Observed.Change Addr}
    (h : Listed C change w w') (hop : op.Concerns C change.addr) :
    DataSteps C op w.disk.fs w'.disk.fs := by
  rcases h.list with hsame | ⟨before, after, hbefore, hafter, hmem⟩
  · exact .single (.same ⟨h.files, hsame⟩)
  · exact .single (.listed hop h.files hbefore hafter hmem)

theorem publish_fs (hV : C.VaultLaws) (hwritten : w.core.written = none)
    {r : Except (CoreError Addr) Published} (h : (publish C addr).on w = (r, w')) :
    w'.disk.fs = w.disk.fs := by
  cases publish_outcome hV hwritten h with
  | refused hoff hlooked => exact hlooked.fs
  | unread hadmitted hfailed => exact hfailed.fs
  | nothing hadmitted hlanded => exact hlanded.fs
  | unfit hadmitted hlanded => exact hlanded.fs
  | written hadmitted hlanded hkey hplan hwrite =>
    refine Eq.trans ?_ hlanded.fs
    rcases writeUpdate_cases hwrite with
      ⟨e, -, -, rfl⟩ | ⟨e, signed, -, -, -, rfl⟩ | ⟨signed, hwrote, -⟩
    · rfl
    · rfl
    · exact hwrote.fs

end Manager

/-- What an operation did to the app's data, whatever it answered. -/
theorem CoreOp.data (hV : C.VaultLaws) (hA : C.AccountLaws) (hwritten : w.core.written = none)
    {op : CoreOp Addr} {r : Except (CoreError Addr) (CoreAnswer Addr)}
    (hrun : op.run C w = (r, w')) : DataSteps C op w.disk.fs w'.disk.fs := by
  cases CoreOp.outcome hV hA hwritten hrun with
  | refused h => exact h.data_steps
  | looked hlooks h => exact data_steps_of_eq h.fs
  | created h => exact takeIn_data hV h rfl
  | @imported secretHex key password seed taken r w₁ w' hkey htake hlisted =>
    obtain ⟨rfl, -⟩ := takeIn_ok hV htake
    have hop : (CoreOp.importAccount secretHex password seed).Concerns C (C.addrOf key) :=
      ⟨key, hkey, rfl⟩
    exact (takeIn_data hV htake hop).trans (hlisted.data_steps hop)
  | opened hpresent haddr hopens hcore hfs => exact data_steps_of_eq hfs
  | forgot hdropped habsent hobserved => exact .single (.dropped rfl hdropped habsent hobserved)
  | observed h => exact h.data_steps rfl
  | stopped h => exact h.data_steps rfl
  | unread h => exact data_steps_of_eq h.fs
  | refreshed h => exact data_steps_of_eq h.fs
  | staged hstages hpresent hrestages h => exact data_steps_of_eq h.fs
  | discarded hpresent hcore hfs => exact data_steps_of_eq hfs
  | published hr h => exact data_steps_of_eq (publish_fs hV hwritten h)

/-! ### The accounts an operation does not name -/

/-- A change leaves the files of every account the operation does not name, and whether it is
observed. -/
theorem DataStep.frame {op : CoreOp Addr} {fs fs' : Fs} (h : DataStep C op fs fs')
    (hop : ¬op.Concerns C addr) :
    (∀ p, fs'.node (pathOf C addr p) = fs.node (pathOf C addr p)) ∧
      (fs'.node Observed.observedFile = fs.node Observed.observedFile ∨ ∃ before after,
        Observed.Lists C fs before ∧ Observed.Lists C fs' after ∧
          (addr ∈ after ↔ addr ∈ before)) := by
  cases h with
  | same h => exact ⟨h.files addr, .inl h.observed⟩
  | @stored key password seed hstores h hobserved =>
    refine ⟨fun p => h.other addr p fun hsame => hop ?_, .inl hobserved⟩
    rw [hsame.1]
    exact hstores
  | @dropped addr' hforgets h habsent hobserved =>
    refine ⟨fun p => h.other addr p fun hsame => hop ?_, .inl hobserved⟩
    rw [hforgets, hsame]
    rfl
  | @listed change before after hchanges hfiles hbefore hafter hmem =>
    refine ⟨hfiles addr, .inr ⟨before, after, hbefore, hafter, (hmem addr).trans ?_⟩⟩
    have hne : addr ≠ change.addr := fun hsame => hop (hsame ▸ hchanges)
    cases change with
    | add addr' =>
      show addr ∈ before ++ [addr'] ↔ _
      rw [List.mem_append, List.mem_singleton]
      exact ⟨fun h => h.resolve_right hne, .inl⟩
    | remove addr' =>
      show addr ∈ before.filter (· ≠ addr') ↔ _
      rw [List.mem_filter, decide_eq_true_iff]
      exact ⟨And.left, fun h => ⟨h, hne⟩⟩

/-- An account held stays held, but for being forgotten. -/
theorem DataSteps.present {op : CoreOp Addr} {fs fs' : Fs} (h : DataSteps C op fs fs')
    (hop : op ≠ .forgetAccount addr) (hpresent : Present C fs addr) : Present C fs' addr := by
  induction h with
  | refl => exact hpresent
  | tail _ hstep ih =>
    cases hstep with
    | same h => exact h.files.present.mpr ih
    | @stored key password seed hstores h hobserved =>
      obtain ⟨p, hp⟩ := ih
      refine ⟨p, ?_⟩
      rwa [h.other addr p fun hsame => h.absent (hsame.1 ▸ ⟨p, hp⟩)]
    | @dropped addr' hforgets h habsent hobserved =>
      obtain ⟨p, hp⟩ := ih
      have hne : addr ≠ addr' := by
        rintro rfl
        exact hop hforgets
      exact ⟨p, by rwa [h.other addr p hne]⟩
    | listed hchanges hfiles => exact hfiles.present.mpr ih

/-! ### Directories of the app's own -/

/-- No account has two files, and the observed list can be read. -/
structure Sane (C : Crates Addr) (fs : Fs) : Prop where
  single : ∀ addr, ¬Doubled C fs addr
  listed : ∃ observed, Observed.Lists C fs observed

theorem sane_empty (C : Crates Addr) : Sane C .empty where
  single addr h := by
    have hfile := h.1
    cases hfile
  listed := ⟨[], .inl ⟨rfl, rfl⟩⟩

theorem DataStep.sane {op : CoreOp Addr} {fs fs' : Fs} (h : DataStep C op fs fs')
    (hsane : Sane C fs) : Sane C fs' := by
  have hlisted : fs'.node Observed.observedFile = fs.node Observed.observedFile →
      ∃ observed, Observed.Lists C fs' observed := by
    intro hnode
    obtain ⟨observed, hlists⟩ := hsane.listed
    exact ⟨observed, hlists.congr hnode⟩
  cases h with
  | same h =>
    refine ⟨fun addr hdoubled => hsane.single addr ?_, hlisted h.observed⟩
    unfold Doubled at hdoubled ⊢
    rwa [← h.files addr true, ← h.files addr false]
  | @stored key password seed hstores h hobserved =>
    refine ⟨fun addr hdoubled => ?_, hlisted hobserved⟩
    by_cases hsame : addr = C.addrOf key
    · -- One of the two spellings is the account's from before.
      refine h.absent ⟨!password.isSome, ?_⟩
      have hother := h.other (C.addrOf key) (!password.isSome)
        fun hsame => Bool.not_ne_self password.isSome hsame.2
      rw [← hother, ← hsame]
      rcases password with - | password
      · exact hdoubled.1
      · exact hdoubled.2
    · refine hsane.single addr ⟨?_, ?_⟩
      · rw [← h.other addr true fun hboth => hsame hboth.1]
        exact hdoubled.1
      · rw [← h.other addr false fun hboth => hsame hboth.1]
        exact hdoubled.2
  | @dropped addr' hforgets h habsent hobserved =>
    refine ⟨fun addr hdoubled => ?_, hlisted hobserved⟩
    by_cases hsame : addr = addr'
    · exact habsent ⟨true, hsame ▸ hdoubled.1⟩
    · refine hsane.single addr ⟨?_, ?_⟩
      · rw [← h.other addr true hsame]
        exact hdoubled.1
      · rw [← h.other addr false hsame]
        exact hdoubled.2
  | @listed change before after hchanges hfiles hbefore hafter hmem =>
    refine ⟨fun addr hdoubled => hsane.single addr ?_, after, hafter⟩
    unfold Doubled at hdoubled ⊢
    rwa [← hfiles addr true, ← hfiles addr false]

theorem DataSteps.sane {op : CoreOp Addr} {fs fs' : Fs} (h : DataSteps C op fs fs')
    (hsane : Sane C fs) : Sane C fs' := by
  induction h with
  | refl => exact hsane
  | tail _ hstep ih => exact hstep.sane ih

end AccountLogUi
