import AccountLogUi.Reference.Equiv.Laws
import AccountLogUi.Vault.Equiv.Locking
import Mathlib.Data.Finset.Card

/-!
# One file per account

`fileCount` is how many of an account's two names are taken.  In every run of the processes the
promotions of an account's file and its removals account for it exactly (`Accounted.files`), and
no more creates return `Ok` than promoted one (`Accounted.returns`).  With `Locking.single`, which
keeps the count at one or none, `one_file_per_account` follows.
-/

namespace AccountLogUi.Vault

variable {Addr : Type} {C : Crates Addr}

/-- How many of the account's two names are taken. -/
def fileCount (C : Crates Addr) (fs : Fs) (addr : Addr) : ℕ :=
  (fs.node (pathOf C addr true)).isSome.toNat + (fs.node (pathOf C addr false)).isSome.toNat

theorem fileCount_eq_zero {fs : Fs} {addr : Addr} (h : ¬Present C fs addr) :
    fileCount C fs addr = 0 := by
  have hnone : ∀ protected_, (fs.node (pathOf C addr protected_)).isSome = false :=
    fun protected_ => Bool.eq_false_iff.mpr fun hsome => h ⟨protected_, hsome⟩
  rw [fileCount, hnone, hnone]
  rfl

theorem fileCount_le_one {fs : Fs} {addr : Addr} (h : ¬Doubled C fs addr) :
    fileCount C fs addr ≤ 1 := by
  unfold fileCount
  unfold Doubled at h
  cases ht : (fs.node (pathOf C addr true)).isSome <;>
    cases hf : (fs.node (pathOf C addr false)).isSome <;> simp_all

/-- The count follows one name where the other stays. -/
theorem fileCount_eq_of_not {fs fs' : Fs} {addr : Addr} {protected_ : Bool}
    (h : fs'.node (pathOf C addr !protected_) = fs.node (pathOf C addr !protected_)) :
    fileCount C fs' addr + (fs.node (pathOf C addr protected_)).isSome.toNat =
      fileCount C fs addr + (fs'.node (pathOf C addr protected_)).isSome.toNat := by
  unfold fileCount
  cases protected_
  · rw [show (!false) = true from rfl] at h
    rw [h]
    omega
  · rw [show (!true) = false from rfl] at h
    rw [h]
    omega

theorem pathOf_not_ne (hV : C.VaultLaws) (addr : Addr) (protected_ : Bool) :
    pathOf C addr (!protected_) ≠ pathOf C addr protected_ :=
  fun h => Bool.not_ne_self _ ((pathOf_inj hV).mp h).2

/-- A removal is of one of the account's names. -/
theorem of_removedOk {i : ℕ} {op : VaultOp Addr} {c : FsCall} {r : Except IoError c.Value}
    {addr : Addr} (h : removedOk C addr (.called i op c r) = true) :
    r.isOk = true ∧ ∃ protected_, c = .removeFile (pathOf C addr protected_) := by
  unfold removedOk at h
  split at h
  · next heq =>
    cases heq
    refine ⟨rfl, ?_⟩
    rcases Bool.or_eq_true_iff.mp h with hname | hname
    · exact ⟨true, by rw [of_decide_eq_true hname]⟩
    · exact ⟨false, by rw [of_decide_eq_true hname]⟩
  · cases h

variable [DecidableEq Addr]

/-- A promotion is the renaming of the account's staged file to its name. -/
theorem of_promotedOk {g : Progress Addr} {i : ℕ} {op : VaultOp Addr} {c : FsCall}
    {r : Except IoError c.Value} {addr : Addr} (hgop : g.op = op)
    (hallowed : Progress.allowed C g c) (h : promotedOk C addr (.called i op c r) = true) :
    ∃ key password seed, op = .create key password seed ∧ addr = C.addrOf key ∧
      c = .rename (.staged (stageName C addr)) (pathOf C addr password.isSome) ∧
      r.isOk = true ∧ g.absent = true := by
  unfold promotedOk at h
  split at h
  · next heq =>
    cases heq
    obtain ⟨key, password, seed, hop, rfl, rfl, -, habsent, -⟩ := hallowed
    obtain ⟨rfl, rfl, rfl⟩ := VaultOp.create.inj (hop.symm.trans hgop)
    obtain rfl := of_decide_eq_true h
    exact ⟨key, password, seed, rfl, rfl, rfl, rfl, habsent⟩
  · cases h

/-- What a call does to the number of an account's files is what its event says. -/
theorem step_fileCount (hV : C.VaultLaws) {g : Progress Addr} {i : ℕ} {op : VaultOp Addr}
    {fs fs' : Fs} {c : FsCall} {r : Except IoError c.Value} (hgop : g.op = op)
    (hallowed : Progress.allowed C g c) (hstep : fs.Step i c r fs')
    (hunheld : g.absent = true → Unheld C fs g.op) (addr : Addr) :
    (if promotedOk C addr (.called i op c r) then 1 else 0) + fileCount C fs addr =
      (if removedOk C addr (.called i op c r) then 1 else 0) + fileCount C fs' addr := by
  by_cases hp : promotedOk C addr (.called i op c r) = true
  -- One file where there was none.
  · obtain ⟨key, password, seed, rfl, rfl, rfl, hok, habsent⟩ := of_promotedOk hgop hallowed hp
    rcases r with e | v
    · cases hok
    have hzero := hunheld habsent key password seed hgop
    have hother := hstep.node_eq (FsCall.not_mem_changes_rename
      (pathOf_not_ne hV (C.addrOf key) password.isSome) (pathOf_ne_stageName hV _ _ _))
    obtain ⟨file, -, hnew, -⟩ := hstep.rename_staged_ok (pathOf_ne_stageName hV _ _ _)
    have hcount := fileCount_eq_of_not hother
    have hold : (fs.node (pathOf C (C.addrOf key) password.isSome)).isSome = false :=
      Bool.eq_false_iff.mpr fun h => hzero ⟨_, h⟩
    rw [hold, hnew, fileCount_eq_zero hzero] at hcount
    rw [fileCount_eq_zero hzero, if_pos hp]
    simp only [removedOk, Bool.false_eq_true, if_false]
    simp only [Bool.toNat_false, Option.isSome_some, Bool.toNat_true] at hcount
    omega
  by_cases hr : removedOk C addr (.called i op c r) = true
  -- One file less.
  · obtain ⟨hok, protected_, rfl⟩ := of_removedOk hr
    rcases r with e | v
    · cases hok
    obtain ⟨⟨file, hold⟩, hfs⟩ := hstep.removeFile_ok
    have hnew : fs'.node (pathOf C addr protected_) = none := by
      rw [hfs, Fs.node_erase_self]
    have hother : fs'.node (pathOf C addr !protected_) = fs.node (pathOf C addr !protected_) :=
      hstep.node_eq (by simpa [FsCall.changes] using pathOf_not_ne hV addr protected_)
    have hcount := fileCount_eq_of_not hother
    rw [hold, hnew] at hcount
    rw [if_neg hp, if_pos hr]
    simp only [Option.isSome_some, Option.isSome_none, Bool.toNat_true, Bool.toNat_false] at hcount
    omega
  · have hsame : ∀ protected_,
        fs'.node (pathOf C addr protected_) = fs.node (pathOf C addr protected_) := by
      intro protected_
      rcases step_pathOf hV hallowed hstep addr protected_ with
        heq | ⟨key, password, seed, file, hop, rfl, rfl, rfl, hok, -⟩ | ⟨hop, rfl, hok, -⟩
      · exact heq
      · rcases r with e | v
        · cases hok
        · cases hgop.symm.trans hop
          exact absurd (by simp [promotedOk]) hp
      · rcases r with e | v
        · cases hok
        · exact absurd (by cases protected_ <;> simp [removedOk]) hr
    have hcount : fileCount C fs' addr = fileCount C fs addr := by
      rw [fileCount, fileCount, hsame, hsame]
    rw [if_neg hp, if_neg hr, hcount]

/-! ### Every run -/

/-- A create of the account that promoted its file and has not returned. -/
def Pending (C : Crates Addr) (addr : Addr) (s : VaultState Addr) (i : ℕ) : Prop :=
  ∃ t key password seed, s.running i = some t ∧ t.op = .create key password seed ∧
    C.addrOf key = addr ∧ t.ghost.promoted = true

/-- What the trace of a run from `fs` says of an account's files and of its creates. -/
structure Accounted (C : Crates Addr) (fs : Fs) (addr : Addr) (s : VaultState Addr) : Prop where
  /-- Promotions and removals account for the files. -/
  files : s.trace.countP (promotedOk C addr) + fileCount C fs addr =
    s.trace.countP (removedOk C addr) + fileCount C s.shared addr
  /-- Every create that returned `Ok`, or is about to, promoted a file of its own. -/
  returns : ∃ pending : Finset ℕ, (∀ i, Pending C addr s i → i ∈ pending) ∧
    s.trace.countP (createdOk addr) + pending.card ≤ s.trace.countP (promotedOk C addr)

theorem Accounted.idle (fs : Fs) (addr : Addr) : Accounted C fs addr (.idle fs) := by
  refine ⟨rfl, ∅, ?_, le_refl 0⟩
  rintro i ⟨t, key, password, seed, hi, -⟩
  cases hi

theorem Accounted.start {fs : Fs} {addr : Addr} {s : VaultState Addr} (hs : Accounted C fs addr s)
    (i : ℕ) (op : VaultOp Addr) : Accounted C fs addr (s.start i ((processes C).thread op)) := by
  obtain ⟨pending, hpending, hcard⟩ := hs.returns
  refine ⟨hs.files, pending, ?_, hcard⟩
  rintro j ⟨t, key, password, seed, hj, hop, haddr, hpromoted⟩
  rcases eq_or_ne j i with rfl | hne
  · obtain rfl : (processes C).thread op = t := by simpa [Threads.State.start] using hj
    cases hpromoted
  · exact hpending j ⟨t, key, password, seed, by simpa [Threads.State.start, hne] using hj, hop,
      haddr, hpromoted⟩

theorem Accounted.called (hV : C.VaultLaws) {fs : Fs} {addr : Addr} {s : VaultState Addr}
    (hl : Locking C s) (hs : Accounted C fs addr s) {i : ℕ} {op : VaultOp Addr} {g : Progress Addr}
    {c : FsCall} {k : Except IoError c.Value → Prog fsSig (VaultResult Addr)}
    {r : Except IoError c.Value} {fs' : Fs} (hrun : s.running i = some ⟨op, .call c k, g⟩)
    (hallowed : Progress.allowed C g c) (hstep : s.shared.Step i c r fs') :
    Accounted C fs addr (s.called i op c r fs' ⟨op, k r, Progress.next C g c r⟩) := by
  have hgop : g.op = op := hl.op_eq i _ hrun
  obtain ⟨pending, hpending, hcard⟩ := hs.returns
  constructor
  · have hcount := step_fileCount (i := i) hV hgop hallowed hstep (hl.absent i _ hrun) addr
    have hfiles := hs.files
    simp only [Threads.State.called, List.countP_cons]
    omega
  · have hcreated : createdOk addr (.called i op c r : VaultEvent Addr) = false := rfl
    simp only [Threads.State.called, List.countP_cons, hcreated, Bool.false_eq_true, if_false]
    -- A create that puts its file in place is one more that has not returned.
    by_cases hp : promotedOk C addr (.called i op c r) = true
    · refine ⟨insert i pending, ?_, ?_⟩
      · rintro j ⟨t, key, password, seed, hj, hop, haddr, hpromoted⟩
        rcases eq_or_ne j i with rfl | hne
        · exact Finset.mem_insert_self j pending
        · refine Finset.mem_insert_of_mem (hpending j ⟨t, key, password, seed, ?_, hop, haddr,
            hpromoted⟩)
          simpa [Threads.State.called, hne] using hj
      · have hinsert := Finset.card_insert_le i pending
        rw [if_pos hp]
        omega
    · refine ⟨pending, ?_, by rw [if_neg hp]; omega⟩
      rintro j ⟨t, key, password, seed, hj, hop, haddr, hpromoted⟩
      rcases eq_or_ne j i with rfl | hne
      · obtain rfl : (⟨op, k r, Progress.next C g c r⟩ : Thread _ _ _ _) = t := by
          simpa [Threads.State.called] using hj
        rcases Progress.promoted_next hpromoted with hpromoted | ⟨src, dest, rfl, hok⟩
        · exact hpending j ⟨_, key, password, seed, hrun, hop, haddr, hpromoted⟩
        · rcases r with e | v
          · cases hok
          · obtain rfl : op = .create key password seed := hop
            exact absurd (by simp [promotedOk, haddr]) hp
      · exact hpending j ⟨t, key, password, seed, by simpa [Threads.State.called, hne] using hj,
          hop, haddr, hpromoted⟩

theorem Accounted.returned {fs : Fs} {addr : Addr} {s : VaultState Addr}
    (hs : Accounted C fs addr s) {i : ℕ} {op : VaultOp Addr} {g : Progress Addr}
    {res : VaultResult Addr} (hrun : s.running i = some ⟨op, .ret res, g⟩)
    (hfin : Finished C op res g) : Accounted C fs addr (s.returned i op res) := by
  obtain ⟨pending, hpending, hcard⟩ := hs.returns
  have hpromoted : promotedOk C addr (.returned i op res) = false := rfl
  have hremoved : removedOk C addr (.returned i op res) = false := rfl
  constructor
  · simp only [Threads.State.returned, List.countP_cons, hpromoted, hremoved]
    exact hs.files
  · simp only [Threads.State.returned, List.countP_cons, hpromoted, Bool.false_eq_true, if_false]
    have hrest : ∀ j, Pending C addr (s.returned i op res) j → j ≠ i ∧ Pending C addr s j := by
      rintro j ⟨t, key, password, seed, hj, hop, haddr, hprom⟩
      rcases eq_or_ne j i with rfl | hne
      · simp [Threads.State.returned] at hj
      · exact ⟨hne, t, key, password, seed, by simpa [Threads.State.returned, hne] using hj, hop,
          haddr, hprom⟩
    by_cases hc : createdOk addr (.returned i op res : VaultEvent Addr) = true
    · -- It was about to return, and is so no longer.
      refine ⟨pending.erase i, fun j hj => ?_, ?_⟩
      · obtain ⟨hne, hj⟩ := hrest j hj
        exact Finset.mem_erase.mpr ⟨hne, hpending j hj⟩
      · have hmem : i ∈ pending := by
          unfold createdOk at hc
          split at hc
          · next key password seed addr' heq =>
            cases heq
            obtain rfl := of_decide_eq_true hc
            obtain ⟨-, -, -, hfin⟩ := hfin
            rcases hfin with ⟨hres, hprom⟩ | ⟨⟨e, hres⟩, -⟩
            · cases hres
              exact hpending i ⟨_, key, password, seed, hrun, rfl, rfl, hprom⟩
            · cases hres
          · cases hc
        have herase := Finset.card_erase_add_one hmem
        rw [if_pos hc]
        omega
    · exact ⟨pending, fun j hj => hpending j (hrest j hj).2, by rw [if_neg hc]; exact hcard⟩

theorem Accounted.reaches (hV : C.VaultLaws) {guard : VaultState Addr → ℕ → FsCall → Prop} {fs : Fs}
    (hfs : ∀ addr, ¬Doubled C fs addr) {s : VaultState Addr}
    (h : (processes C).Reaches guard (.idle fs) s) (addr : Addr) : Accounted C fs addr s := by
  refine (Threads.invariant (VaultOp.keeps hV) (I := fun s => Locking C s ∧ Accounted C fs addr s)
    ?_ ?_ ?_ h (Threads.kept_idle fs) ⟨.idle hfs, .idle fs addr⟩).2.2
  · rintro s i op ⟨hl, hs⟩ -
    exact ⟨hl.start i op, hs.start i op⟩
  · rintro s i op g c k r fs' ⟨hl, hs⟩ hrun hallowed - hstep
    exact ⟨hl.called hV hrun hallowed hstep, hs.called hV hl hrun hallowed hstep⟩
  · rintro s i op g res ⟨hl, hs⟩ hrun hfin
    exact ⟨hl.returned i op res, hs.returned hrun hfin⟩

/-- However a listing's one call goes, where no account has both spellings it does not answer
`Corrupt`. -/
theorem accounts_ne_corrupt (hV : C.VaultLaws) {fs : Fs} (hfs : ∀ addr, ¬Doubled C fs addr) (i : ℕ)
    (fault : Option Fault) (why : String) :
    ((accounts C).run.run (S := fsSig) (fun fs c => fs.exec i c fault) fs).1 ≠
      .error (.corrupt why) := by
  unfold accounts
  show (Prog.run (S := fsSig) _ (Prog.call FsCall.readDir _) fs).1 ≠ _
  rw [Prog.run_call]
  rcases hr : fs.exec i .readDir fault with ⟨r, fs'⟩
  have hstep : fs.Step i .readDir r fs' := ⟨fault, hr⟩
  rcases r with e | names
  · cases e <;> simp [Prog.run]
  · obtain ⟨rfl, hnd, hnames⟩ := hstep.readDir_ok
    obtain ⟨l, hl⟩ := (listing_isOk hV hnd).mpr fun addr ⟨ht, hf⟩ =>
      hfs addr ⟨(hnames _).mp ht, (hnames _).mp hf⟩
    simp [Prog.run, hl]

/-- One file per account under concurrency.  Processes that create and forget accounts in any
interleaving, with any of their calls failing, never leave an account both spellings, so listing
never answers `Corrupt` for it; and no more creates of an account return `Ok` than there were
removals of its file, but one where it had none to begin with. -/
theorem one_file_per_account (hV : C.VaultLaws) {fs : Fs} (hfs : ∀ addr, ¬Doubled C fs addr)
    {s : VaultState Addr} (h : (processes C).Reaches Threads.unguarded (.idle fs) s) :
    (∀ addr, ¬Doubled C s.shared addr) ∧
    (∀ i fault why, ((accounts C).run.run (S := fsSig) (fun fs c => fs.exec i c fault) s.shared).1 ≠
      .error (.corrupt why)) ∧
    ∀ addr, s.trace.countP (createdOk addr) + fileCount C fs addr ≤
      s.trace.countP (removedOk C addr) + 1 := by
  obtain ⟨-, hl⟩ := Locking.reaches hV hfs h
  refine ⟨hl.single, accounts_ne_corrupt hV hl.single, fun addr => ?_⟩
  obtain ⟨hfiles, pending, -, hreturns⟩ := Accounted.reaches hV hfs h addr
  have hone := fileCount_le_one (hl.single addr)
  omega

/-- Two processes taking the same key in at once, one under a password and one not. -/
def race (schedule : List ℕ) : VaultState Reference.Addr :=
  (processes Crates.reference).play Fs.perform
    (fun i => .create (Reference.someKey 1) (if i = 0 then some "pw" else none) 0) schedule
    (.idle .empty)

theorem reaches_race (schedule : List ℕ) :
    (processes Crates.reference).Reaches Threads.unguarded (.idle .empty) (race schedule) :=
  Threads.reaches_play (processes_exec Crates.reference) (fun _ => True)
    (fun _ _ _ _ _ => trivial) schedule (fun _ _ _ _ => trivial) trivial
    (Threads.checked_of_all (fun _ _ _ => Eq.refl true) schedule _)

theorem one_file_per_account_race :
    (race (List.replicate 7 0 ++ List.replicate 7 1 ++ List.replicate 10 0 ++
      List.replicate 10 1)).trace.countP
        (createdOk (Crates.reference.addrOf (Reference.someKey 1))) ≤ 1 := by
  obtain ⟨-, -, hcount⟩ := one_file_per_account Reference.vaultLaws
    (fun addr h => by cases h.1) (reaches_race (List.replicate 7 0 ++ List.replicate 7 1 ++
      List.replicate 10 0 ++ List.replicate 10 1))
  exact (Nat.le_add_right _ _).trans (hcount (Crates.reference.addrOf (Reference.someKey 1)))

end AccountLogUi.Vault
