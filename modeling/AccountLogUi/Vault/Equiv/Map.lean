import AccountLogUi.Library.Increasing
import AccountLogUi.Reference.Equiv.Laws
import AccountLogUi.Vault.Equiv.Tidy
import Mathlib.Data.Finmap

/-!
# The vault is a map

What the vault is for: a finite map from an address to its key and to the password it takes, if it
takes one.  `KeyMap.Does` says what each operation answers of such a map and makes of it.

`Represents` says the directory holds the map, and `vault_refines_map` that every run of operations
on the directory is one on the map: an operation does what it does on the map, or, where one of its
calls failed, answers an error and leaves the map.
-/

namespace AccountLogUi.Vault

variable {Addr : Type} {C : Crates Addr} {fs fs' : Fs} {disk : Disk}

/-! ### Programs that give up -/

theorem openSealed_givesUp (path : List Char) (password : String) :
    FsM.GivesUp (openSealed C path password).run := by
  refine (FsM.givesUp_io _ _).bind fun text => ?_
  refine (FsM.givesUp_mk_ret _).bind fun _ => ?_
  refine FsM.GivesUp.bind ⟨fun _ => ⟨_, rfl⟩, fun r => ?_⟩ fun secret => FsM.givesUp_mk_ret _
  cases r <;> trivial

theorem openClear_givesUp (path : List Char) :
    FsM.GivesUp (openClear path : FsM (VaultError Addr) Ed25519SigningKey).run :=
  (FsM.givesUp_io _ _).bind fun _ => FsM.givesUp_mk_ret _

variable [DecidableEq Addr]

theorem accounts_givesUp : FsM.GivesUp (accounts C).run := by
  refine ⟨fun _ => ⟨_, rfl⟩, fun r => ?_⟩
  rcases r with e | names
  · cases e <;> trivial
  · trivial

theorem openKey_givesUp (addr : Addr) (password : Option String) :
    FsM.GivesUp (openKey C addr password).run := by
  refine accounts_givesUp.bind fun held => ?_
  split
  · next stored hfind =>
    refine FsM.GivesUp.bind ?_ fun key => ?_
    · split
      · exact openSealed_givesUp _ _
      · exact openClear_givesUp _
      · exact FsM.givesUp_throw _
      · exact FsM.givesUp_throw _
    · dsimp only
      split
      · exact FsM.givesUp_throw _
      · exact FsM.givesUp_pure _
  · exact FsM.givesUp_throw _

/-! ### The map -/

/-- The keys held, each under its address, with the password it takes, if it takes one. -/
abbrev KeyMap (Addr : Type) := Finmap fun _ : Addr => Ed25519SigningKey × Option String

namespace KeyMap

/-- The accounts of the map, in address order, each with whether it takes a password. -/
def Listed (C : Crates Addr) (m : KeyMap Addr) (l : List (StoredAccount Addr)) : Prop :=
  Increasing C.addrText (l.map (·.addr)) ∧ ∀ account : StoredAccount Addr, account ∈ l ↔
    ∃ key chosen, m.lookup account.addr = some (key, chosen) ∧ account.protected_ = chosen.isSome

/-- What an operation answers of a map, and makes of it. -/
def Does (C : Crates Addr) (m : KeyMap Addr) : VaultOp Addr → VaultResult Addr → KeyMap Addr → Prop
  | .create key password _, answer, m' =>
    if password = some "" then answer = .error .emptyPassword ∧ m' = m
    -- A key is never replaced.
    else if C.addrOf key ∈ m then answer = .error (.accountExists (C.addrOf key)) ∧ m' = m
    else answer = .ok (.created (C.addrOf key)) ∧ m' = m.insert (C.addrOf key) (key, password)
  | .openKey addr password, answer, m' => m' = m ∧
    match m.lookup addr with
    | none => answer = .error .noAccount
    | some (key, chosen) => answer = (openAnswer key chosen password).map .opened
  | .forget addr, answer, m' =>
    if addr ∈ m then answer = .ok .forgotten ∧ m' = m.erase addr
    else answer = .error .noAccount ∧ m' = m
  | .accounts, answer, m' => m' = m ∧ ∃ l, m.Listed C l ∧ answer = .ok (.listed l)

end KeyMap

/-- The directory holds the map. -/
structure Represents (C : Crates Addr) (fs : Fs) (m : KeyMap Addr) : Prop where
  settled : Settled C fs
  held : ∀ addr key chosen, m.lookup addr = some (key, chosen) → C.addrOf key = addr ∧
    ∃ seed synced, fs.node (pathOf C addr chosen.isSome) =
      some (.file ⟨keyFile C key chosen seed, synced⟩)
  absent : ∀ addr, m.lookup addr = none → ¬Present C fs addr

/-- An operation on the disk does what it does on the map, or a call of it was to fail, and it
answers an error and leaves the map. -/
def Behaves (C : Crates Addr) (disk : Disk) (op : VaultOp Addr) (m m' : KeyMap Addr) : Prop :=
  m.Does C op (disk.run (op.body C)).1 m' ∨ disk.Faulted (disk.run (op.body C)).2 ∧
    (∃ e, (disk.run (op.body C)).1 = .error e) ∧ m' = m

/-- It goes from one map to another, and the directory with it. -/
def Moves (C : Crates Addr) (disk : Disk) (op : VaultOp Addr) (m : KeyMap Addr) : Prop :=
  ∃ m', Behaves C disk op m m' ∧ Represents C (disk.run (op.body C)).2.fs m'

/-- One operation after another. -/
def OnMap (C : Crates Addr) : List (VaultOp Addr) → Disk → KeyMap Addr → Prop
  | [], disk, m => Represents C disk.fs m
  | op :: ops, disk, m => ∃ m', Behaves C disk op m m' ∧
      Represents C (disk.run (op.body C)).2.fs m' ∧ OnMap C ops (disk.run (op.body C)).2 m'

/-! ### What is represented -/

variable {m : KeyMap Addr}

namespace Represents

theorem present_iff (h : Represents C fs m) {addr : Addr} : Present C fs addr ↔ addr ∈ m := by
  rw [← Finmap.lookup_isSome]
  rcases hlookup : m.lookup addr with - | ⟨key, chosen⟩
  · simpa using h.absent addr hlookup
  · obtain ⟨-, seed, synced, hnode⟩ := h.held addr key chosen hlookup
    simp only [Option.isSome_some, iff_true]
    exact ⟨chosen.isSome, by rw [hnode]; rfl⟩

theorem same (h : Represents C fs m) (hsame : SameFiles C fs fs') (hsettled : Settled C fs') :
    Represents C fs' m where
  settled := hsettled
  held addr key chosen hlookup := by
    rw [hsame]
    exact h.held addr key chosen hlookup
  absent addr hlookup hpresent := h.absent addr hlookup (hsame.present.mp hpresent)

/-- A file is that of its account, in the spelling its password calls for. -/
theorem spelling (h : Represents C fs m) {addr : Addr} {key : Ed25519SigningKey}
    {chosen : Option String} (hlookup : m.lookup addr = some (key, chosen)) (protected_ : Bool) :
    (fs.node (pathOf C addr protected_)).isSome ↔ protected_ = chosen.isSome := by
  obtain ⟨-, seed, synced, hnode⟩ := h.held addr key chosen hlookup
  have hsome : (fs.node (pathOf C addr chosen.isSome)).isSome := by rw [hnode]; rfl
  constructor
  · intro hother
    by_contra hne
    apply h.settled.single addr
    cases hp : protected_ <;> cases hc : chosen.isSome <;> rw [hp] at hother hne <;>
      rw [hc] at hsome hne
    · exact absurd rfl hne
    · exact ⟨hsome, hother⟩
    · exact ⟨hother, hsome⟩
    · exact absurd rfl hne
  · rintro rfl
    exact hsome

theorem insert (h : Represents C fs m) {key : Ed25519SigningKey} {password : Option String}
    {seed : ℕ} (hstored : Stored C key password seed fs fs') (hsettled : Settled C fs') :
    Represents C fs' (m.insert (C.addrOf key) (key, password)) where
  settled := hsettled
  held addr key' chosen hlookup := by
    by_cases haddr : addr = C.addrOf key
    · subst haddr
      rw [Finmap.lookup_insert] at hlookup
      cases hlookup
      exact ⟨rfl, seed, true, hstored.file⟩
    · rw [Finmap.lookup_insert_of_ne _ haddr] at hlookup
      rw [hstored.other _ _ fun heq => haddr heq.1]
      exact h.held addr key' chosen hlookup
  absent addr hlookup := by
    have haddr : addr ≠ C.addrOf key := by
      rintro rfl
      rw [Finmap.lookup_insert] at hlookup
      cases hlookup
    rw [Finmap.lookup_insert_of_ne _ haddr] at hlookup
    rintro ⟨protected_, hp⟩
    rw [hstored.other _ _ fun heq => haddr heq.1] at hp
    exact h.absent addr hlookup ⟨protected_, hp⟩

theorem erase (h : Represents C fs m) {addr : Addr} (hdropped : Dropped C addr fs fs')
    (hgone : ¬Present C fs' addr) (hsettled : Settled C fs') : Represents C fs' (m.erase addr) where
  settled := hsettled
  held addr' key chosen hlookup := by
    have haddr : addr' ≠ addr := by
      rintro rfl
      rw [Finmap.lookup_erase] at hlookup
      cases hlookup
    rw [Finmap.lookup_erase_ne haddr] at hlookup
    rw [hdropped.other _ _ haddr]
    exact h.held addr' key chosen hlookup
  absent addr' hlookup := by
    by_cases haddr : addr' = addr
    · subst haddr
      exact hgone
    · rw [Finmap.lookup_erase_ne haddr] at hlookup
      rintro ⟨protected_, hp⟩
      rw [hdropped.other _ _ haddr] at hp
      exact h.absent addr' hlookup ⟨protected_, hp⟩

/-! ### One operation -/

/-- An operation that only looks, and gives up where a call fails. -/
theorem look {α : Type} {p : FsM (VaultError Addr) α} (hlook : p.ReadOnly)
    (hgives : FsM.GivesUp p.run) (h : Represents C disk.fs m) {op : VaultOp Addr}
    {f : α → VaultAnswer Addr} (hbody : op.body C = (do return f (← p) : FsM _ _).run)
    (hdoes : m.Does C op ((p.alone 0 disk.fs).1.map f) m) :
    Moves C disk op m := by
  unfold Moves Behaves
  have hfs := hlook.run_fs disk
  have hcases := hgives.run_cases disk
  rw [hbody, Disk.run_return]
  refine ⟨m, ?_, by rwa [hfs]⟩
  rcases hcases with hsame | ⟨hfaulted, e, herror⟩
  · left
    rw [hsame]
    exact hdoes
  · exact .inr ⟨hfaulted, ⟨e, by rw [herror]; rfl⟩, rfl⟩

variable (hV : C.VaultLaws)
include hV

theorem create (h : Represents C disk.fs m) (key : Ed25519SigningKey) (password : Option String)
    (seed : ℕ) : Moves C disk (.create key password seed) m := by
  unfold Moves Behaves
  by_cases hempty : password = some ""
  · subst hempty
    exact ⟨m, .inl (by unfold KeyMap.Does; exact ⟨rfl, rfl⟩), h⟩
  have hsettled := h.settled.run hV (.create key password seed)
  have hcalm := @Disk.run_calm _ (Vault.create C key password seed).run disk
  obtain ⟨-, hrun⟩ := create_run hV key password seed disk
  have hbody : (VaultOp.create key password seed).body C =
      (do return .created (← Vault.create C key password seed) : FsM _ _).run := rfl
  rw [hbody, Disk.run_return] at hsettled ⊢
  generalize disk.run (Vault.create C key password seed).run = ran at hsettled hcalm hrun ⊢
  dsimp only [KeyMap.Does]
  obtain ⟨e | addr, disk'⟩ := ran
  · -- Nothing was stored, since a call failed or the operation was refused.
    refine ⟨m, ?_, h.same hrun hsettled⟩
    by_cases hfaulted : disk.Faulted disk'
    · exact .inr ⟨hfaulted, ⟨e, rfl⟩, rfl⟩
    left
    have halone : Except.error e = ((Vault.create C key password seed).alone 0 disk.fs).1 :=
      congrArg Prod.fst (hcalm hfaulted)
    by_cases hpresent : Present C disk.fs (C.addrOf key)
    · rw [create_alone_present hV h.settled hpresent seed hempty] at halone
      rw [if_neg hempty, if_pos (h.present_iff.mp hpresent)]
      exact ⟨congrArg (Except.map _) halone, rfl⟩
    · rw [create_alone_absent hV h.settled hpresent seed hempty] at halone
      cases halone
  · obtain ⟨rfl, hstored⟩ := hrun
    refine ⟨_, .inl ?_, h.insert hstored hsettled⟩
    rw [if_neg hempty, if_neg fun hmem => hstored.absent (h.present_iff.mpr hmem)]
    exact ⟨rfl, rfl⟩

theorem forget (h : Represents C disk.fs m) (addr : Addr) : Moves C disk (.forget addr) m := by
  unfold Moves Behaves
  have hsettled := h.settled.run hV (.forget addr)
  have hcalm := @Disk.run_calm _ (Vault.forget C addr).run disk
  obtain ⟨-, hrun⟩ := forget_run hV addr disk
  have hbody : (VaultOp.forget addr).body C =
      (do return (fun _ => VaultAnswer.forgotten) (← Vault.forget C addr) : FsM _ _).run := rfl
  rw [hbody, Disk.run_return] at hsettled ⊢
  generalize disk.run (Vault.forget C addr).run = ran at hsettled hcalm hrun ⊢
  dsimp only [KeyMap.Does]
  obtain ⟨e | ⟨⟩, disk'⟩ := ran
  · refine ⟨m, ?_, h.same hrun hsettled⟩
    by_cases hfaulted : disk.Faulted disk'
    · exact .inr ⟨hfaulted, ⟨e, rfl⟩, rfl⟩
    left
    have halone : Except.error e = ((Vault.forget C addr).alone 0 disk.fs).1 :=
      congrArg Prod.fst (hcalm hfaulted)
    by_cases hpresent : Present C disk.fs addr
    · rw [forget_alone_present hV h.settled hpresent] at halone
      cases halone
    · rw [forget_alone_absent hV h.settled hpresent] at halone
      rw [if_neg fun hmem => hpresent (h.present_iff.mpr hmem)]
      exact ⟨congrArg (Except.map _) halone, rfl⟩
  · obtain ⟨hdropped, hgone⟩ := hrun
    refine ⟨_, .inl ?_, h.erase hdropped hgone hsettled⟩
    have hpresent : Present C disk.fs addr := hdropped.gone.imp fun _ hp => hp.1
    rw [if_pos (h.present_iff.mp hpresent)]
    exact ⟨rfl, rfl⟩

theorem openKey (h : Represents C disk.fs m) (addr : Addr) (password : Option String) :
    Moves C disk (.openKey addr password) m := by
  refine look (openKey_readOnly addr password) (openKey_givesUp addr password) h rfl ⟨rfl, ?_⟩
  rcases hlookup : m.lookup addr with - | ⟨key, chosen⟩
  · rw [openKey_alone_absent hV h.settled.single (h.absent addr hlookup)]
    rfl
  · obtain ⟨rfl, seed, synced, hnode⟩ := h.held addr key chosen hlookup
    rw [openKey_alone hV h.settled.single hnode]

theorem accounts (h : Represents C disk.fs m) : Moves C disk .accounts m := by
  refine look accounts_readOnly accounts_givesUp h rfl ⟨rfl, ?_⟩
  obtain ⟨l, hl, hnd, hsorted, hmem⟩ := accounts_alone hV h.settled.single 0
  rw [hl]
  refine ⟨l, ⟨Increasing.of_sorted ?_ ?_, fun account => ?_⟩, rfl⟩
  · rwa [List.pairwise_map]
  · exact hnd.map (addrText_injective hV)
  · rw [hmem]
    constructor
    · intro hnode
      have hin := h.present_iff.mp ⟨_, hnode⟩
      obtain ⟨⟨key, chosen⟩, hlookup⟩ := Option.isSome_iff_exists.mp (Finmap.lookup_isSome.mpr hin)
      exact ⟨key, chosen, hlookup, (h.spelling hlookup _).mp hnode⟩
    · rintro ⟨key, chosen, hlookup, hprotected⟩
      exact (h.spelling hlookup _).mpr hprotected

/-- Every operation. -/
theorem op (h : Represents C disk.fs m) (op : VaultOp Addr) : Moves C disk op m := by
  cases op with
  | create key password seed => exact h.create hV key password seed
  | openKey addr password => exact h.openKey hV addr password
  | forget addr => exact h.forget hV addr
  | accounts => exact h.accounts hV

theorem ops (h : Represents C disk.fs m) (ops : List (VaultOp Addr)) : OnMap C ops disk m := by
  induction ops generalizing disk m with
  | nil => exact h
  | cons op ops ih =>
    obtain ⟨m', hdoes, h'⟩ := h.op hV op
    exact ⟨m', hdoes, h', ih h'⟩

end Represents

theorem represents_empty (hempty : ∀ name, fs.node name = none) (hfree : fs.lock = none) :
    Represents C fs ∅ := by
  have habsent : ∀ addr, ¬Present C fs addr := by
    rintro addr ⟨protected_, hp⟩
    rw [hempty] at hp
    cases hp
  refine ⟨⟨⟨?_, fun addr => ?_, fun addr protected_ => ?_⟩, hfree, fun addr hdoubled => ?_⟩,
    fun addr key chosen hlookup => ?_, fun addr _ => habsent addr⟩
  · simp [Fs.isDir, hempty]
  · simp [Fs.file, hempty]
  · simp [Fs.isDir, hempty]
  · exact habsent addr ⟨true, hdoubled.1⟩
  · rw [Finmap.lookup_empty] at hlookup
    cases hlookup

/-- Every run of operations on a directory that is empty at first is one on a finite map, whatever
calls are to fail. -/
theorem vault_refines_map (hV : C.VaultLaws) (hempty : ∀ name, disk.fs.node name = none)
    (hfree : disk.fs.lock = none) (ops : List (VaultOp Addr)) : OnMap C ops disk ∅ :=
  (represents_empty hempty hfree).ops hV ops

/-- A key stored under a password, not replaced, and forgotten. -/
theorem vault_refines_map_sealed :
    OnMap Crates.reference [.create (Reference.someKey 1) (some "Saro") 0,
      .create (Reference.someKey 1) none 1, .openKey ⟨(Reference.someKey 1).bytes⟩ (some "Raya"),
      .accounts, .forget ⟨(Reference.someKey 1).bytes⟩] ⟨Fs.empty, []⟩ ∅ :=
  vault_refines_map Reference.vaultLaws (fun _ => rfl) rfl _

end AccountLogUi.Vault
