import AccountLogUi.Library.Increasing
import AccountLogUi.Observed.Basic
import AccountLogUi.Reference.Equiv.Laws
import AccountLogUi.Vault.Equiv.Effect
import Mathlib.Data.Finset.Basic

/-!
# The listing is decided by the set of file names

Reading a directory gives its entries in any order.  Whatever the order, `accounts` refuses where an
address has both of its names, and answers one list where none has (`listing_of_names`).
-/

namespace AccountLogUi.Vault

variable {Addr : Type} {C : Crates Addr} {entries : Finset OsString} {names : List OsString}
  {l l' : List (StoredAccount Addr)}

/-- An order `read_dir` may give a directory's entries in. -/
structure OrderOf (entries : Finset OsString) (names : List OsString) : Prop where
  nodup : names.Nodup
  mem : ∀ name, name ∈ names ↔ name ∈ entries

/-- The two names an account's file can have: the address, with `.json` where the key takes a
password and with `.open.json` where it takes none. -/
def nameOf (C : Crates Addr) (addr : Addr) (protected_ : Bool) : OsString :=
  .utf8 (C.addrText addr ++ if protected_ then ".json".toList else ".open.json".toList)

theorem nameOf_eq (C : Crates Addr) (addr : Addr) (protected_ : Bool) :
    nameOf C addr protected_ = .utf8 (pathOf C addr protected_) := rfl

/-- An address has both of its names. -/
def Clashes (C : Crates Addr) (entries : Finset OsString) : Prop :=
  ∃ addr, nameOf C addr true ∈ entries ∧ nameOf C addr false ∈ entries

/-- The accounts whose file is among the entries, once each, in address order. -/
structure IsListing (C : Crates Addr) (entries : Finset OsString) (l : List (StoredAccount Addr)) :
    Prop where
  mem : ∀ account, account ∈ l ↔ nameOf C account.addr account.protected_ ∈ entries
  increasing : Increasing (fun account => C.addrText account.addr) l

theorem IsListing.unique (h : IsListing C entries l) (h' : IsListing C entries l') : l = l' :=
  h.increasing.ext h'.increasing fun account => (h.mem account).trans (h'.mem account).symm

/-- The name of no account's file. -/
def NoAccountFile (C : Crates Addr) (name : OsString) : Prop :=
  ∀ addr protected_, name ≠ nameOf C addr protected_

/-- An entry that is the file of no account changes nothing. -/
theorem IsListing.aside {name : OsString} (hname : NoAccountFile C name) :
    IsListing C (insert name entries) l ↔ IsListing C entries l := by
  have hmem : ∀ account : StoredAccount Addr,
      nameOf C account.addr account.protected_ ∈ insert name entries ↔
        nameOf C account.addr account.protected_ ∈ entries := by
    intro account
    rw [Finset.mem_insert]
    exact or_iff_right (hname account.addr account.protected_).symm
  constructor
  · exact fun h => ⟨fun account => (h.mem account).trans (hmem account), h.increasing⟩
  · exact fun h => ⟨fun account => (h.mem account).trans (hmem account).symm, h.increasing⟩

/-- The names the app gives other things, and those that are no text. -/
theorem noAccountFile (hV : C.VaultLaws) : NoAccountFile C (.utf8 lockFile) ∧
    (∀ addr, NoAccountFile C (.utf8 (stageName C addr))) ∧
    NoAccountFile C (.utf8 Observed.observedFile) ∧ NoAccountFile C (.utf8 Observed.stagedFile) ∧
    ∀ bytes, NoAccountFile C (.bytes bytes) := by
  refine ⟨?_, ?_, ?_, ?_, ?_⟩
  · intro addr p h
    exact pathOf_ne_lockFile hV addr p (OsString.utf8.inj h).symm
  · intro other addr p h
    exact pathOf_ne_stageName hV addr other p (OsString.utf8.inj h).symm
  · intro addr p h
    exact pathOf_ne_observedFile hV addr p (OsString.utf8.inj h).symm
  · intro addr p h
    obtain ⟨c, hc, rest, hpath⟩ := pathOf_head hV addr p
    have hhead := (OsString.utf8.inj h).trans hpath
    obtain rfl : '.' = c := (List.cons.inj hhead).1
    exact absurd hc (by decide)
  · intro bytes addr p h
    cases h

variable [DecidableEq Addr]

/-- `accounts` answers so wherever reading the directory gives these names. -/
def Lists (C : Crates Addr) (names : List OsString)
    (answer : Except (VaultError Addr) (List (StoredAccount Addr))) : Prop :=
  ∀ (σ : Type) (exec : σ → (c : FsCall) → Except IoError c.Value × σ) (s s' : σ),
    exec s .readDir = (.ok names, s') →
      (accounts C).run.run (S := fsSig) exec s = (answer, s')

theorem lists_listing (C : Crates Addr) (names : List OsString) :
    Lists C names (listing C names) := by
  intro σ exec s s' hread
  unfold accounts
  rw [ExceptT.run_mk, Prog.run_call]
  rw [hread]
  rfl

theorem isListing_of_listing (hV : C.VaultLaws) (horder : OrderOf entries names)
    (h : listing C names = .ok l) : IsListing C entries l where
  mem account := (mem_listing hV h).trans (horder.mem _)
  increasing := by
    have hnd := (listing_nodup h).map (addrText_injective hV)
    rw [List.map_map] at hnd
    exact .of_sorted (listing_sorted h) hnd

/-- Listing is refused only where an address is found twice. -/
theorem gather_error {held : List (StoredAccount Addr)} {e : VaultError Addr}
    (h : gather C held names = .error e) : ∃ why, e = .corrupt why := by
  induction names generalizing held with
  | nil => cases h
  | cons name names ih =>
    rw [gather] at h
    split at h
    · exact ih h
    · split at h
      · exact ⟨_, (Except.error.inj h).symm⟩
      · exact ih h

theorem listing_error {e : VaultError Addr} (h : listing C names = .error e) :
    ∃ why, e = .corrupt why := by
  unfold listing at h
  cases hgather : gather C [] names with
  | error e' =>
    rw [hgather] at h
    obtain rfl := Except.error.inj h
    exact gather_error hgather
  | ok held =>
    rw [hgather] at h
    cases h

/-- What `accounts` answers is decided by the set of names, in whatever order they come: it refuses
where an address has both of its names, and otherwise lists exactly the accounts that have one, once
each, in address order, with the name each has.  No other name counts. -/
theorem listing_of_names (hV : C.VaultLaws) (entries : Finset OsString) :
    (Clashes C entries → ∀ names, OrderOf entries names →
      ∃ why, Lists C names (.error (.corrupt why))) ∧
    (¬Clashes C entries → ∃ l, IsListing C entries l ∧ ∀ names, OrderOf entries names →
      Lists C names (.ok l)) ∧
    (∀ name l, NoAccountFile C name →
      (IsListing C (insert name entries) l ↔ IsListing C entries l)) ∧
    NoAccountFile C (.utf8 lockFile) ∧ (∀ addr, NoAccountFile C (.utf8 (stageName C addr))) ∧
    NoAccountFile C (.utf8 Observed.observedFile) ∧ NoAccountFile C (.utf8 Observed.stagedFile) ∧
    ∀ bytes, NoAccountFile C (.bytes bytes) := by
  have hclashes : ∀ {names}, OrderOf entries names →
      ((∃ l, listing C names = .ok l) ↔ ¬Clashes C entries) := by
    intro names horder
    rw [listing_isOk hV horder.nodup]
    unfold Clashes
    rw [not_exists]
    simp only [horder.mem, nameOf_eq]
  refine ⟨fun hclash names horder => ?_, fun hclear => ?_, fun name l => IsListing.aside,
    noAccountFile hV⟩
  · cases hlist : listing C names with
    | error e =>
      obtain ⟨why, rfl⟩ := listing_error hlist
      have hlists := lists_listing C names
      rw [hlist] at hlists
      exact ⟨why, hlists⟩
    | ok l => exact absurd hclash ((hclashes horder).mp ⟨l, hlist⟩)
  · have hany : OrderOf entries entries.toList :=
      ⟨entries.nodup_toList, fun name => Finset.mem_toList⟩
    obtain ⟨l, hl⟩ := (hclashes hany).mpr hclear
    have hlisting := isListing_of_listing hV hany hl
    refine ⟨l, hlisting, fun names horder => ?_⟩
    -- Any other order of the entries gives the same list.
    obtain ⟨l', hl'⟩ := (hclashes horder).mpr hclear
    have hsame := hlisting.unique (isListing_of_listing hV horder hl')
    have hlists := lists_listing C names
    rw [hl', ← hsame] at hlists
    exact hlists

/-- The entries of a directory that holds one sealed key, the lock, and a copy of something. -/
def copiedEntries : List OsString :=
  [.utf8 lockFile, .utf8 "Key (copy).json".toList,
    .utf8 (pathOf Crates.reference ⟨(Reference.someKey 1).bytes⟩ true)]

theorem listing_of_names_copied :
    ∃ l, IsListing Crates.reference copiedEntries.toFinset l ∧
      Lists Crates.reference copiedEntries (.ok l) ∧
        Lists Crates.reference copiedEntries.reverse (.ok l) := by
  obtain ⟨-, hclear, -⟩ := listing_of_names Reference.vaultLaws copiedEntries.toFinset
  have hnd : copiedEntries.Nodup := by decide +kernel
  have hclear' : ¬Clashes Crates.reference copiedEntries.toFinset := by
    rintro ⟨addr, -, hclash⟩
    rw [List.mem_toFinset] at hclash
    unfold copiedEntries at hclash
    rw [List.mem_cons, List.mem_cons, List.mem_singleton] at hclash
    rcases hclash with hlock | hcopy | hsealed
    · exact pathOf_ne_lockFile Reference.vaultLaws addr false (OsString.utf8.inj hlock)
    · obtain ⟨c, hc, rest, hpath⟩ := pathOf_head Reference.vaultLaws addr false
      have hhead := hpath.symm.trans (OsString.utf8.inj hcopy)
      obtain rfl : c = 'K' := (List.cons.inj hhead).1
      exact absurd hc (by decide)
    · have hinj := (pathOf_inj Reference.vaultLaws).mp (OsString.utf8.inj hsealed)
      cases hinj.2
  obtain ⟨l, hl, hlists⟩ := hclear hclear'
  refine ⟨l, hl, hlists _ ⟨hnd, fun name => List.mem_toFinset.symm⟩, hlists _ ⟨?_, fun name => ?_⟩⟩
  · exact List.nodup_reverse.mpr hnd
  · rw [List.mem_reverse, List.mem_toFinset]

end AccountLogUi.Vault
