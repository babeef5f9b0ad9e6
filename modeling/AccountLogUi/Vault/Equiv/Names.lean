import AccountLogUi.Vault.Basic

/-!
# File names and the listing

`accountOf_eq_some` says which directory entry is the file of which account: exactly `pathOf`'s.
No other name the app writes is one, and no two accounts or spellings share a name.

`listing_eq_ok` decides the listing from the set of names: it answers exactly when no address has
both spellings, and then with the accounts whose file is there, in address order.
-/

namespace AccountLogUi.Vault

variable {Addr : Type} {C : Crates Addr}

/-! ### Names -/

theorem stripSuffix_eq_some {name suffix stem : List Char} :
    stripSuffix name suffix = some stem ↔ name = stem ++ suffix := by
  unfold stripSuffix
  constructor
  · intro h
    split_ifs at h with hs
    obtain ⟨stem', rfl⟩ := List.isSuffixOf_iff_suffix.mp hs
    simp only [List.length_append, Nat.add_sub_cancel, List.take_left', Option.some.injEq] at h
    rw [h]
  · rintro rfl
    have hs : suffix.isSuffixOf (stem ++ suffix) = true :=
      List.isSuffixOf_iff_suffix.mpr ⟨stem, rfl⟩
    simp [hs]

/-- No dot is a hex digit. -/
theorem dot_not_mem_addrText (hV : C.VaultLaws) (addr : Addr) : '.' ∉ C.addrText addr := by
  intro h
  exact absurd (hV.addrText_hex addr '.' h) (by decide)

theorem addrText_injective (hV : C.VaultLaws) : Function.Injective C.addrText := by
  intro a b h
  have ha := hV.parseAddr_eq.mpr (rfl : C.addrText a = C.addrText a)
  have hb := hV.parseAddr_eq.mpr h
  rw [ha] at hb
  exact Option.some.inj hb

/-- The sealed spelling of an address does not end as an open one does. -/
theorem stripSuffix_open_sealed (hV : C.VaultLaws) (addr : Addr) :
    stripSuffix (C.addrText addr ++ sealedSuffix) openSuffix = none := by
  rw [Option.eq_none_iff_forall_not_mem]
  intro stem h
  have h' : C.addrText addr ++ sealedSuffix = stem ++ ".open".toList ++ sealedSuffix := by
    rw [stripSuffix_eq_some.mp h, List.append_assoc]
    rfl
  have htext := List.append_cancel_right h'
  exact dot_not_mem_addrText hV addr (by rw [htext]; simp)

/-- A directory entry is the file of an account exactly when it has the account's file name. -/
theorem accountOf_eq_some (hV : C.VaultLaws) {name : OsString} {account : StoredAccount Addr} :
    accountOf C name = some account ↔
      name = .utf8 (pathOf C account.addr account.protected_) := by
  obtain ⟨addr, protected_⟩ := account
  cases name with
  | bytes b => simp [accountOf, OsString.toStr]
  | utf8 n =>
    simp only [accountOf, OsString.toStr, OsString.utf8.injEq, Option.bind_eq_bind,
      Option.bind_some, pathOf]
    cases ho : stripSuffix n openSuffix with
    | some stem =>
      -- The name ends as that of a key kept in the clear, which a sealed one never does.
      rw [stripSuffix_eq_some] at ho
      subst ho
      simp only [Option.map_some, Option.some_or, Option.bind_some, Option.bind_eq_some_iff,
        Option.pure_def, Option.some.injEq, StoredAccount.mk.injEq, hV.parseAddr_eq]
      constructor
      · rintro ⟨a, rfl, rfl, rfl⟩
        rfl
      · intro h
        cases protected_ with
        | false => exact ⟨addr, List.append_cancel_right h, rfl, rfl⟩
        | true =>
          have hs := stripSuffix_open_sealed hV addr
          rw [← (show stem ++ openSuffix = C.addrText addr ++ sealedSuffix from h),
            stripSuffix_eq_some.mpr rfl] at hs
          cases hs
    | none =>
      cases hs : stripSuffix n sealedSuffix with
      | none =>
        simp only [Option.map_none, Option.none_or, Option.bind_none, reduceCtorEq, false_iff]
        rintro rfl
        cases protected_ with
        | false => rw [if_neg (by decide), stripSuffix_eq_some.mpr rfl] at ho; cases ho
        | true => rw [if_pos rfl, stripSuffix_eq_some.mpr rfl] at hs; cases hs
      | some stem =>
        rw [stripSuffix_eq_some] at hs
        subst hs
        simp only [Option.map_none, Option.map_some, Option.none_or, Option.bind_some,
          Option.bind_eq_some_iff, Option.pure_def, Option.some.injEq, StoredAccount.mk.injEq,
          hV.parseAddr_eq]
        constructor
        · rintro ⟨a, rfl, rfl, rfl⟩
          rfl
        · intro h
          cases protected_ with
          | true => exact ⟨addr, List.append_cancel_right h, rfl, rfl⟩
          | false => rw [h, if_neg (by decide), stripSuffix_eq_some.mpr rfl] at ho; cases ho

theorem accountOf_pathOf (hV : C.VaultLaws) (addr : Addr) (protected_ : Bool) :
    accountOf C (.utf8 (pathOf C addr protected_)) = some ⟨addr, protected_⟩ :=
  (accountOf_eq_some hV).mpr rfl

/-- No two accounts and no two spellings share a file name. -/
theorem pathOf_inj (hV : C.VaultLaws) {a b : Addr} {p q : Bool} :
    pathOf C a p = pathOf C b q ↔ a = b ∧ p = q := by
  constructor
  · intro h
    have ha := accountOf_pathOf hV a p
    rw [h, accountOf_pathOf hV b q, Option.some.injEq, StoredAccount.mk.injEq] at ha
    exact ⟨ha.1.symm, ha.2.symm⟩
  · rintro ⟨rfl, rfl⟩
    rfl

/-- A file name of an account starts with a hex digit. -/
theorem pathOf_head (hV : C.VaultLaws) (addr : Addr) (protected_ : Bool) :
    ∃ c ∈ "0123456789abcdef".toList, ∃ rest, pathOf C addr protected_ = c :: rest := by
  have hlen := hV.addrText_length addr
  have hhex := hV.addrText_hex addr
  cases ht : C.addrText addr with
  | nil => rw [ht] at hlen; cases hlen
  | cons c rest =>
    rw [ht] at hhex
    exact ⟨c, hhex c List.mem_cons_self, _, by rw [pathOf, ht, List.cons_append]⟩

theorem pathOf_ne_stageName (hV : C.VaultLaws) (a b : Addr) (p : Bool) :
    pathOf C a p ≠ stageName C b := by
  obtain ⟨c, hc, rest, h⟩ := pathOf_head hV a p
  intro heq
  rw [h] at heq
  obtain rfl : c = '.' := (List.cons.inj heq).1
  exact absurd hc (by decide)

theorem pathOf_ne_lockFile (hV : C.VaultLaws) (addr : Addr) (p : Bool) :
    pathOf C addr p ≠ lockFile := by
  obtain ⟨c, hc, rest, h⟩ := pathOf_head hV addr p
  intro heq
  rw [h] at heq
  obtain rfl : c = '.' := (List.cons.inj heq).1
  exact absurd hc (by decide)

theorem stageName_ne_lockFile (C : Crates Addr) (addr : Addr) : stageName C addr ≠ lockFile := by
  intro h
  exact absurd (List.cons.inj (List.cons.inj h).2).1 (by decide)

theorem stageName_injective (hV : C.VaultLaws) : Function.Injective (stageName C) := by
  intro a b h
  exact addrText_injective hV (List.append_cancel_left h)

/-! ### An account's files -/

/-- Something is there under a name of the account. -/
def Present (C : Crates Addr) (fs : Fs) (addr : Addr) : Prop :=
  ∃ protected_, (fs.node (pathOf C addr protected_)).isSome

/-- Both names of the account are taken. -/
def Doubled (C : Crates Addr) (fs : Fs) (addr : Addr) : Prop :=
  (fs.node (pathOf C addr true)).isSome ∧ (fs.node (pathOf C addr false)).isSome

/-! ### The listing -/

variable [DecidableEq Addr]

/-- Gathering fails only on an address found twice. -/
theorem gather_eq_ok (held : List (StoredAccount Addr)) (names : List OsString)
    (hheld : (held.map (·.addr)).Nodup) (l : List (StoredAccount Addr)) :
    gather C held names = .ok l ↔
      ((held ++ names.filterMap (accountOf C)).map (·.addr)).Nodup ∧
        l = held ++ names.filterMap (accountOf C) := by
  induction names generalizing held with
  | nil => simp [gather, hheld, eq_comm]
  | cons name names ih =>
    rw [gather]
    cases hacc : accountOf C name with
    | none => rw [List.filterMap_cons_none hacc]; exact ih held hheld
    | some account =>
      rw [List.filterMap_cons_some hacc]
      by_cases hmem : account.addr ∈ held.map (·.addr)
      · have hany : held.any (·.addr = account.addr) = true := by
          obtain ⟨h, hh, he⟩ := List.mem_map.mp hmem
          exact List.any_eq_true.mpr ⟨h, hh, by simp [he]⟩
        simp only [hany, if_true, reduceCtorEq, false_iff, not_and]
        intro hnd
        rw [List.map_append, List.map_cons, List.nodup_append] at hnd
        exact absurd rfl (hnd.2.2 _ hmem _ List.mem_cons_self)
      · have hany : held.any (·.addr = account.addr) = false := by
          rw [List.any_eq_false]
          intro h hh he
          exact hmem (List.mem_map.mpr ⟨h, hh, by simpa using he⟩)
        have hnd : ((held ++ [account]).map (·.addr)).Nodup := by
          rw [List.map_append, List.nodup_append]
          refine ⟨hheld, by simp, ?_⟩
          rintro a ha b hb rfl
          obtain rfl : a = account.addr := by simpa using hb
          exact hmem ha
        simp only [hany, Bool.false_eq_true, if_false]
        rw [ih _ hnd, List.append_assoc, List.singleton_append]

/-- What the listing answers with: the accounts whose files are named. -/
theorem listing_eq_ok {names : List OsString} {l : List (StoredAccount Addr)} :
    listing C names = .ok l ↔
      ((names.filterMap (accountOf C)).map (·.addr)).Nodup ∧
        l = (names.filterMap (accountOf C)).insertionSort
          fun a b => C.addrText a.addr ≤ C.addrText b.addr := by
  unfold listing
  have hg := gather_eq_ok (C := C) [] names List.nodup_nil
  cases h : gather C [] names with
  | error e =>
    simp only [Except.map, reduceCtorEq, false_iff, not_and]
    intro hnd
    have := (hg (names.filterMap (accountOf C))).mpr ⟨by simpa using hnd, rfl⟩
    rw [h] at this
    cases this
  | ok held =>
    obtain ⟨hnd, rfl⟩ := (hg held).mp h
    simp only [Except.map, Except.ok.injEq, List.nil_append] at hnd ⊢
    exact ⟨fun hl => ⟨hnd, hl.symm⟩, fun hl => hl.2.symm⟩

/-- An account is listed exactly when its file is there. -/
theorem mem_listing (hV : C.VaultLaws) {names : List OsString} {l : List (StoredAccount Addr)}
    (h : listing C names = .ok l) {account : StoredAccount Addr} :
    account ∈ l ↔ .utf8 (pathOf C account.addr account.protected_) ∈ names := by
  obtain ⟨-, rfl⟩ := listing_eq_ok.mp h
  rw [List.mem_insertionSort, List.mem_filterMap]
  constructor
  · rintro ⟨name, hname, hacc⟩
    rwa [← (accountOf_eq_some hV).mp hacc]
  · intro hname
    exact ⟨_, hname, accountOf_pathOf hV _ _⟩

/-- No account is listed twice. -/
theorem listing_nodup {names : List OsString} {l : List (StoredAccount Addr)}
    (h : listing C names = .ok l) : (l.map (·.addr)).Nodup := by
  obtain ⟨hnd, rfl⟩ := listing_eq_ok.mp h
  exact ((List.perm_insertionSort _ _).map _).nodup_iff.mpr hnd

/-- The accounts are listed in address order. -/
theorem listing_sorted {names : List OsString} {l : List (StoredAccount Addr)}
    (h : listing C names = .ok l) :
    l.Pairwise fun a b => C.addrText a.addr ≤ C.addrText b.addr := by
  obtain ⟨-, rfl⟩ := listing_eq_ok.mp h
  have htotal : Std.Total fun a b : StoredAccount Addr => C.addrText a.addr ≤ C.addrText b.addr :=
    ⟨fun a b => le_total (C.addrText a.addr) (C.addrText b.addr)⟩
  have htrans : IsTrans (StoredAccount Addr) fun a b => C.addrText a.addr ≤ C.addrText b.addr :=
    ⟨fun a b c => le_trans⟩
  exact List.pairwise_insertionSort _ _

/-- The listing answers exactly when no address has both spellings. -/
theorem listing_isOk (hV : C.VaultLaws) {names : List OsString} (hnd : names.Nodup) :
    (∃ l, listing C names = .ok l) ↔
      ∀ addr, ¬(.utf8 (pathOf C addr true) ∈ names ∧ .utf8 (pathOf C addr false) ∈ names) := by
  have hok : (∃ l, listing C names = .ok l) ↔
      ((names.filterMap (accountOf C)).map (·.addr)).Nodup :=
    ⟨fun ⟨l, h⟩ => (listing_eq_ok.mp h).1, fun h => ⟨_, listing_eq_ok.mpr ⟨h, rfl⟩⟩⟩
  have hinj : (names.filterMap (accountOf C)).Nodup := by
    refine hnd.filterMap ?_
    intro a b account ha hb
    rw [Option.mem_def, accountOf_eq_some hV] at ha hb
    rw [ha, hb]
  have hmem : ∀ account, account ∈ names.filterMap (accountOf C) ↔
      .utf8 (pathOf C account.addr account.protected_) ∈ names := by
    intro account
    simp only [List.mem_filterMap, accountOf_eq_some hV, exists_eq_right]
  rw [hok, List.nodup_map_iff_inj_on hinj]
  constructor
  · rintro h addr ⟨ht, hf⟩
    have := h ⟨addr, true⟩ ((hmem _).mpr ht) ⟨addr, false⟩ ((hmem _).mpr hf) rfl
    cases this
  · rintro h ⟨a, p⟩ ha ⟨b, q⟩ hb (rfl : a = b)
    cases p <;> cases q
    · rfl
    · exact absurd ⟨(hmem _).mp hb, (hmem _).mp ha⟩ (h a)
    · exact absurd ⟨(hmem _).mp ha, (hmem _).mp hb⟩ (h a)
    · rfl

end AccountLogUi.Vault
