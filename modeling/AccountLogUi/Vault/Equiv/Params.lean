import AccountLogUi.Vault.Equiv.Open
import AccountLogUi.Reference.Equiv.Laws

/-!
# What a vault file can make the app compute

`checkParams_ok` says which texts pass: they ask for scrypt alone, within each ceiling.  With `r`
and `p` at least one that bounds the memory as well as the work; neither is tested, and with either
at zero the product bounds nothing (`check_params_bounds_iff`).
-/

namespace AccountLogUi.Vault

variable {Addr : Type} {C : Crates Addr} {text : Text} {n r p : ℕ}

/-- The text asks for a 32-byte key of scrypt, and nothing in it can be read as PBKDF2's. -/
def AsksScrypt (text : Text) (n r p : ℕ) : Prop :=
  ∃ document members, text = .json document ∧
    (document.index "crypto").index "kdf" = .str "scrypt" ∧
    (document.index "crypto").index "kdfparams" = .obj members ∧
    (∀ member ∈ members, member.1 ∈ ["dklen", "n", "r", "p", "salt"]) ∧
    (Json.obj members).index "dklen" = .num 32 ∧ (Json.obj members).index "n" = .num n ∧
    (Json.obj members).index "r" = .num r ∧ (Json.obj members).index "p" = .num p

/-- The IV the text carries has the length of sixteen bytes. -/
def CarriesIv (text : Text) : Prop :=
  ∃ document, text = .json document ∧
    (((document.index "crypto").index "cipherparams").index "iv").asStr.elim 0
      String.utf8ByteSize / 2 = 16

/-- The bytes scrypt takes. -/
def scryptMemory (n r : ℕ) : ℕ := 128 * n * r

/-- What deriving the key may cost. -/
structure Affordable (n r p : ℕ) : Prop where
  power : n.isPowerOfTwo
  r_pos : 1 ≤ r
  p_pos : 1 ≤ p
  work : n * r * p ≤ 2 ^ 21
  memory : scryptMemory n r ≤ 256 * 2 ^ 20

/-- Each of the three is within its own ceiling. -/
structure WithinCeilings (n r p : ℕ) : Prop where
  power : n.isPowerOfTwo
  n_le : n ≤ maxScryptN
  r_le : r ≤ maxScryptR
  p_le : p ≤ maxScryptP

theorem asU64_eq_some {value : Json} {m : ℕ} :
    value.asU64 = some m ↔ value = .num m ∧ m < 2 ^ 64 := by
  unfold Json.asU64
  split
  · next k =>
    rw [Json.num.injEq]
    split
    · next hlt =>
      rw [Option.some.injEq]
      constructor
      · rintro rfl
        exact ⟨rfl, hlt⟩
      · exact fun h => h.1
    · next hge =>
      constructor
      · intro h
        cases h
      · rintro ⟨rfl, hlt⟩
        exact absurd hlt hge
  · next hother =>
    constructor
    · intro h
      cases h
    · rintro ⟨rfl, -⟩
      exact absurd rfl (hother m)

theorem asStr_eq_some {value : Json} {s : String} : value.asStr = some s ↔ value = .str s := by
  unfold Json.asStr
  split
  · rw [Option.some.injEq, Json.str.injEq]
  · next hother =>
    constructor
    · intro h
      cases h
    · rintro rfl
      exact absurd rfl (hother s)

theorem asObject_eq_some {value : Json} {members : List (String × Json)} :
    value.asObject = some members ↔ value = .obj members := by
  unfold Json.asObject
  split
  · rw [Option.some.injEq, Json.obj.injEq]
  · next hother =>
    constructor
    · intro h
      cases h
    · rintro rfl
      exact absurd rfl (hother members)

/-- The members are scrypt's. -/
theorem scryptOnly_eq_true {value : Json} :
    (value.asObject.any fun params => params.all fun member =>
      ["dklen", "n", "r", "p", "salt"].contains member.1) = true ↔
    ∃ members, value = .obj members ∧
      ∀ member ∈ members, member.1 ∈ ["dklen", "n", "r", "p", "salt"] := by
  rcases hobject : value.asObject with - | members
  · constructor
    · intro h
      cases h
    · rintro ⟨members, hvalue, -⟩
      rw [asObject_eq_some.mpr hvalue] at hobject
      cases hobject
  · have hvalue := asObject_eq_some.mp hobject
    constructor
    · intro h
      rw [Option.any_some, List.all_eq_true] at h
      exact ⟨members, hvalue, fun member hmem => by simpa using h member hmem⟩
    · rintro ⟨members', hvalue', hall⟩
      obtain rfl : members' = members := Json.obj.inj (hvalue'.symm.trans hvalue)
      rw [Option.any_some, List.all_eq_true]
      exact fun member hmem => by simpa using hall member hmem

/-- Which texts pass. -/
theorem checkParams_ok : checkParams text = (.ok () : Except (VaultError Addr) Unit) ↔
    ∃ n r p, AsksScrypt text n r p ∧ CarriesIv text ∧ WithinCeilings n r p ∧
      n * r * p ≤ maxScryptWork := by
  unfold checkParams
  rcases text with document | -
  · simp only [Text.fromStr, Except.mapError, bind, Except.bind, throw, throwThe,
      MonadExceptOf.throw, pure, Except.pure]
    constructor
    -- Each test passed says what it tests.
    · intro h
      split at h
      · cases h
      next hkdf =>
      split at h
      · cases h
      next honly =>
      obtain ⟨members, hmembers, hnames⟩ := scryptOnly_eq_true.mp (by simpa using honly)
      rw [hmembers] at h
      split at h
      · next dklen n r p hparams =>
        rw [Prod.mk.injEq, Prod.mk.injEq, Prod.mk.injEq] at hparams
        obtain ⟨hdklen, hn, hr, hp⟩ := hparams
        split at h
        · cases h
        next hlengths =>
        split at h
        · cases h
        next hrange =>
        push Not at hlengths hrange
        obtain ⟨hpower, hn_le, hr_le, hp_le, hwork⟩ := hrange
        have hdklen' := (asU64_eq_some.mp hdklen).1
        rw [hlengths.1] at hdklen'
        refine ⟨n, r, p, ⟨document, members, rfl, ?_, hmembers, hnames, hdklen',
          (asU64_eq_some.mp hn).1, (asU64_eq_some.mp hr).1, (asU64_eq_some.mp hp).1⟩,
          ⟨document, rfl, hlengths.2⟩, ⟨hpower, hn_le, hr_le, hp_le⟩, hwork⟩
        exact asStr_eq_some.mp (by simpa using hkdf)
      · cases h
    -- The ceilings keep every number within the 64 bits it is read as.
    · rintro ⟨n, r, p, ⟨document', members, heq, hkdf, hmembers, hnames, hdklen, hn, hr, hp⟩,
        ⟨document'', heq', hiv⟩, ⟨hpower, hn_le, hr_le, hp_le⟩, hwork⟩
      obtain rfl := Text.json.inj heq
      obtain rfl := Text.json.inj heq'
      have honly := scryptOnly_eq_true.mpr ⟨members, rfl, hnames⟩
      have hbig : ∀ {m : ℕ}, m ≤ 2 ^ 18 → m < 2 ^ 64 := fun h => lt_of_le_of_lt h (by norm_num)
      have hdklen' := asU64_eq_some.mpr ⟨hdklen, by norm_num⟩
      have hn' := asU64_eq_some.mpr ⟨hn, hbig hn_le⟩
      have hr' := asU64_eq_some.mpr ⟨hr, hbig (hr_le.trans (by decide))⟩
      have hp' := asU64_eq_some.mpr ⟨hp, hbig (hp_le.trans (by decide))⟩
      rw [if_neg (by rw [asStr_eq_some.mpr hkdf]; simp), hmembers, honly, if_neg (by simp),
        hdklen', hn', hr', hp']
      dsimp only
      rw [if_neg (by simp [hiv]), if_neg]
      push Not
      exact ⟨hpower, hn_le, hr_le, hp_le, hwork⟩
  · constructor
    · intro h
      cases h
    · rintro ⟨n, r, p, ⟨document, members, heq, -⟩, -⟩
      cases heq

/-! ### The tests, as they are evaluated -/

/-- A product of two 64-bit numbers, where it fits. -/
def checkedMul (a b : ℕ) : Option ℕ := if a * b < 2 ^ 64 then some (a * b) else none

/-- The tests of the three numbers, each evaluated only where those before it do not decide. -/
def outOfRange (n r p : ℕ) : Option Bool :=
  if ¬n.isPowerOfTwo then some true
  else if n > maxScryptN then some true
  else if r > maxScryptR then some true
  else if p > maxScryptP then some true
  else do
    let work ← checkedMul (← checkedMul n r) p
    return work > maxScryptWork

/-- The ceilings keep the product in range, whatever the numbers are. -/
theorem outOfRange_eq (n r p : ℕ) : outOfRange n r p =
    some (decide (¬n.isPowerOfTwo ∨ n > maxScryptN ∨ r > maxScryptR ∨ p > maxScryptP ∨
      n * r * p > maxScryptWork)) := by
  unfold outOfRange
  by_cases hpower : n.isPowerOfTwo
  · by_cases hn : n > maxScryptN
    · simp [hpower, hn]
    by_cases hr : r > maxScryptR
    · simp [hpower, hn, hr]
    by_cases hp : p > maxScryptP
    · simp [hpower, hn, hr, hp]
    rw [if_neg (not_not.mpr hpower), if_neg hn, if_neg hr, if_neg hp]
    have hnr : n * r ≤ maxScryptN * maxScryptR := Nat.mul_le_mul (not_lt.mp hn) (not_lt.mp hr)
    have hnrp : n * r * p ≤ maxScryptN * maxScryptR * maxScryptP :=
      Nat.mul_le_mul hnr (not_lt.mp hp)
    have hfirst : checkedMul n r = some (n * r) := if_pos (lt_of_le_of_lt hnr (by decide))
    have hsecond : checkedMul (n * r) p = some (n * r * p) :=
      if_pos (lt_of_le_of_lt hnrp (by decide))
    rw [hfirst]
    show (checkedMul (n * r) p).bind _ = _
    rw [hsecond]
    simp [hpower, hn, hr, hp]
  · simp [hpower]

/-! ### What passes is affordable -/

theorem AsksScrypt.unique {n' r' p' : ℕ} (h : AsksScrypt text n r p)
    (h' : AsksScrypt text n' r' p') : n' = n ∧ r' = r ∧ p' = p := by
  obtain ⟨document, members, rfl, -, hmembers, -, -, hn, hr, hp⟩ := h
  obtain ⟨document', members', heq, -, hmembers', -, -, hn', hr', hp'⟩ := h'
  obtain rfl := Text.json.inj heq
  obtain rfl := Json.obj.inj (hmembers.symm.trans hmembers')
  exact ⟨Json.num.inj (hn'.symm.trans hn), Json.num.inj (hr'.symm.trans hr),
    Json.num.inj (hp'.symm.trans hp)⟩

/-- A share of the work is no more than all of it. -/
theorem WithinCeilings.affordable (h : WithinCeilings n r p) (hr : r ≠ 0) (hp : p ≠ 0)
    (hwork : n * r * p ≤ maxScryptWork) : Affordable n r p where
  power := h.power
  r_pos := Nat.one_le_iff_ne_zero.mpr hr
  p_pos := Nat.one_le_iff_ne_zero.mpr hp
  work := hwork
  memory := by
    have hshare : n * r ≤ n * r * p := Nat.le_mul_of_pos_right _ (Nat.pos_of_ne_zero hp)
    calc scryptMemory n r = 128 * (n * r) := Nat.mul_assoc ..
      _ ≤ 128 * maxScryptWork := Nat.mul_le_mul_left 128 (hshare.trans hwork)
      _ = 256 * 2 ^ 20 := by decide

/-- A parameter of zero, in a file that passes the other tests. -/
def Zeroed (text : Text) : Prop :=
  ∃ n r p, AsksScrypt text n r p ∧ CarriesIv text ∧ WithinCeilings n r p ∧ (r = 0 ∨ p = 0)

theorem affordable_iff (text : Text) :
    (checkParams text = (.ok () : Except (VaultError Addr) Unit) →
      ∃ n r p, AsksScrypt text n r p ∧ Affordable n r p) ↔ ¬Zeroed text := by
  constructor
  · rintro h ⟨n, r, p, hasks, hiv, hwithin, hzero⟩
    have hwork : n * r * p = 0 := by
      rcases hzero with rfl | rfl
      · simp
      · simp
    have hpasses : checkParams text = (.ok () : Except (VaultError Addr) Unit) :=
      checkParams_ok.mpr ⟨n, r, p, hasks, hiv, hwithin, by rw [hwork]; simp⟩
    obtain ⟨n', r', p', hasks', haffordable⟩ := h hpasses
    obtain ⟨-, rfl, rfl⟩ := hasks.unique hasks'
    have hr := haffordable.r_pos
    have hp := haffordable.p_pos
    omega
  · intro h hpasses
    obtain ⟨n, r, p, hasks, hiv, hwithin, hwork⟩ := checkParams_ok.mp hpasses
    have hzero : ¬(r = 0 ∨ p = 0) := fun hzero => h ⟨n, r, p, hasks, hiv, hwithin, hzero⟩
    push Not at hzero
    exact ⟨n, r, p, hasks, hwithin.affordable hzero.1 hzero.2 hwork⟩

/-- A file that passes asks for no more than the vault affords, unless it gives a parameter as zero;
the test itself stays in range, and what the vault seals passes it. -/
theorem check_params_bounds_iff (hV : C.VaultLaws) :
    (∀ text, (checkParams text = (.ok () : Except (VaultError Addr) Unit) →
        ∃ n r p, AsksScrypt text n r p ∧ Affordable n r p) ↔ ¬Zeroed text) ∧
      (∀ n r p : UInt64, outOfRange n.toNat r.toNat p.toNat =
        some (decide (¬n.toNat.isPowerOfTwo ∨ n.toNat > maxScryptN ∨ r.toNat > maxScryptR ∨
          p.toNat > maxScryptP ∨ n.toNat * r.toNat * p.toNat > maxScryptWork))) ∧
      ∀ key password seed, ∃ text, keyFile C key (some password) seed = .text text ∧
        checkParams text = (.ok () : Except (VaultError Addr) Unit) :=
  ⟨affordable_iff, fun n r p => outOfRange_eq n.toNat r.toNat p.toNat,
    fun key password seed =>
      ⟨_, rfl, checkParams_encryptKey hV seed key.bytes.toList password⟩⟩

theorem check_params_bounds_iff_sealed :
    ∃ text, keyFile Crates.reference (Reference.someKey 1) (some "pw") 0 = .text text ∧
      checkParams text = (.ok () : Except (VaultError Reference.Addr) Unit) ∧
      ∃ n r p, AsksScrypt text n r p ∧ Affordable n r p := by
  obtain ⟨hbounds, -, hsealed⟩ := check_params_bounds_iff Reference.vaultLaws
  obtain ⟨text, hfile, hpasses⟩ := hsealed (Reference.someKey 1) "pw" 0
  refine ⟨text, hfile, hpasses, (hbounds text).mpr ?_ hpasses⟩
  obtain rfl := Content.text.inj hfile
  have hasks : AsksScrypt (.json (Reference.encryptKey 0 (Reference.someKey 1).bytes.toList "pw"))
      8192 8 1 := ⟨_, _, rfl, rfl, rfl, by decide, rfl, rfl, rfl, rfl⟩
  rintro ⟨n, r, p, hasks', -, -, hzero⟩
  obtain ⟨-, rfl, rfl⟩ := hasks.unique hasks'
  omega

/-- Scrypt parameters with a `p` of zero. -/
def zeroedFile : Text :=
  .json (.obj [("crypto", .obj [
    ("cipherparams", .obj [("iv", .str "00000000000000000000000000000000")]),
    ("kdf", .str "scrypt"),
    ("kdfparams", .obj [("dklen", .num 32), ("n", .num (2 ^ 18)), ("r", .num 16), ("p", .num 0),
      ("salt", .str "00")])])])

/-- It passes, with a parameter of zero, and asks for twice the memory the ceilings are to bound. -/
theorem zeroed_file_passes :
    checkParams zeroedFile = (.ok () : Except (VaultError Reference.Addr) Unit) ∧
      AsksScrypt zeroedFile (2 ^ 18) 16 0 ∧ scryptMemory (2 ^ 18) 16 = 512 * 2 ^ 20 ∧
      ¬∃ n r p, AsksScrypt zeroedFile n r p ∧ Affordable n r p := by
  have hasks : AsksScrypt zeroedFile (2 ^ 18) 16 0 :=
    ⟨_, _, rfl, rfl, rfl, by decide, rfl, rfl, rfl, rfl⟩
  have hpasses : checkParams zeroedFile = (.ok () : Except (VaultError Reference.Addr) Unit) :=
    checkParams_ok.mpr ⟨_, _, _, hasks, ⟨_, rfl, by decide +kernel⟩,
      ⟨⟨18, rfl⟩, by decide, by decide, by decide⟩, by decide⟩
  refine ⟨hpasses, hasks, by decide, ?_⟩
  rintro ⟨n, r, p, hasks', haffordable⟩
  obtain ⟨-, -, rfl⟩ := hasks.unique hasks'
  exact absurd haffordable.p_pos (by decide)

end AccountLogUi.Vault
