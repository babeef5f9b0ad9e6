import AccountLogUi.Manager.Equiv.Renaming
import AccountLogUi.Manager.Equiv.Shows
import AccountLogUi.View.Basic

/-!
# The rename sheet and the core agree

The sheet and the core trim, refuse and measure a name each in their own way.  A character one of
them takes for white space and the other does not is a control character, which both refuse, or the
byte order mark, which the sheet takes off before the core sees the name (`trim_name`).  The
characters refused are the same (`moves_eq`), and so are the bytes counted (`utf8Bytes_eq`).
-/

namespace AccountLogUi.View

/-! ### What is refused -/

/-- Both refuse the same characters. -/
theorem moves_eq (c : Char) : Fmt.moves c = Manager.movesText c := by
  rw [Bool.eq_iff_iff]
  unfold Fmt.moves Ecma.codeUnits
  split
  · simp only [Manager.movesText, Manager.isControl, Manager.within, Ecma.inRanges, List.any_cons,
      List.any_nil, Bool.or_false, Bool.or_eq_true, Bool.and_eq_true, decide_eq_true_eq]
    omega
  · -- A surrogate is in no range.
    simp only [Manager.movesText, Manager.isControl, Manager.within, Ecma.inRanges, List.any_cons,
      List.any_nil, Bool.or_false, Bool.or_eq_true, Bool.and_eq_true, decide_eq_true_eq]
    omega

theorem movesFrom_eq (i : ℕ) (chars : List Char) : Fmt.movesFrom i chars =
    ((chars.findIdx? Manager.movesText).map (i + · + 1)).getD 0 := by
  induction chars generalizing i with
  | nil => rfl
  | cons c chars ih =>
    rw [Fmt.movesFrom, List.findIdx?_cons, moves_eq, ih]
    by_cases hc : Manager.movesText c = true
    · rw [if_pos hc, if_pos hc]
      rfl
    · rw [if_neg hc, if_neg hc, Option.map_map]
      congr 2
      ext j
      show i + 1 + j + 1 = i + (j + 1) + 1
      omega

/-- The position reported is that of the first character the core refuses. -/
theorem movesText_eq (text : String) : Fmt.movesText text =
    ((text.toList.findIdx? Manager.movesText).map (· + 1)).getD 0 := by
  unfold Fmt.movesText
  rw [movesFrom_eq]
  congr 2
  ext j
  omega

theorem movesText_eq_zero {text : String} :
    Fmt.movesText text = 0 ↔ ∀ c ∈ text.toList, Manager.movesText c = false := by
  rw [movesText_eq, ← List.findIdx?_eq_none_iff]
  cases text.toList.findIdx? Manager.movesText <;> simp

/-! ### What is trimmed -/

/-- A character neither refuses, and the core trims, the sheet trims. -/
theorem isSpace_of_isWhitespace {c : Char} (hmoves : Manager.movesText c = false)
    (h : Manager.isWhitespace c = true) : Ecma.isSpace c = true := by
  rw [Bool.eq_false_iff] at hmoves
  simp only [Manager.movesText, Manager.isControl, Manager.isWhitespace, Manager.within,
    Ecma.isSpace, Ecma.inRanges, List.any_cons, List.any_nil, Bool.or_false, Bool.or_eq_true,
    Bool.and_eq_true, decide_eq_true_eq, ne_eq] at hmoves h ⊢
  omega

theorem trim_subset {text : List Char} {c : Char} (h : c ∈ Ecma.trim text) : c ∈ text :=
  (List.dropWhile_suffix _).subset ((List.rdropWhile_prefix _ _).subset h)

/-- What the sheet trimmed, the core leaves as it is. -/
theorem trim_name {text : String} (hmoves : Fmt.movesText text = 0) :
    Manager.trim (String.ofList (Ecma.trim text.toList)) =
      String.ofList (Ecma.trim text.toList) := by
  have hspace : ∀ c ∈ Ecma.trim text.toList, Manager.isWhitespace c = true →
      Ecma.isSpace c = true :=
    fun c hc => isSpace_of_isWhitespace (movesText_eq_zero.mp hmoves c (trim_subset hc))
  have hlast : (Ecma.trim text.toList).rdropWhile Manager.isWhitespace = Ecma.trim text.toList := by
    rw [List.rdropWhile_eq_self_iff]
    intro hne hwhite
    exact List.rdropWhile_last_not _ _ hne (hspace _ (List.getLast_mem hne) hwhite)
  have hfirst : (Ecma.trim text.toList).dropWhile Manager.isWhitespace = Ecma.trim text.toList := by
    rw [List.dropWhile_eq_self_iff]
    intro hne hwhite
    have hpre : Ecma.trim text.toList <+: text.toList.dropWhile Ecma.isSpace :=
      List.rdropWhile_prefix _ _
    have hspace' := hspace _ (List.getElem_mem hne) hwhite
    rw [hpre.getElem hne] at hspace'
    exact List.dropWhile_get_zero_not _ _ (hne.trans_le hpre.length_le) hspace'
  unfold Manager.trim
  rw [String.toList_ofList, hfirst, hlast]

/-! ### What is counted -/

/-- The sheet counts the bytes of UTF-8. -/
theorem utf8Bytes_eq (text : String) : Fmt.utf8Bytes text = text.utf8ByteSize := by
  unfold Fmt.utf8Bytes
  by_cases h : text = ""
  · rw [if_pos h, h]
    rfl
  · rw [if_neg h, Ecma.length_replaceEscapes (by decide)]
    show _ = text.toByteArray.size
    rw [← String.utf8Encode_toList]
    simp [List.utf8Encode, utf8]

/-! ### What is staged -/

variable {Addr : Type}

theorem confirmEnabled_iff {sheet : DisplayNameSheet} : sheet.confirmEnabled = true ↔
    0 < sheet.name.utf8ByteSize ∧ sheet.name.utf8ByteSize ≤ 64 ∧
      sheet.name ≠ displayName sheet.state ∧ sheet.moving = 0 := by
  unfold DisplayNameSheet.confirmEnabled DisplayNameSheet.bytes DisplayNameSheet.unchanged
    DisplayNameSheet.limit
  rw [utf8Bytes_eq]
  simp [and_assoc]

/-- A name the sheet lets through, the core takes as it is, but where it shows nothing. -/
theorem displayName_of_confirmEnabled {sheet : DisplayNameSheet}
    (h : sheet.confirmEnabled = true) :
    Manager.displayName sheet.name = (.ok sheet.name : Except (CoreError Addr) _) ∨
      Manager.displayName sheet.name = (.error .emptyDisplayName : Except (CoreError Addr) _) := by
  obtain ⟨-, hsize, -, hmoving⟩ := confirmEnabled_iff.mp h
  have htrim : Manager.trim sheet.name = sheet.name := trim_name hmoving
  have hmoves : sheet.name.toList.any Manager.movesText = false := by
    rw [List.any_eq_false]
    intro c hc
    rw [DisplayNameSheet.name, String.toList_ofList] at hc
    rw [movesText_eq_zero.mp hmoving c (trim_subset hc)]
    decide
  unfold Manager.displayName
  rw [htrim]
  dsimp only
  rw [if_neg (by rw [hmoves]; decide)]
  split
  · exact .inr rfl
  · have hsize' : ¬sheet.name.utf8ByteSize > Manager.maxDisplayNameBytes := not_lt.mpr hsize
    rw [if_neg hsize']
    exact .inl rfl

/-- A staged edit drawn as a name is a name. -/
theorem setDisplayName_of_kind {edit : StagedEdit}
    (h : (Manager.describe (Manager.entryOf edit)).1 = "displayName") :
    ∃ n, edit = .setDisplayName n := by
  cases edit with
  | setDisplayName n => exact ⟨n, rfl⟩
  | addInstallation key => exact absurd h (by simp [Manager.entryOf, Manager.describe])
  | revoke index => exact absurd h (by simp [Manager.entryOf, Manager.describe])

variable [DecidableEq Addr] {C : Crates Addr}

/-- The sheet and the core agree on the name: it is refused for nothing the sheet checks, it is
staged as it was sent, and the row it is staged as costs what was quoted. -/
structure Agrees (C : Crates Addr) (addr : Addr) (sheet : DisplayNameSheet) : Prop where
  accepted : ∀ e : CoreError Addr, Manager.displayName sheet.name = .error e → e = .emptyDisplayName
  sent : ∀ n, Manager.displayName sheet.name = (.ok n : Except (CoreError Addr) _) → n = sheet.name
  staged : ∀ w w', (Manager.stageSetDisplayName C addr sheet.name).on w = (.ok (), w') →
    (∀ n, .setDisplayName n ∈ (w'.core.staged addr).getD [] → n = sheet.name) ∧
      (w.core.liveName C addr ≠ some sheet.name →
        .setDisplayName sheet.name ∈ (w'.core.staged addr).getD []) ∧
      ∀ held, ∀ row ∈ (Manager.stateOf C w'.core addr held).pending, row.kind = "displayName" →
        row.value = sheet.name ∧ row.bytes = sheet.cost

/-- For every text typed, the position the sheet reports is that of the first character the core
refuses; and where Save can be pressed, the sheet and the core agree on the name. -/
theorem sheet_and_core_agree (hV : C.VaultLaws) (hL : C.LogLaws) (text : String) :
    Fmt.movesText text = ((text.toList.findIdx? Manager.movesText).map (· + 1)).getD 0 ∧
      ∀ (addr : Addr) (w w' : World Addr) (shown : AccountState),
        (Manager.state C addr).on w = (.ok shown, w') →
        (DisplayNameSheet.mk shown text).confirmEnabled = true →
        Agrees C addr ⟨shown, text⟩ := by
  refine ⟨movesText_eq text, fun addr w w' shown hshown henabled => ?_⟩
  have hname := @displayName_of_confirmEnabled Addr _ henabled
  have hsent : ∀ n, Manager.displayName (DisplayNameSheet.mk shown text).name =
      (.ok n : Except (CoreError Addr) _) → n = (DisplayNameSheet.mk shown text).name := by
    intro n hn
    rcases hname with hok | hempty
    · exact Except.ok.inj (hn.symm.trans hok)
    · cases hn.symm.trans hempty
  refine ⟨fun e he => ?_, hsent, fun v v' hstage => ?_⟩
  · rcases hname with hok | hempty
    · cases he.symm.trans hok
    · exact Except.error.inj (he.symm.trans hempty)
  obtain ⟨n, staged, hn, hstaged, -, hwrote⟩ := Manager.stageSetDisplayName_ok hV hstage
  obtain rfl := hsent n hn
  -- No rename but this one is staged.
  have honly : ∀ n, .setDisplayName n ∈ staged → n = (DisplayNameSheet.mk shown text).name := by
    intro n hmem
    rcases hstaged with ⟨-, rfl⟩ | ⟨-, rfl, -⟩
    · simpa [Manager.withoutRename, Manager.isRename] using hmem
    · exact absurd (List.mem_filter.mp hmem).2 (by simp [Manager.isRename])
  rw [hwrote.getD]
  refine ⟨honly, fun hlive => ?_, fun held row hrow hkind => ?_⟩
  · rcases hstaged with ⟨-, rfl⟩ | ⟨hsame, -⟩
    · simp
    · exact absurd hsame hlive
  · obtain ⟨entry, hentry, hkind', hvalue, hbytes⟩ := Manager.mem_pendingRows hrow
    unfold AccountCore.plannedEntries at hentry
    rw [hwrote.getD] at hentry
    obtain ⟨edit, hedit, rfl⟩ := Manager.mem_plan.mp hentry
    obtain ⟨n, rfl⟩ := setDisplayName_of_kind (hkind'.symm.trans hkind)
    obtain rfl := honly n hedit
    refine ⟨hvalue, ?_⟩
    obtain ⟨held', rfl⟩ := Manager.state_stateOf hshown
    rw [hbytes, Manager.entrySize_staged hL hwrote.fits hedit]
    unfold DisplayNameSheet.cost DisplayNameSheet.bytes
    rw [utf8Bytes_eq]
    rfl

/-- An account just created. -/
def justCreated : World Reference.Addr :=
  CoreOp.runs Crates.reference [.createAccount (Reference.someKey 1) none 0] (.start [])

theorem sheet_and_core_agree_padded : ∃ shown,
    (DisplayNameSheet.mk shown " Saro ").confirmEnabled = true ∧
      Agrees Crates.reference ⟨(Reference.someKey 1).bytes⟩ ⟨shown, " Saro "⟩ := by
  have henabled : ((Manager.state Crates.reference ⟨(Reference.someKey 1).bytes⟩).on
      justCreated).1.toOption.map (fun shown =>
        (DisplayNameSheet.mk shown " Saro ").confirmEnabled) = some true := by
    decide +kernel
  rcases hrun : (Manager.state Crates.reference ⟨(Reference.someKey 1).bytes⟩).on justCreated
    with ⟨e | shown, w'⟩
  · rw [hrun] at henabled
    cases henabled
  · rw [hrun] at henabled
    have henabled := Option.some.inj henabled
    exact ⟨shown, henabled, (sheet_and_core_agree Reference.vaultLaws Reference.logLaws
      " Saro ").2 _ _ _ _ hrun henabled⟩

end AccountLogUi.View
