import AccountLogUi.Manager.Equiv.Planned

/-!
# What entries cost

An entry is measured by encoding it on its own, and a removal behind a name; what is charged is the
payload of the whole log.  `entrySize_of_mem` says the two agree for every entry of a log this build
can read, so rows add up to the payload (`sum_rows`), and pending rows to what it grows by
(`payload_growth`).
-/

namespace AccountLogUi.Manager

variable {Addr : Type} {C : Crates Addr} {entries : List AccountEntry}

/-! ### Payloads -/

theorem length_payloadOf (entries : List AccountEntry) : (C.payloadOf entries).length =
    domainBytes C + (entries.map fun entry => (C.entryBytes entry).length).sum := by
  rw [Crates.payloadOf, List.length_append, List.length_flatMap]
  rfl

theorem length_payloadOf_singleton (entry : AccountEntry) :
    (C.payloadOf [entry]).length = domainBytes C + (C.entryBytes entry).length := by
  rw [length_payloadOf]
  rfl

/-- An entry on its own is no longer than a log it is in. -/
theorem length_payloadOf_mem {entry : AccountEntry} (hmem : entry ∈ entries) :
    (C.payloadOf [entry]).length ≤ (C.payloadOf entries).length := by
  obtain ⟨before, after, rfl⟩ := List.append_of_mem hmem
  rw [length_payloadOf_singleton, length_payloadOf, List.map_append, List.sum_append,
    List.map_cons, List.sum_cons]
  omega

/-- What an encoding log encodes to. -/
theorem encode_ok (hL : C.LogLaws) (hread : C.Readable entries) {payload : List UInt8} :
    C.encode ⟨entries⟩ = .ok payload ↔
      payload = C.payloadOf entries ∧ (C.payloadOf entries).length ≤ C.maxPayloadBytes := by
  rw [hL.encode_eq hread]
  by_cases hsize : (C.payloadOf entries).length ≤ C.maxPayloadBytes
  · rw [if_pos hsize, Except.ok.injEq]
    exact ⟨fun h => ⟨h.symm, hsize⟩, fun h => h.1.symm⟩
  · rw [if_neg hsize]
    exact ⟨nofun, fun h => absurd h.2 hsize⟩

/-! ### One entry -/

theorem encodedSize_eq (hL : C.LogLaws)
    (hpush : C.pushAll .new entries = .ok ⟨entries⟩)
    (hsize : (C.payloadOf entries).length ≤ C.maxPayloadBytes) :
    encodedSize C entries = (C.payloadOf entries).length := by
  have hread : C.Readable entries :=
    @Crates.pushAll_readable _ _ hL _ .new _ (Crates.readable_nil hL) hpush
  have hencode := (encode_ok hL hread).mpr ⟨rfl, hsize⟩
  unfold encodedSize
  rw [hpush]
  dsimp only [AccountLogDraft.log]
  rw [hencode]

/-- Taking the domain off a measure does not go below nothing. -/
theorem domainBytes_le_encodedSize (hL : C.LogLaws) (entries : List AccountEntry) :
    domainBytes C ≤ encodedSize C entries := by
  unfold encodedSize
  cases hpush : C.pushAll .new entries with
  | error e => exact le_rfl
  | ok draft =>
    have hread := Crates.pushAll_readable hL (Crates.readable_nil hL) hpush
    dsimp only
    cases hencode : C.encode draft.log with
    | error e => exact le_rfl
    | ok payload =>
      obtain ⟨hpayload, -⟩ := (encode_ok hL hread).mp hencode
      show domainBytes C ≤ payload.length
      rw [hpayload, length_payloadOf]
      exact Nat.le_add_right _ _

theorem pushAll_singleton (hL : C.LogLaws) {entry : AccountEntry}
    (hpush : ∃ draft, C.push .new entry = .ok draft) :
    C.pushAll .new [entry] = .ok ⟨[entry]⟩ := by
  obtain ⟨⟨pushed⟩, hpush⟩ := hpush
  obtain rfl : pushed = [entry] := hL.push_entries hpush
  rw [Crates.pushAll_cons, hpush]
  rfl

/-- An addition costs its own encoding. -/
theorem entrySize_add (hL : C.LogLaws) {context : Context} {data : EntryData}
    (hpush : ∃ draft, C.push .new (.add context data) = .ok draft)
    (hsize : (C.payloadOf [.add context data]).length ≤ C.maxPayloadBytes) :
    entrySize C (.add context data) = (C.entryBytes (.add context data)).length := by
  show encodedSize C [.add context data] - domainBytes C = _
  rw [encodedSize_eq hL (pushAll_singleton hL hpush) hsize, length_payloadOf_singleton]
  omega

theorem push_emptyName (hL : C.LogLaws) : ∃ draft, C.push .new emptyName = .ok draft :=
  hL.push_name (Crates.readable_nil hL) (by decide)

theorem encodedSize_emptyName (hL : C.LogLaws) :
    encodedSize C [emptyName] = (C.payloadOf [emptyName]).length := by
  refine encodedSize_eq hL (pushAll_singleton hL (push_emptyName hL)) ?_
  exact (length_payloadOf_mem (by simp [emptyName])).trans hL.room

theorem encodedSize_removal (hL : C.LogLaws) :
    encodedSize C [emptyName, .remove 0] = (C.payloadOf [emptyName, .remove 0]).length := by
  have hname := pushAll_singleton hL (push_emptyName hL)
  have hread : C.Readable [emptyName] :=
    @Crates.pushAll_readable _ _ hL _ .new _ (Crates.readable_nil hL) hname
  obtain ⟨⟨pushed⟩, hpush⟩ :=
    (@Crates.LogLaws.push_remove _ _ hL ⟨[emptyName]⟩ 0 hread).mpr rfl
  obtain rfl : pushed = [emptyName, .remove 0] := hL.push_entries hpush
  refine encodedSize_eq hL ?_ hL.room
  rw [show [emptyName, AccountEntry.remove 0] = [emptyName] ++ [.remove 0] from rfl,
    Crates.pushAll_append, hname]
  show (C.push ⟨[emptyName]⟩ (.remove 0)).bind _ = _
  rw [hpush]
  rfl

/-- A removal costs its own encoding, wherever it points. -/
theorem removeCost_eq (hL : C.LogLaws) (index : ℕ) :
    removeCost C = (C.entryBytes (.remove index)).length := by
  have hpair : (C.payloadOf [emptyName, .remove 0]).length =
      (C.payloadOf [emptyName]).length + (C.entryBytes (.remove 0)).length := by
    rw [length_payloadOf, length_payloadOf]
    simp only [List.map_cons, List.map_nil, List.sum_cons, List.sum_nil]
    omega
  rw [removeCost, encodedSize_removal hL, encodedSize_emptyName hL, hpair,
    hL.remove_bytes index 0]
  omega

/-- What an entry of a log costs is its own encoding. -/
theorem entrySize_of_mem (hL : C.LogLaws) (hread : C.Readable entries)
    (hsize : (C.payloadOf entries).length ≤ C.maxPayloadBytes) {entry : AccountEntry}
    (hmem : entry ∈ entries) : entrySize C entry = (C.entryBytes entry).length := by
  cases entry with
  | add context data =>
    exact entrySize_add hL (hL.add_new hread hmem) ((length_payloadOf_mem hmem).trans hsize)
  | remove index => exact removeCost_eq hL index
  | unknown opcode body => exact absurd hmem (hL.no_unknown hread)

/-! ### Rows -/

theorem bytes_rowsFromDraft (draft : AccountLogDraft) :
    (rowsFromDraft C draft).map (·.bytes) = draft.entries.map (entrySize C) := by
  rw [rowsFromDraft, List.map_map, indexed]
  refine List.ext_getElem (by simp) fun i _ _ => ?_
  simp [rowFrom]

/-- A pending row shows an entry that is planned. -/
theorem mem_pendingRows {planned : List AccountEntry} {base : ℕ} {row : EntryRow}
    (h : row ∈ pendingRows C planned base) : ∃ entry ∈ planned,
      row.kind = (describe entry).1 ∧ row.value = (describe entry).2 ∧
        row.bytes = entrySize C entry := by
  obtain ⟨i, hi, rfl⟩ := List.mem_mapIdx.mp h
  exact ⟨planned[i], List.getElem_mem hi, rfl, rfl, rfl⟩

theorem bytes_pendingRows (planned : List AccountEntry) (base : ℕ) :
    (pendingRows C planned base).map (·.bytes) = planned.map (entrySize C) := by
  rw [pendingRows]
  refine List.ext_getElem (by simp) fun i _ _ => ?_
  simp [rowFrom]

theorem bytes_markSuperseded (name : Option Name) (previous : List Name) (rows : List EntryRow) :
    (markSuperseded name previous rows).map (·.bytes) = rows.map (·.bytes) := by
  unfold markSuperseded
  split
  · rfl
  · rw [List.map_map]
    refine List.map_congr_left fun row _ => ?_
    show (if _ then _ else _ : EntryRow).bytes = row.bytes
    split <;> rfl

/-- The rows of a log account for all of it. -/
theorem sum_rows (hL : C.LogLaws) (hread : C.Readable entries)
    (hsize : (C.payloadOf entries).length ≤ C.maxPayloadBytes) :
    domainBytes C + ((rowsFromDraft C ⟨entries⟩).map (·.bytes)).sum =
      (C.payloadOf entries).length := by
  have hsizes : entries.map (entrySize C) = entries.map fun entry => (C.entryBytes entry).length :=
    List.map_congr_left fun entry hmem => entrySize_of_mem hL hread hsize hmem
  rw [bytes_rowsFromDraft, hsizes, length_payloadOf]

/-! ### What is quoted -/

/-- What the dialogs quote for an edit. -/
def quotedCost (C : Crates Addr) : StagedEdit → ℕ
  | .addInstallation _ => (entryCosts C).installation
  | .setDisplayName name => (entryCosts C).displayName + name.utf8ByteSize
  | .revoke _ => (entryCosts C).remove

theorem quotedCost_eq (hL : C.LogLaws) {edit : StagedEdit}
    (hsize : (C.payloadOf [entryOf edit]).length ≤ C.maxPayloadBytes) :
    quotedCost C edit = (C.entryBytes (entryOf edit)).length := by
  rw [length_payloadOf_singleton] at hsize
  cases edit with
  | addInstallation key =>
    have hprobe := hL.key_bytes signerContext C.probeKey.bytes key.bytes
    have hpush := @Crates.LogLaws.push_key _ _ hL .new _ (Crates.readable_nil hL)
      hL.probe_canonical (by simp [AccountLogDraft.new])
    show entrySize C (.add signerContext (.ed25519Key C.probeKey.bytes)) = _
    rw [entrySize_add hL hpush]
    · exact hprobe
    · rw [length_payloadOf_singleton, hprobe]
      exact hsize
  | setDisplayName name =>
    have htext := hL.text_bytes displayNameContext name
    show entrySize C emptyName + name.utf8ByteSize = _
    rw [show entrySize C emptyName = _ from entrySize_add hL (push_emptyName hL) ?_]
    · exact htext.symm
    · exact (length_payloadOf_mem (by simp)).trans hL.room
  | revoke index => exact removeCost_eq hL index

/-- An update that fits is one the log takes, within the budget. -/
theorem fits_ok (hL : C.LogLaws) {core : AccountCore Addr} {addr : Addr} {staged : List StagedEdit}
    (h : core.fits C addr staged = .ok ()) :
    C.Readable (heldEntries (core.record addr) ++ plan staged) ∧
      (C.payloadOf (heldEntries (core.record addr) ++ plan staged)).length ≤
        C.maxPayloadBytes := by
  unfold AccountCore.fits at h
  rcases @extendable_eq _ C core addr hL with ⟨heq, hread⟩ | ⟨heq, -⟩
  · rw [heq] at h
    dsimp only [bind, Except.bind] at h
    rw [getD_heldEntries] at h
    cases hpush : C.pushAll ⟨heldEntries (core.record addr)⟩ (plan staged) with
    | error e =>
      rw [hpush] at h
      cases h
    | ok draft =>
      obtain ⟨pushed⟩ := draft
      obtain rfl : pushed = _ := Crates.pushAll_entries hL hpush
      have hread' : C.Readable (heldEntries (core.record addr) ++ plan staged) :=
        @Crates.pushAll_readable _ _ hL _ ⟨_⟩ _ hread hpush
      refine ⟨hread', ?_⟩
      rw [hpush] at h
      by_contra hsize
      have hencode := hL.encode_eq hread'
      rw [if_neg hsize] at hencode
      dsimp only [Except.mapError, AccountLogDraft.log] at h
      rw [hencode] at h
      cases h
  · rw [heq] at h
    cases h

/-- What is staged costs what was quoted for it. -/
theorem entrySize_staged (hL : C.LogLaws) {core : AccountCore Addr} {addr : Addr}
    {staged : List StagedEdit} (h : core.fits C addr staged = .ok ()) {edit : StagedEdit}
    (hmem : edit ∈ staged) : entrySize C (entryOf edit) = quotedCost C edit := by
  obtain ⟨hread, hsize⟩ := fits_ok hL h
  have hentry : entryOf edit ∈ heldEntries (core.record addr) ++ plan staged :=
    List.mem_append_right _ (mem_plan.mpr ⟨edit, hmem, rfl⟩)
  rw [entrySize_of_mem hL hread hsize hentry,
    quotedCost_eq hL ((length_payloadOf_mem hentry).trans hsize)]

/-- What appending some edits adds to a payload is what was quoted for each of them, and what their
pending rows say. -/
theorem payload_growth (hL : C.LogLaws) {edits : List StagedEdit} {draft : AccountLogDraft}
    (hread : C.Readable entries)
    (hpush : C.pushAll ⟨entries⟩ (edits.map entryOf) = .ok draft) {payload : List UInt8}
    (hencode : C.encode draft.log = .ok payload) :
    payload.length = (C.payloadOf entries).length + (edits.map (quotedCost C)).sum ∧
      ∀ base, (pendingRows C (edits.map entryOf) base).map (·.bytes) =
        edits.map (quotedCost C) := by
  obtain ⟨pushed⟩ := draft
  obtain rfl : pushed = entries ++ edits.map entryOf := Crates.pushAll_entries hL hpush
  have hread' : C.Readable (entries ++ edits.map entryOf) :=
    @Crates.pushAll_readable _ _ hL _ ⟨entries⟩ _ hread hpush
  obtain ⟨rfl, hsize⟩ := (encode_ok hL hread').mp hencode
  have hmem : ∀ edit ∈ edits, entryOf edit ∈ entries ++ edits.map entryOf :=
    fun edit hedit => List.mem_append_right _ (List.mem_map_of_mem hedit)
  have hquoted : ∀ edit ∈ edits, quotedCost C edit = (C.entryBytes (entryOf edit)).length :=
    fun edit hedit => quotedCost_eq hL ((length_payloadOf_mem (hmem edit hedit)).trans hsize)
  constructor
  · have hsum : edits.map (quotedCost C) =
        (edits.map entryOf).map fun entry => (C.entryBytes entry).length := by
      rw [List.map_map]
      exact List.map_congr_left hquoted
    rw [hsum, length_payloadOf, length_payloadOf, List.map_append, List.sum_append]
    omega
  · intro base
    rw [bytes_pendingRows, List.map_map]
    refine List.map_congr_left fun edit hedit => ?_
    rw [hquoted edit hedit]
    exact entrySize_of_mem hL hread' hsize (hmem edit hedit)

variable [DecidableEq Addr]

/-- The sizes on screen add up: the rows of a log this build can read, with the domain, to its
payload; what is quoted for some edits, and what their pending rows say, to what the payload grows
by; and no size is the difference of a number and a larger one. -/
theorem sizes_add_up (hV : C.VaultLaws) (hL : C.LogLaws) (hA : C.AccountLaws) :
    (∀ entries payload, C.Readable entries → C.encode ⟨entries⟩ = .ok payload →
      (rowsFromDraft C ⟨entries⟩).map (·.bytes) = entries.map (entrySize C) ∧
      domainBytes C + ((rowsFromDraft C ⟨entries⟩).map (·.bytes)).sum = payload.length ∧
      ∀ (edits : List StagedEdit) draft payload',
        C.pushAll ⟨entries⟩ (edits.map entryOf) = .ok draft →
        C.encode draft.log = .ok payload' →
        payload'.length = payload.length + (edits.map (quotedCost C)).sum ∧
          ∀ base, (pendingRows C (edits.map entryOf) base).map (·.bytes) =
            edits.map (quotedCost C)) ∧
      (∀ entries, domainBytes C ≤ encodedSize C entries) ∧
      encodedSize C [emptyName] ≤ encodedSize C [emptyName, .remove 0] ∧
      ∀ w : World Addr, Reachable C w → ∀ addr record, w.core.record addr = some record →
        C.Readable record.log.entries → record.signedLog.payload.length ≤ C.maxPayloadBytes →
        ∀ held, (stateOf C w.core addr held).logBytes =
          domainBytes C + ((stateOf C w.core addr held).entries.map (·.bytes)).sum := by
  refine ⟨fun entries payload hread hencode => ?_, domainBytes_le_encodedSize hL, ?_,
    fun w hw addr record hrecord hread hsize held => ?_⟩
  · obtain ⟨rfl, hsize⟩ := (encode_ok hL hread).mp hencode
    exact ⟨bytes_rowsFromDraft _, sum_rows hL hread hsize,
      fun edits draft payload' hpush hencode' => payload_growth hL hread hpush hencode'⟩
  · rw [encodedSize_removal hL, encodedSize_emptyName hL]
    exact length_payloadOf_mem (by simp)
  · have hverify := (hw.sound hV hL hA).resolver addr record (record_eq_some.mp hrecord).2
    have hpayload := hL.decode_payload (hA.verify_decode hverify)
    have hentries : (stateOf C w.core addr held).entries.map (·.bytes) =
        (rowsFromDraft C ⟨record.log.entries⟩).map (·.bytes) := by
      show (markSuperseded _ _ (logRows C ((w.core.record addr).map (·.log))).1).map _ = _
      rw [bytes_markSuperseded, hrecord]
      show ((logRows C (some ⟨record.log.entries⟩)).1).map _ = _
      rw [logRows_of_ok hread]
    have hbytes : (stateOf C w.core addr held).logBytes = record.signedLog.payload.length := by
      show (w.core.record addr).elim _ _ = _
      rw [hrecord]
      rfl
    rw [hpayload] at hsize hbytes
    rw [hbytes, hentries, sum_rows hL hread hsize]

/-- A name revoked: the rows add up, and a name staged after it grows the payload by its quote. -/
theorem sizes_add_up_named :
    domainBytes Crates.reference + ((rowsFromDraft Crates.reference
        ⟨[.add displayNameContext (.text "Saro"), .remove 0]⟩).map (·.bytes)).sum = 52 ∧
      ∃ draft payload, Crates.reference.pushAll
          ⟨[.add displayNameContext (.text "Saro"), .remove 0]⟩
          [entryOf (.setDisplayName "Raya")] = .ok draft ∧
        Crates.reference.encode draft.log = .ok payload ∧
        payload.length = 52 + quotedCost Crates.reference (.setDisplayName "Raya") ∧
        (pendingRows Crates.reference [entryOf (.setDisplayName "Raya")] 2).map (·.bytes) =
          [quotedCost Crates.reference (.setDisplayName "Raya")] := by
  obtain ⟨-, hsum, hgrowth⟩ := (sizes_add_up Reference.vaultLaws Reference.logLaws
    Reference.accountLaws).1 [.add displayNameContext (.text "Saro"), .remove 0] _ rfl rfl
  obtain ⟨hgrown, hrows⟩ := hgrowth [.setDisplayName "Raya"] _ _ rfl rfl
  exact ⟨hsum, _, _, rfl, rfl, hgrown, hrows 2⟩

end AccountLogUi.Manager
