import AccountLogUi.Manager.State

/-!
# What a log holds, and what it takes

What the readers of a log find in it, as statements about its entries: `mem_liveKeys`,
`any_liveEntries`, `liveDisplayName_eq_some`.  `pushAll_plan` says when a log takes the entries a
list of staged edits plans, one after another.
-/

namespace AccountLogUi.Manager

variable {Addr : Type} {C : Crates Addr} {entries : List AccountEntry}

/-! ### Live entries -/

theorem mem_liveEntries (hL : C.LogLaws) {draft : AccountLogDraft} {e : IndexedEntry} :
    e ∈ C.liveEntries draft ↔
      draft.entries[e.index]? = some e.entry ∧ isLive draft.entries e.index = true := by
  rw [hL.liveEntries_eq, List.mem_filter, mem_indexed]

theorem any_liveEntries (hL : C.LogLaws) {draft : AccountLogDraft} {index : ℕ} :
    (∃ entry ∈ C.liveEntries draft, entry.index = index) ↔ isLive draft.entries index = true := by
  constructor
  · rintro ⟨entry, hmem, rfl⟩
    exact ((mem_liveEntries hL).mp hmem).2
  · intro hlive
    obtain ⟨⟨context, data, hadd⟩, -⟩ := isLive_iff.mp hlive
    exact ⟨⟨index, .add context data⟩, (mem_liveEntries hL).mpr ⟨hadd, hlive⟩, rfl⟩

/-- The key is live, under some context. -/
def KeyLive (entries : List AccountEntry) (key : Bytes32) : Prop :=
  ∃ index context, entries[index]? = some (.add context (.ed25519Key key)) ∧
    isLive entries index = true

theorem mem_liveKeys (hL : C.LogLaws) {draft : AccountLogDraft} {key : Bytes32} :
    key ∈ liveKeys C draft ↔ KeyLive draft.entries key := by
  rw [liveKeys, List.mem_filterMap]
  constructor
  · rintro ⟨⟨index, entry⟩, hmem, hkey⟩
    obtain ⟨hentry, hlive⟩ := (mem_liveEntries hL).mp hmem
    dsimp only at hkey hentry
    split at hkey
    · next context key' =>
      obtain rfl := Option.some.inj hkey
      exact ⟨index, context, hentry, hlive⟩
    · cases hkey
  · rintro ⟨index, context, hentry, hlive⟩
    exact ⟨⟨index, .add context (.ed25519Key key)⟩, (mem_liveEntries hL).mpr ⟨hentry, hlive⟩, rfl⟩

theorem KeyLive.of_append {more : List AccountEntry} {key : Bytes32}
    (hmore : ∀ context, AccountEntry.add context (.ed25519Key key) ∉ more)
    (h : KeyLive (entries ++ more) key) : KeyLive entries key := by
  obtain ⟨index, context, hentry, hlive⟩ := h
  rcases Nat.lt_or_ge index entries.length with hlt | hge
  · rw [List.getElem?_append_left hlt] at hentry
    exact ⟨index, context, hentry, ((isLive_append hlt).mp hlive).1⟩
  · rw [List.getElem?_append_right hge] at hentry
    exact absurd (List.mem_of_getElem? hentry) (hmore context)

/-! ### Names -/

/-- The entry at an index is a live display name, of that text. -/
def NameLive (entries : List AccountEntry) (index : ℕ) (name : String) : Prop :=
  entries[index]? = some (.add displayNameContext (.text name)) ∧ isLive entries index = true

theorem mem_liveDisplayNames (hL : C.LogLaws) {log : AccountLog} {name : Name} :
    name ∈ liveDisplayNames C log ↔ NameLive log.entries name.index name.value := by
  obtain ⟨index, value⟩ := name
  rw [liveDisplayNames, List.mem_filterMap]
  constructor
  · rintro ⟨⟨i, entry⟩, hmem, hname⟩
    rw [hL.entriesFor_eq, List.mem_filter, mem_indexed] at hmem
    obtain ⟨hentry, hselected⟩ := hmem
    obtain ⟨hlive, hcontext⟩ := Bool.and_eq_true_iff.mp hselected
    dsimp only at hentry hlive hcontext hname
    split at hname
    · next context value' =>
      obtain ⟨rfl, rfl⟩ := Name.mk.inj (Option.some.inj hname)
      obtain rfl : context = displayNameContext := by simpa using hcontext
      exact ⟨hentry, hlive⟩
    · cases hname
  · rintro ⟨hentry, hlive⟩
    refine ⟨⟨index, .add displayNameContext (.text value)⟩, ?_, rfl⟩
    rw [hL.entriesFor_eq, List.mem_filter, mem_indexed]
    exact ⟨hentry, by simpa using hlive⟩

theorem index_of_name {e : IndexedEntry} {name : Name} (h : (match e.entry with
      | .add _ (.text value) => some (⟨e.index, value⟩ : Name)
      | _ => none) = some name) : name.index = e.index := by
  split at h
  · rw [← Option.some.inj h]
  · cases h

/-- The live names come in log order. -/
theorem liveDisplayNames_sorted (hL : C.LogLaws) (log : AccountLog) :
    (liveDisplayNames C log).Pairwise fun a b => a.index < b.index := by
  rw [liveDisplayNames, hL.entriesFor_eq, List.pairwise_filterMap]
  have hindexed : (indexed log.entries).Pairwise fun a b => a.index < b.index := by
    rw [indexed, List.pairwise_iff_getElem]
    intro i j hi hj hij
    simpa using hij
  refine (hindexed.filter _).imp fun {a b} hab x hx y hy => ?_
  rw [index_of_name hx, index_of_name hy]
  exact hab

/-- The name in force is the highest-indexed live one. -/
theorem liveDisplayName_eq_some (hL : C.LogLaws) {log : AccountLog} {name : String} :
    liveDisplayName C log = some name ↔
      ∃ index, NameLive log.entries index name ∧
        ∀ index' name', NameLive log.entries index' name' → index' ≤ index := by
  have hsorted := liveDisplayNames_sorted hL log
  unfold liveDisplayName
  rw [Option.map_eq_some_iff]
  constructor
  · rintro ⟨last, hlast, rfl⟩
    obtain ⟨before, hsplit⟩ := List.getLast?_eq_some_iff.mp hlast
    refine ⟨last.index, (mem_liveDisplayNames hL).mp (by rw [hsplit]; simp), fun i n hin => ?_⟩
    have hmem : (⟨i, n⟩ : Name) ∈ liveDisplayNames C log := (mem_liveDisplayNames hL).mpr hin
    rw [hsplit, List.mem_append, List.mem_singleton] at hmem
    rcases hmem with hmem | rfl
    · rw [hsplit, List.pairwise_append] at hsorted
      exact (hsorted.2.2 _ hmem last List.mem_cons_self).le
    · exact le_rfl
  · rintro ⟨index, hin, hmax⟩
    have hmem : (⟨index, name⟩ : Name) ∈ liveDisplayNames C log := (mem_liveDisplayNames hL).mpr hin
    have hne := List.ne_nil_of_mem hmem
    obtain ⟨before, last, hsplit⟩ : ∃ before last, liveDisplayNames C log = before ++ [last] :=
      ⟨_, _, (List.dropLast_append_getLast hne).symm⟩
    refine ⟨last, List.getLast?_eq_some_iff.mpr ⟨before, hsplit⟩, ?_⟩
    rw [hsplit, List.mem_append, List.mem_singleton] at hmem
    rcases hmem with hmem | rfl
    · rw [hsplit, List.pairwise_append] at hsorted
      have hlt := hsorted.2.2 _ hmem last List.mem_cons_self
      have hlast := (mem_liveDisplayNames hL).mp
        (by rw [hsplit]; simp : last ∈ liveDisplayNames C log)
      exact absurd (hmax _ _ hlast) (not_le.mpr hlt)
    · rfl

/-! ### Pushing a plan -/

theorem mem_plan {staged : List StagedEdit} {entry : AccountEntry} :
    entry ∈ plan staged ↔ ∃ edit ∈ staged, entryOf edit = entry := by
  simp only [plan, List.mem_append, List.mem_map, List.mem_filter]
  constructor
  · rintro (⟨edit, ⟨hmem, -⟩, rfl⟩ | ⟨edit, ⟨hmem, -⟩, rfl⟩) <;> exact ⟨edit, hmem, rfl⟩
  · rintro ⟨edit, hmem, rfl⟩
    cases h : isRevoke edit
    · exact .inr ⟨edit, ⟨hmem, by rw [h]; rfl⟩, rfl⟩
    · exact .inl ⟨edit, ⟨hmem, h⟩, rfl⟩

theorem entryOf_injective : Function.Injective entryOf := by
  rintro (⟨⟨key⟩⟩ | name | i) (⟨⟨key'⟩⟩ | name' | j) h <;> simp_all [entryOf]

/-! ### Rows -/

theorem logRows_of_ok {log : AccountLog} {draft : AccountLogDraft} (h : C.fromLog log = .ok draft) :
    logRows C (some log) = (rowsFromDraft C draft, none) := by
  unfold logRows
  dsimp only
  rw [h]

theorem logRows_of_error {log : AccountLog} {e : AccountLogError} (h : C.fromLog log = .error e) :
    logRows C (some log) = (rowsByContext C log, some (C.errorText e)) := by
  unfold logRows
  dsimp only
  rw [h]

/-! ### Plans -/

/-- A log takes every entry of a plan, where each edit is one it can take: distinct edits, whose
revocations target live entries and whose keys are well formed and not live. -/
structure Takes (C : Crates Addr) (entries : List AccountEntry) (staged : List StagedEdit) :
    Prop where
  nodup : staged.Nodup
  revoke : ∀ index, .revoke index ∈ staged → isLive entries index = true
  key : ∀ key, .addInstallation key ∈ staged →
    (C.fromCanonicalBytes key.bytes).isSome ∧ ¬KeyLive entries key.bytes
  name : ∀ name, .setDisplayName name ∈ staged → name.utf8ByteSize ≤ 64

theorem Takes.tail {edit : StagedEdit} {staged : List StagedEdit}
    (h : Takes C entries (edit :: staged)) : Takes C entries staged where
  nodup := (List.nodup_cons.mp h.nodup).2
  revoke index hmem := h.revoke index (List.mem_cons_of_mem _ hmem)
  key key hmem := h.key key (List.mem_cons_of_mem _ hmem)
  name name hmem := h.name name (List.mem_cons_of_mem _ hmem)

theorem Takes.filter {staged : List StagedEdit} (h : Takes C entries staged)
    (p : StagedEdit → Bool) : Takes C entries (staged.filter p) where
  nodup := h.nodup.filter p
  revoke index hmem := h.revoke index (List.mem_of_mem_filter hmem)
  key key hmem := h.key key (List.mem_of_mem_filter hmem)
  name name hmem := h.name name (List.mem_of_mem_filter hmem)

/-- An edit of the list is taken first. -/
theorem Takes.push (hL : C.LogLaws) (hread : C.Readable entries) {edit : StagedEdit}
    {staged : List StagedEdit} (h : Takes C entries (edit :: staged)) :
    ∃ draft, C.push ⟨entries⟩ (entryOf edit) = .ok draft := by
  cases edit with
  | addInstallation key =>
    obtain ⟨hcanonical, hlive⟩ := h.key key List.mem_cons_self
    refine hL.push_key hread hcanonical fun index context hentry => ?_
    by_contra hlive'
    exact hlive ⟨index, context, hentry, by simpa using hlive'⟩
  | setDisplayName name => exact hL.push_name hread (h.name name List.mem_cons_self)
  | revoke index => exact (hL.push_remove hread).mpr (h.revoke index List.mem_cons_self)

/-- And the log takes the others after it, where the edit is a revocation or none of the others
is. -/
theorem Takes.pushed {edit : StagedEdit} {staged : List StagedEdit}
    (h : Takes C entries (edit :: staged))
    (horder : isRevoke edit = true ∨ ∀ other ∈ staged, isRevoke other = false) :
    Takes C (entries ++ [entryOf edit]) staged := by
  obtain ⟨hnew, hnodup⟩ := List.nodup_cons.mp h.nodup
  refine ⟨hnodup, fun index hmem => ?_, fun key hmem => ?_, h.tail.name⟩
  · have hrevoke : isRevoke edit = true :=
      horder.resolve_right fun hnone => by simpa [isRevoke] using hnone _ hmem
    have hlive := h.tail.revoke index hmem
    refine (isLive_append (isLive_lt hlive)).mpr ⟨hlive, ?_⟩
    intro hremove
    obtain hsame : entryOf (.revoke index) = entryOf edit := List.mem_singleton.mp hremove
    rw [← entryOf_injective hsame] at hnew
    exact hnew hmem
  · obtain ⟨hcanonical, hlive⟩ := h.tail.key key hmem
    refine ⟨hcanonical, fun hlive' => hlive (hlive'.of_append ?_)⟩
    intro context hadd
    have hentry := List.mem_singleton.mp hadd
    cases edit with
    | addInstallation key' =>
      obtain ⟨-, hbytes⟩ := AccountEntry.add.inj hentry
      obtain ⟨bytes⟩ := key
      obtain ⟨bytes'⟩ := key'
      obtain rfl : bytes = bytes' := EntryData.ed25519Key.inj hbytes
      exact hnew hmem
    | setDisplayName name => cases (AccountEntry.add.inj hentry).2
    | revoke index => cases hentry

/-- A list whose revocations come first is taken, one edit after another. -/
theorem Takes.pushAll (hL : C.LogLaws) {staged : List StagedEdit}
    (hread : C.Readable entries) (h : Takes C entries staged)
    (horder : (∀ edit ∈ staged, isRevoke edit = true) ∨ ∀ edit ∈ staged, isRevoke edit = false) :
    ∃ draft, C.pushAll ⟨entries⟩ (staged.map entryOf) = .ok draft := by
  induction staged generalizing entries with
  | nil => exact ⟨_, rfl⟩
  | cons edit staged ih =>
    obtain ⟨draft, hpush⟩ := h.push hL hread
    have hentries : draft.entries = entries ++ [entryOf edit] := hL.push_entries hpush
    have hpushed := h.pushed (horder.imp (· edit List.mem_cons_self)
      fun hnone other hother => hnone other (List.mem_cons_of_mem _ hother))
    have hread' : C.Readable (entries ++ [entryOf edit]) :=
      hentries ▸ hL.push_readable hread hpush
    obtain ⟨draft', hrest⟩ := ih hread' hpushed (horder.imp
      (fun hall other hother => hall other (List.mem_cons_of_mem _ hother))
      fun hnone other hother => hnone other (List.mem_cons_of_mem _ hother))
    refine ⟨draft', ?_⟩
    rw [List.map_cons, Crates.pushAll_cons, hpush]
    obtain rfl : draft = ⟨entries ++ [entryOf edit]⟩ := by rw [← hentries]
    exact hrest

/-- What a log takes after the revocations of a list. -/
theorem Takes.after_revokes {staged : List StagedEdit} (h : Takes C entries staged) :
    Takes C (entries ++ (staged.filter isRevoke).map entryOf) (staged.filter (!isRevoke ·)) where
  nodup := h.nodup.filter _
  revoke index hmem := by simp [isRevoke] at hmem
  key key hmem := by
    obtain ⟨hcanonical, hlive⟩ := h.key key (List.mem_of_mem_filter hmem)
    refine ⟨hcanonical, fun hlive' => hlive (hlive'.of_append ?_)⟩
    intro context hadd
    obtain ⟨edit, hedit, hentry⟩ := List.mem_map.mp hadd
    have hrevoke := (List.mem_filter.mp hedit).2
    cases edit with
    | revoke index => cases hentry
    | addInstallation key => cases hrevoke
    | setDisplayName name => cases hrevoke
  name name hmem := h.name name (List.mem_of_mem_filter hmem)

/-- A log takes a whole plan. -/
theorem pushAll_plan (hL : C.LogLaws) {staged : List StagedEdit} (hread : C.Readable entries)
    (h : Takes C entries staged) :
    C.pushAll ⟨entries⟩ (plan staged) = .ok ⟨entries ++ plan staged⟩ := by
  obtain ⟨draft, hrevokes⟩ := (h.filter isRevoke).pushAll hL hread
    (.inl fun edit hmem => (List.mem_filter.mp hmem).2)
  obtain ⟨entries', rfl⟩ : ∃ entries', draft = ⟨entries'⟩ := ⟨draft.entries, rfl⟩
  obtain rfl : entries' = entries ++ (staged.filter isRevoke).map entryOf :=
    Crates.pushAll_entries hL hrevokes
  have hread' := @Crates.pushAll_readable _ _ hL _ ⟨entries⟩ _ hread hrevokes
  obtain ⟨draft', hadds⟩ := h.after_revokes.pushAll hL hread'
    (.inr fun edit hmem => by simpa using (List.mem_filter.mp hmem).2)
  have hall : C.pushAll ⟨entries⟩ (plan staged) = .ok draft' := by
    rw [plan, Crates.pushAll_append, hrevokes]
    exact hadds
  obtain ⟨entries', rfl⟩ : ∃ entries', draft' = ⟨entries'⟩ := ⟨draft'.entries, rfl⟩
  rw [hall]
  exact congrArg (fun e => Except.ok (AccountLogDraft.mk e)) (Crates.pushAll_entries hL hall)

/-! ### What a plan leaves live -/

theorem plan_nodup {staged : List StagedEdit} (h : staged.Nodup) : (plan staged).Nodup := by
  have hparts : (staged.filter isRevoke ++ staged.filter (!isRevoke ·)).Nodup := by
    refine List.nodup_append.mpr ⟨h.filter _, h.filter _, ?_⟩
    rintro edit hrevoke _ hother rfl
    have htrue := (List.mem_filter.mp hrevoke).2
    have hfalse := (List.mem_filter.mp hother).2
    rw [htrue] at hfalse
    cases hfalse
  rw [plan, ← List.map_append]
  exact hparts.map entryOf_injective

/-- No removal targets an entry past the end of a log, in the log or in a plan it takes. -/
theorem remove_not_mem_past (hL : C.LogLaws) {staged : List StagedEdit} (hread : C.Readable entries)
    (h : Takes C entries staged) (offset : ℕ) :
    AccountEntry.remove (entries.length + offset) ∉ entries ∧
      AccountEntry.remove (entries.length + offset) ∉ plan staged := by
  constructor
  · intro hmem
    obtain ⟨i, hi⟩ := List.mem_iff_getElem?.mp hmem
    have hlt : i < entries.length := (List.getElem?_eq_some_iff.mp hi).1
    have htarget := @Crates.LogLaws.remove_target _ _ hL ⟨entries⟩ _ i _ hread hi
    omega
  · intro hmem
    obtain ⟨edit, hedit, hentry⟩ := mem_plan.mp hmem
    have hedit' : edit = .revoke (entries.length + offset) := entryOf_injective hentry
    have hlt := isLive_lt (h.revoke _ (hedit' ▸ hedit))
    omega

/-- What a plan adds is live. -/
theorem isLive_planned (hL : C.LogLaws) {staged : List StagedEdit} (hread : C.Readable entries)
    (h : Takes C entries staged) {offset : ℕ} {context : Context} {data : EntryData}
    (hentry : (plan staged)[offset]? = some (.add context data)) :
    isLive (entries ++ plan staged) (entries.length + offset) = true :=
  isLive_append_right.mpr ⟨⟨context, data, hentry⟩, remove_not_mem_past hL hread h offset⟩

/-- What was live stays so, unless the plan revokes it. -/
theorem isLive_before_plan {staged : List StagedEdit} {index : ℕ} (hlt : index < entries.length) :
    isLive (entries ++ plan staged) index = true ↔
      isLive entries index = true ∧ .revoke index ∉ staged := by
  rw [isLive_append hlt]
  refine and_congr_right fun _ => not_congr ?_
  rw [mem_plan]
  constructor
  · rintro ⟨edit, hedit, hentry⟩
    obtain rfl : edit = .revoke index := entryOf_injective hentry
    exact hedit
  · exact fun hmem => ⟨_, hmem, rfl⟩

/-- The name a plan adds is in force. -/
theorem liveDisplayName_plan (hL : C.LogLaws) {staged : List StagedEdit}
    (hread : C.Readable entries) (h : Takes C entries staged)
    (hone : ∀ name name', .setDisplayName name ∈ staged → .setDisplayName name' ∈ staged →
      name = name') {name : String} (hmem : .setDisplayName name ∈ staged) :
    liveDisplayName C ⟨entries ++ plan staged⟩ = some name := by
  have hplan : AccountEntry.add displayNameContext (.text name) ∈ plan staged :=
    mem_plan.mpr ⟨_, hmem, rfl⟩
  obtain ⟨offset, hoffset⟩ := List.mem_iff_getElem?.mp hplan
  refine (liveDisplayName_eq_some hL).mpr ⟨entries.length + offset,
    ⟨?_, isLive_planned hL hread h hoffset⟩, ?_⟩
  · rw [List.getElem?_append_right (Nat.le_add_right _ _), Nat.add_sub_cancel_left]
    exact hoffset
  · rintro index' name' ⟨hentry, -⟩
    rcases Nat.lt_or_ge index' entries.length with hlt | hge
    · omega
    · -- A second name past the log's end is the same entry of the plan.
      dsimp only at hentry
      rw [List.getElem?_append_right hge] at hentry
      obtain ⟨edit, hedit, hname⟩ := mem_plan.mp (List.mem_of_getElem? hentry)
      obtain rfl : edit = .setDisplayName name' := entryOf_injective hname
      obtain rfl := hone name name' hmem hedit
      have hlt := (List.getElem?_eq_some_iff.mp hoffset).1
      have hsame := (List.getElem?_inj hlt (plan_nodup h.nodup)).mp (hoffset.trans hentry.symm)
      omega

end AccountLogUi.Manager
