import AccountLogUi.Manager.Equiv.Preview
import AccountLogUi.View.Store

/-!
# What the screens say a publish will do, it does

The screens tell before a publish what will come of it: which entries it will remove and by which,
which keys are to come, the name that will be in force, and how much the log will grow.
`Foretold` compares what they read before it with what they read after.

The core lists the names and the keys of a log by going through its live entries.
`entriesFor_plan` says what becomes of that list where a plan is appended.
-/

namespace AccountLogUi.View

open Manager

variable {Addr : Type} {C : Crates Addr} {entries : List AccountEntry} {staged : List StagedEdit}

/-! ### A plan appended to a log -/

/-- The entry adds something under the context. -/
def addsTo (context : Context) : AccountEntry → Bool
  | .add context' _ => context' == context
  | _ => false

/-- Entries, numbered from a base. -/
def numbered (base : ℕ) (planned : List AccountEntry) : List IndexedEntry :=
  planned.mapIdx fun offset entry => ⟨base + offset, entry⟩

theorem mem_numbered {base : ℕ} {planned : List AccountEntry} {e : IndexedEntry}
    (h : e ∈ numbered base planned) :
    ∃ offset, planned[offset]? = some e.entry ∧ e.index = base + offset := by
  obtain ⟨offset, hlt, rfl⟩ := List.mem_mapIdx.mp h
  exact ⟨offset, List.getElem?_eq_getElem hlt, rfl⟩

theorem indexed_append (entries planned : List AccountEntry) :
    indexed (entries ++ planned) = indexed entries ++ numbered entries.length planned := by
  unfold indexed numbered
  rw [List.mapIdx_append]
  simp only [Nat.add_comm]

/-- The live entries of a context, where a plan is appended: those it does not revoke, and those it
adds. -/
theorem entriesFor_plan (hL : C.LogLaws) (hread : C.Readable entries)
    (htakes : Takes C entries staged) (context : Context) :
    C.entriesFor ⟨entries ++ plan staged⟩ context =
      (C.entriesFor ⟨entries⟩ context).filter (fun e => decide (.revoke e.index ∉ staged)) ++
        (numbered entries.length (plan staged)).filter fun e => addsTo context e.entry := by
  have heq : ∀ log, C.entriesFor log context =
      (indexed log.entries).filter fun e => isLive log.entries e.index && addsTo context e.entry :=
    fun log => hL.entriesFor_eq log context
  rw [heq, heq]
  dsimp only
  rw [indexed_append, List.filter_append, List.filter_filter]
  congr 1
  -- Of the entries there, those staged for removal go.
  · refine List.filter_congr fun e hmem => ?_
    have hlt : e.index < entries.length :=
      (List.getElem?_eq_some_iff.mp (mem_indexed.mp hmem)).1
    have hlive : isLive (entries ++ plan staged) e.index =
        (isLive entries e.index && decide (.revoke e.index ∉ staged)) := by
      rw [Bool.eq_iff_iff, isLive_before_plan hlt, Bool.and_eq_true, decide_eq_true_iff]
    rw [hlive, Bool.and_comm (isLive entries e.index), Bool.and_assoc]
  -- Those planned are all live.
  · refine List.filter_congr fun e hmem => ?_
    obtain ⟨offset, hentry, hindex⟩ := mem_numbered hmem
    cases hadds : addsTo context e.entry with
    | false => rw [Bool.and_false]
    | true =>
      obtain ⟨context', data, hadd⟩ : ∃ context' data, e.entry = .add context' data := by
        cases hentry' : e.entry with
        | add context' data => exact ⟨context', data, rfl⟩
        | remove index =>
          rw [hentry'] at hadds
          cases hadds
        | unknown opcode body =>
          rw [hentry'] at hadds
          cases hadds
      rw [hadd] at hentry
      rw [hindex, isLive_planned hL hread htakes hentry]
      rfl

/-- What is read off the live entries of a context, entry by entry. -/
theorem filterMap_entriesFor_plan {α : Type} (hL : C.LogLaws) (hread : C.Readable entries)
    (htakes : Takes C entries staged) (context : Context) (index : α → ℕ)
    {f : IndexedEntry → Option α} (hindex : ∀ e a, f e = some a → index a = e.index) :
    (C.entriesFor ⟨entries ++ plan staged⟩ context).filterMap f =
      ((C.entriesFor ⟨entries⟩ context).filterMap f).filter
        (fun a => decide (.revoke (index a) ∉ staged)) ++
      (numbered entries.length (plan staged)).filterMap fun e =>
        if addsTo context e.entry then f e else none := by
  rw [entriesFor_plan hL hread htakes, List.filterMap_append, List.filterMap_filter,
    List.filterMap_filter, List.filter_filterMap]
  congr 1
  refine List.filterMap_congr fun e _ => ?_
  cases hf : f e with
  | none => simp
  | some a => simp [Option.filter, hindex e a hf]

/-! ### Pending rows -/

theorem pendingRows_eq (planned : List AccountEntry) (base : ℕ) : pendingRows C planned base =
    (numbered base planned).map fun e => rowFrom C e.index e.entry (match e.entry with
      | .remove _ => false
      | _ => true) := by
  unfold pendingRows numbered
  ext1 i
  rw [List.getElem?_mapIdx, List.getElem?_map, List.getElem?_mapIdx, Option.map_map]
  rfl

/-- What is read off the pending rows of a kind is what is read off the entries planned. -/
theorem filterMap_pendingRows {α : Type} {g : EntryRow → Option α}
    {f : ℕ → AccountEntry → Option α}
    (h : ∀ index entry live, g (rowFrom C index entry live) = f index entry)
    (planned : List AccountEntry) (base : ℕ) : (pendingRows C planned base).filterMap g =
      (numbered base planned).filterMap fun e => f e.index e.entry := by
  rw [pendingRows_eq, List.filterMap_map]
  exact List.filterMap_congr fun e _ => h e.index e.entry _

theorem mem_targets {planned : List AccountEntry} {base index : ℕ} :
    index ∈ (pendingRows C planned base).filterMap (·.target) ↔ .remove index ∈ planned := by
  rw [pendingRows_eq, List.filterMap_map, List.mem_filterMap]
  constructor
  · rintro ⟨e, hmem, htarget⟩
    obtain ⟨offset, hentry, -⟩ := mem_numbered hmem
    cases he : e.entry with
    | remove index' =>
      rw [Function.comp_apply, he] at htarget
      obtain rfl := Option.some.inj htarget
      rw [he] at hentry
      exact List.mem_of_getElem? hentry
    | add context data =>
      rw [Function.comp_apply, he] at htarget
      cases htarget
    | unknown opcode body =>
      rw [Function.comp_apply, he] at htarget
      cases htarget
  · intro hmem
    obtain ⟨offset, hoffset⟩ := List.mem_iff_getElem?.mp hmem
    obtain ⟨hlt, hentry⟩ := List.getElem?_eq_some_iff.mp hoffset
    refine ⟨⟨base + offset, planned[offset]⟩, List.mem_mapIdx.mpr ⟨offset, hlt, rfl⟩, ?_⟩
    rw [Function.comp_apply, hentry]
    rfl

/-- The installation an entry endorses. -/
def installationOf (e : IndexedEntry) : Option Installation :=
  match e.entry with
  | .add _ (.ed25519Key key) => some ⟨e.index, String.ofList (Hex.encode key.toList)⟩
  | _ => none

/-- The name an entry gives. -/
def nameOf (e : IndexedEntry) : Option Name :=
  match e.entry with
  | .add _ (.text value) => some ⟨e.index, value⟩
  | _ => none

theorem liveInstallations_eq (log : AccountLog) : liveInstallations C log =
    ((C.entriesFor log signerContext).filterMap installationOf).reverse := by
  rw [← List.filterMap_reverse]
  rfl

theorem index_of_installationOf (e : IndexedEntry) (installation : Installation)
    (h : installationOf e = some installation) : installation.index = e.index := by
  unfold installationOf at h
  split at h
  · rw [← Option.some.inj h]
  · cases h

theorem index_of_nameOf (e : IndexedEntry) (name : Name) (h : nameOf e = some name) :
    name.index = e.index := by
  unfold nameOf at h
  split at h
  · rw [← Option.some.inj h]
  · cases h

/-- A row of an installation's key, pending or not. -/
theorem kind_installation (index : ℕ) (entry : AccountEntry) (live : Bool) :
    (if (rowFrom C index entry live).kind = "installation" then
        some (⟨(rowFrom C index entry live).index, (rowFrom C index entry live).value⟩ :
          Installation) else none) =
      if addsTo signerContext entry then installationOf ⟨index, entry⟩ else none := by
  unfold rowFrom describe addsTo installationOf
  cases entry with
  | add context data =>
    cases data with
    | ed25519Key key =>
      by_cases hcontext : context = signerContext
      · simp [hcontext]
      · simp [hcontext]
    | text value =>
      by_cases hcontext : context = displayNameContext
      · simp [hcontext]
      · simp [hcontext]
    | other tag body => simp
  | remove target => simp
  | unknown opcode body => simp

/-- A row of a name. -/
theorem kind_displayName (index : ℕ) (entry : AccountEntry) (live : Bool) :
    (if (rowFrom C index entry live).kind = "displayName" then
        some (⟨(rowFrom C index entry live).index, (rowFrom C index entry live).value⟩ : Name)
      else none) =
      if addsTo displayNameContext entry then nameOf ⟨index, entry⟩ else none := by
  unfold rowFrom describe addsTo nameOf
  cases entry with
  | add context data =>
    cases data with
    | ed25519Key key =>
      by_cases hcontext : context = signerContext
      · simp [hcontext]
      · simp [hcontext]
    | text value =>
      by_cases hcontext : context = displayNameContext
      · simp [hcontext]
      · simp [hcontext]
    | other tag body => simp
  | remove target => simp
  | unknown opcode body => simp

theorem map_filter_rows {α : Type} (rows : List EntryRow) (kind : String) (f : EntryRow → α) :
    (rows.filter (·.kind = kind)).map f =
      rows.filterMap fun row => if row.kind = kind then some (f row) else none := by
  rw [← List.filterMap_eq_map, List.filterMap_filter]
  exact List.filterMap_congr fun row _ => by simp

/-- A key to come, as the list of installations will have it. -/
def asInstallation (row : EntryRow) : Installation := ⟨row.index, row.value⟩

/-- The names staged, as the list of names will have them. -/
def renames (rows : List EntryRow) : List Name :=
  (rows.filter (·.kind = "displayName")).map fun row => ⟨row.index, row.value⟩

/-- The installations, where a plan is appended. -/
theorem liveInstallations_plan (hL : C.LogLaws) (hread : C.Readable entries)
    (htakes : Takes C entries staged) : liveInstallations C ⟨entries ++ plan staged⟩ =
      (((pendingRows C (plan staged) entries.length).filter (·.kind = "installation")).map
          asInstallation).reverse ++
        (liveInstallations C ⟨entries⟩).filter fun i => decide (.revoke i.index ∉ staged) := by
  unfold asInstallation
  rw [liveInstallations_eq, liveInstallations_eq, filterMap_entriesFor_plan hL hread htakes
      signerContext Installation.index index_of_installationOf,
    List.reverse_append, map_filter_rows, filterMap_pendingRows kind_installation,
    List.filter_reverse]

/-- The names, where a plan is appended. -/
theorem liveDisplayNames_plan (hL : C.LogLaws) (hread : C.Readable entries)
    (htakes : Takes C entries staged) : liveDisplayNames C ⟨entries ++ plan staged⟩ =
      (liveDisplayNames C ⟨entries⟩).filter (fun name => decide (.revoke name.index ∉ staged)) ++
        renames (pendingRows C (plan staged) entries.length) := by
  have heq : ∀ log, liveDisplayNames C log =
      (C.entriesFor log displayNameContext).filterMap nameOf := fun _ => rfl
  unfold renames
  rw [heq, heq, filterMap_entriesFor_plan hL hread htakes displayNameContext Name.index
      index_of_nameOf,
    map_filter_rows, filterMap_pendingRows kind_displayName]

/-! ### What is shown -/

variable {core : AccountCore Addr} {addr : Addr} {held : Option (StoredAccount Addr)}

/-- The names shown, newest first: the one in force, and those it took over from. -/
def namesOf (state : AccountState) : List Name :=
  (state.displayNameIndex.bind fun index => state.displayName.map (⟨index, ·⟩)).toList ++
    state.previousNames

theorem entriesFor_nil (hL : C.LogLaws) (context : Context) : C.entriesFor ⟨[]⟩ context = [] := by
  rw [hL.entriesFor_eq]
  rfl

theorem installations_stateOf (hL : C.LogLaws) : (stateOf C core addr held).installations =
    liveInstallations C ⟨heldEntries (core.record addr)⟩ := by
  show ((core.record addr).map (·.log)).elim [] (liveInstallations C) = _
  cases core.record addr with
  | none =>
    show [] = liveInstallations C ⟨[]⟩
    rw [liveInstallations_eq, entriesFor_nil hL]
    rfl
  | some record => rfl

theorem elim_liveDisplayNames (hL : C.LogLaws) (record : Option AccountRecord) :
    (record.map (·.log)).elim [] (liveDisplayNames C) =
      liveDisplayNames C ⟨heldEntries record⟩ := by
  cases record with
  | none =>
    show [] = liveDisplayNames C ⟨[]⟩
    unfold liveDisplayNames
    rw [entriesFor_nil hL]
    rfl
  | some record => rfl

theorem namesOf_stateOf (hL : C.LogLaws) : namesOf (stateOf C core addr held) =
    (liveDisplayNames C ⟨heldEntries (core.record addr)⟩).reverse := by
  unfold namesOf stateOf
  dsimp only
  rw [elim_liveDisplayNames hL]
  generalize liveDisplayNames C ⟨heldEntries (core.record addr)⟩ = names
  cases hlast : names.getLast? with
  | none =>
    rw [List.getLast?_eq_none_iff.mp hlast]
    rfl
  | some name =>
    rw [← List.dropLast_append_getLast? name hlast]
    simp

/-- The screens mark what the staged revocations point at. -/
theorem willBeRevoked_stateOf (hread : C.Readable (heldEntries (core.record addr))) (index : ℕ) :
    willBeRevoked (stateOf C core addr held) index =
      decide (.revoke index ∈ (core.staged addr).getD []) := by
  rw [Bool.eq_iff_iff, decide_eq_true_iff, willBeRevoked, List.contains_iff_mem, revoking,
    pending_stateOf hread held, mem_targets, AccountCore.plannedEntries, mem_plan]
  constructor
  · rintro ⟨edit, hedit, hentry⟩
    obtain rfl : edit = .revoke index := entryOf_injective hentry
    exact hedit
  · exact fun hedit => ⟨_, hedit, rfl⟩

/-- The row is of a revocation of the index. -/
def revokes (index : ℕ) (row : EntryRow) : Bool :=
  row.kind = "revocation" && row.target = some index

theorem revokes_rowFrom (index i : ℕ) (entry : AccountEntry) (live : Bool) :
    revokes index (rowFrom C i entry live) =
      decide ((rowFrom C i entry live).target = some index) := by
  unfold revokes rowFrom describe
  cases entry with
  | add context data => cases data <;> simp
  | remove target => simp
  | unknown opcode body => simp

/-- The row that revokes an index, or -1. -/
def revocation (index : ℕ) (rows : List EntryRow) : ℤ :=
  (rows.find? (revokes index)).elim (-1) fun row => row.index

theorem removedBy_eq (state : AccountState) (index : ℕ) :
    removedBy state index = revocation index state.entries := rfl

theorem revocation_map {f : EntryRow → EntryRow}
    (h : ∀ row, (f row).index = row.index ∧ (f row).kind = row.kind ∧ (f row).target = row.target)
    (index : ℕ) (rows : List EntryRow) : revocation index (rows.map f) = revocation index rows := by
  have hsame : revokes index ∘ f = revokes index := by
    funext row
    unfold revokes
    rw [Function.comp_apply, (h row).2.1, (h row).2.2]
  unfold revocation
  rw [List.find?_map, hsame]
  cases rows.find? (revokes index) with
  | none => rfl
  | some row =>
    show ((f row).index : ℤ) = row.index
    rw [(h row).1]

theorem revocation_append (index : ℕ) (rows more : List EntryRow) :
    revocation index (rows ++ more) =
      if revocation index rows = -1 then revocation index more else revocation index rows := by
  unfold revocation
  rw [List.find?_append]
  cases rows.find? (revokes index) with
  | none => rfl
  | some row =>
    show (row.index : ℤ) = if (row.index : ℤ) = -1 then _ else (row.index : ℤ)
    rw [if_neg (by omega)]

theorem willBeRevokedBy_stateOf (hread : C.Readable (heldEntries (core.record addr))) (index : ℕ) :
    willBeRevokedBy (stateOf C core addr held) index =
      revocation index (stateOf C core addr held).pending := by
  have hsame : ∀ row ∈ (stateOf C core addr held).pending,
      decide (row.target = some index) = revokes index row := by
    intro row hmem
    rw [pending_stateOf hread held, pendingRows_eq] at hmem
    obtain ⟨e, -, rfl⟩ := List.mem_map.mp hmem
    rw [revokes_rowFrom]
  unfold willBeRevokedBy revocation
  rw [← List.head?_filter, ← List.head?_filter, List.filter_congr hsame]

/-- What is staged to be revoked is not revoked yet. -/
theorem revocation_of_live (hread : C.Readable (heldEntries (core.record addr))) {index : ℕ}
    (hlive : isLive (heldEntries (core.record addr)) index = true) :
    revocation index (stateOf C core addr held).entries = -1 := by
  rw [← revocation_map (f := bare) (fun _ => ⟨rfl, rfl, rfl⟩), (entries_stateOf hread held).1,
    revocation_map (f := bare) fun _ => ⟨rfl, rfl, rfl⟩]
  unfold revocation
  rw [List.find?_eq_none.mpr]
  · rfl
  intro row hmem hrevokes
  obtain ⟨e, he, rfl⟩ := List.mem_map.mp hmem
  rw [revokes_rowFrom, decide_eq_true_iff] at hrevokes
  cases hentry : e.entry with
  | remove target =>
    rw [hentry] at hrevokes
    obtain rfl : target = index := Option.some.inj hrevokes
    refine (isLive_iff.mp hlive).2 ?_
    rw [← hentry]
    exact List.mem_of_getElem? (mem_indexed.mp he)
  | add context data =>
    rw [hentry] at hrevokes
    cases hrevokes
  | unknown opcode body =>
    rw [hentry] at hrevokes
    cases hrevokes

/-- The published name is the newest. -/
theorem publishedName_stateOf (hL : C.LogLaws) : publishedName (stateOf C core addr held) =
      ((namesOf (stateOf C core addr held)).head?.map (·.value)).getD "" ∧
    (stateOf C core addr held).displayNameIndex =
      (namesOf (stateOf C core addr held)).head?.map (·.index) := by
  rw [namesOf_stateOf hL, List.head?_reverse]
  unfold publishedName stateOf
  dsimp only
  rw [elim_liveDisplayNames hL]
  exact ⟨rfl, rfl⟩

/-- The staged name is the newest of those staged. -/
theorem stagedName_eq (state : AccountState) :
    stagedName state = ((renames state.pending).head?.map (·.value)).getD "" := by
  unfold stagedName renames
  rw [List.head?_map, List.head?_filter]
  cases state.pending.find? (·.kind = "displayName") <;> rfl

/-! ### What a publish does -/

theorem kinds_pendingRows (planned : List AccountEntry) (base : ℕ) :
    (pendingRows C planned base).map (·.kind) = planned.map fun entry => (describe entry).1 := by
  unfold pendingRows
  ext1 i
  rw [List.getElem?_map, List.getElem?_mapIdx, List.getElem?_map, Option.map_map]
  rfl

/-- One rename at most is staged, and so one is pending. -/
theorem length_renames (staged : List StagedEdit) (base : ℕ) :
    (renames (pendingRows C (plan staged) base)).length = (staged.filter isRename).length := by
  have hentry : (fun entry => decide ((describe entry).1 = "displayName")) ∘ entryOf =
      isRename := by
    funext edit
    cases edit with
    | addInstallation key => simp [entryOf, describe, isRename]
    | setDisplayName name => simp [entryOf, describe, isRename]
    | revoke index => simp [entryOf, describe, isRename]
  -- A plan only puts the staged edits in another order.
  calc (renames (pendingRows C (plan staged) base)).length
      = ((pendingRows C (plan staged) base).map (·.kind)).countP (· = "displayName") := by
        rw [renames, List.length_map, ← List.countP_eq_length_filter, List.countP_map]
        rfl
    _ = (plan staged).countP fun entry => (describe entry).1 = "displayName" := by
        rw [kinds_pendingRows, List.countP_map]
        rfl
    _ = (staged.filter isRename).length := by
        rw [plan, List.countP_append, List.countP_map, List.countP_map, hentry,
          ← List.countP_eq_countP_filter_add, List.countP_eq_length_filter]

/-- A name pending is a name staged. -/
theorem staged_of_mem_renames {staged : List StagedEdit} {base : ℕ} {name : Name}
    (hmem : name ∈ renames (pendingRows C (plan staged) base)) :
    .setDisplayName name.value ∈ staged := by
  obtain ⟨row, hrow, rfl⟩ := List.mem_map.mp hmem
  obtain ⟨hpending, hkind⟩ := List.mem_filter.mp hrow
  rw [pendingRows_eq] at hpending
  obtain ⟨e, hnumbered, rfl⟩ := List.mem_map.mp hpending
  obtain ⟨offset, hentry, -⟩ := mem_numbered hnumbered
  obtain ⟨edit, hstaged, heq⟩ := mem_plan.mp (List.mem_of_getElem? hentry)
  unfold rowFrom at hkind ⊢
  rw [← heq] at hkind ⊢
  cases edit with
  | setDisplayName name => exact hstaged
  | addInstallation key => simp [entryOf, describe] at hkind
  | revoke index => simp [entryOf, describe] at hkind

/-- What is read off the screen after a publish is what was told before it. -/
structure Foretold (before after : AccountState) : Prop where
  /-- What was to be removed is, by the entry named for it. -/
  removedBy : ∀ index, removedBy after index =
    if removedBy before index = -1 then willBeRevokedBy before index else removedBy before index
  /-- Nothing is removed twice. -/
  once : ∀ index, willBeRevoked before index = true → View.removedBy before index = -1
  /-- The keys to come were listed first, in the order they were staged in. -/
  installations : after.installations = ((arriving before).map asInstallation).reverse ++
    before.installations.filter fun installation => !willBeRevoked before installation.index
  names : namesOf after = (renames before.pending).reverse ++
    (namesOf before).filter fun name => !willBeRevoked before name.index
  /-- The name shown stays the one shown, unless it was to be removed and no other was staged. -/
  displayName : (renames before.pending = [] → ∀ index, before.displayNameIndex = some index →
    willBeRevoked before index = false) → displayName after = displayName before
  logBytes : after.logBytes = before.logBytes + pendingBytes before
  rest : after.pending = []

theorem pendingBytes_eq (state : AccountState) :
    pendingBytes state = (state.pending.map (·.bytes)).sum := by
  unfold pendingBytes
  rw [List.sum_eq_foldl, List.foldl_map]

/-- The name shown, of the names there are. -/
theorem displayName_of_names {before after : AccountState}
    (hbefore : publishedName before = ((namesOf before).head?.map (·.value)).getD "" ∧
      before.displayNameIndex = (namesOf before).head?.map (·.index))
    (hafter : publishedName after = ((namesOf after).head?.map (·.value)).getD "")
    (hrest : after.pending = [])
    (hnames : namesOf after = (renames before.pending).reverse ++
      (namesOf before).filter fun name => !willBeRevoked before name.index)
    (hnamed : ∀ name ∈ renames before.pending, name.value ≠ "")
    (hkept : renames before.pending = [] → ∀ index, before.displayNameIndex = some index →
      willBeRevoked before index = false)
    (hone : (renames before.pending).length ≤ 1) : displayName after = displayName before := by
  have hunstaged : stagedName after = "" := by
    rw [stagedName_eq, hrest]
    rfl
  unfold displayName
  rw [hunstaged, if_neg (by simp), hafter, hnames, stagedName_eq]
  rcases hstaged : renames before.pending with - | ⟨name, rest⟩
  -- No name is staged: the one in force stays at the head, since it is not told to leave.
  · rw [List.reverse_nil, List.nil_append, List.head?_nil, if_neg (by simp), hbefore.1]
    have hindex := hkept hstaged
    rw [hbefore.2] at hindex
    cases hnone : namesOf before with
    | nil => rfl
    | cons current previous =>
      rw [hnone] at hindex
      rw [List.filter_cons, hindex current.index rfl]
      rfl
  -- The one staged comes to the head.
  · rw [hstaged] at hone hnamed
    obtain rfl : rest = [] := by
      rw [List.length_cons] at hone
      exact List.length_eq_zero_iff.mp (by omega)
    have hvalue := hnamed name List.mem_cons_self
    simp [hvalue]

variable [DecidableEq Addr] {w w' : World Addr}

/-- In every run, where the store serves the log the app shows of an account, or neither has one,
what the screens tell of a publish before it is what they show once it answered. -/
theorem screens_foretell_publish (hV : C.VaultLaws) (hL : C.LogLaws) (hA : C.AccountLaws)
    (h : Reachable C w) (hupToDate : UpToDate C w addr) {published : Published}
    (hrun : (publish C addr).on w = (.ok published, w')) {before after : AccountState}
    {w₁ w₂ : World Addr} (hbefore : (state C addr).on w = (.ok before, w₁))
    (hafter : (state C addr).on w' = (.ok after, w₂)) : Foretold before after := by
  have hsound := h.sound hV hL hA
  have hread := hupToDate.readable hL
  have hwrote := hupToDate.publish hV hL hA hsound (h.written_eq hV hA) hrun
  obtain ⟨held, rfl⟩ := state_stateOf hbefore
  obtain ⟨held', rfl⟩ := state_stateOf hafter
  have hlands := hwrote.lands hL hA hsound hread held held'
  have htakes := hwrote.takes
  have hlog : heldEntries (w'.core.record addr) = heldEntries (w.core.record addr) ++
      plan ((w.core.staged addr).getD []) := hwrote.log
  have hpending : (stateOf C w.core addr held).pending =
      pendingRows C (plan ((w.core.staged addr).getD []))
        (heldEntries (w.core.record addr)).length := pending_stateOf hread held
  have hrevoked : ∀ index, (!willBeRevoked (stateOf C w.core addr held) index) =
      decide (.revoke index ∉ (w.core.staged addr).getD []) := fun index => by
    rw [willBeRevoked_stateOf hread, decide_not]
  have hnames : namesOf (stateOf C w'.core addr held') =
      (renames (stateOf C w.core addr held).pending).reverse ++
        (namesOf (stateOf C w.core addr held)).filter fun name =>
          !willBeRevoked (stateOf C w.core addr held) name.index := by
    rw [namesOf_stateOf hL, namesOf_stateOf hL, hlog, liveDisplayNames_plan hL hread htakes,
      List.reverse_append, hpending, List.filter_reverse]
    simp only [hrevoked]
  -- At most one name is staged, so which of them heads the list is no question.
  have hone : (renames (stateOf C w.core addr held).pending).length ≤ 1 := by
    rw [hpending, length_renames]
    exact (hsound.staged addr).oneRename
  have hnamed : ∀ name ∈ renames (stateOf C w.core addr held).pending, name.value ≠ "" := by
    intro name hmem
    rw [hpending] at hmem
    exact ((hsound.staged addr).name _ (staged_of_mem_renames hmem)).2
  refine {
    removedBy := fun index => ?_
    once := fun index hmem => ?_
    installations := ?_
    names := hnames
    displayName := fun hkept => displayName_of_names (publishedName_stateOf hL)
      (publishedName_stateOf hL).1 hlands.pending hnames hnamed hkept hone
    logBytes := ?_
    rest := hlands.pending }
  · rw [removedBy_eq, removedBy_eq, willBeRevokedBy_stateOf hread,
      ← revocation_map (f := bare) (fun _ => ⟨rfl, rfl, rfl⟩), hlands.entries, revocation_append,
      revocation_map (f := bare) fun _ => ⟨rfl, rfl, rfl⟩,
      revocation_map (f := bare) fun _ => ⟨rfl, rfl, rfl⟩,
      revocation_map (f := Manager.revoking _) fun _ => ⟨rfl, rfl, rfl⟩]
  · rw [willBeRevoked_stateOf hread, decide_eq_true_iff] at hmem
    rw [removedBy_eq]
    exact revocation_of_live hread (htakes.revoke index hmem)
  · rw [installations_stateOf hL, installations_stateOf hL, hlog,
      liveInstallations_plan hL hread htakes, arriving, hpending]
    simp only [hrevoked]
  · rw [pendingBytes_eq]
    exact hlands.logBytes

/-- A name is in force, its revocation is staged and a rename with it: the screens tell of the
revocation that will remove the one, and go on showing the other. -/
theorem screens_foretell_publish_renamed : ∃ published w' before after,
    (publish Crates.reference ⟨(Reference.someKey 1).bytes⟩).on renamedTwice = (.ok published, w') ∧
      View.removedBy before 0 = -1 ∧ willBeRevokedBy before 0 = 1 ∧
      (renames before.pending).map (·.index) = [2] ∧ Foretold before after := by
  have hfacts : ((publish Crates.reference ⟨(Reference.someKey 1).bytes⟩).on
        renamedTwice).1.toOption.isSome = true ∧
      ((state Crates.reference ⟨(Reference.someKey 1).bytes⟩).on
        renamedTwice).1.toOption.any (fun before => decide (View.removedBy before 0 = -1) &&
          (decide (willBeRevokedBy before 0 = 1) &&
            decide ((renames before.pending).map (·.index) = [2]))) = true ∧
      ((state Crates.reference ⟨(Reference.someKey 1).bytes⟩).on
        ((publish Crates.reference ⟨(Reference.someKey 1).bytes⟩).on
          renamedTwice).2).1.toOption.isSome = true := by
    decide +kernel
  have hupToDate := renamedTwice_upToDate
  have hreachable : Reachable Crates.reference renamedTwice := (Reachable.fresh rfl).runs _
  generalize renamedTwice = w at *
  obtain ⟨hpublished, hbefore, hafter⟩ := hfacts
  rcases hpublish : (publish Crates.reference ⟨(Reference.someKey 1).bytes⟩).on w with ⟨r, w'⟩
  rw [hpublish] at hpublished hafter
  rcases hshown : (state Crates.reference ⟨(Reference.someKey 1).bytes⟩).on w with ⟨b, w₁⟩
  rw [hshown] at hbefore
  rcases hshown' : (state Crates.reference ⟨(Reference.someKey 1).bytes⟩).on w' with ⟨a, w₂⟩
  rw [hshown'] at hafter
  rcases r with e | published
  · cases hpublished
  rcases b with e | before
  · cases hbefore
  rcases a with e | after
  · cases hafter
  have h := screens_foretell_publish Reference.vaultLaws Reference.logLaws Reference.accountLaws
    hreachable hupToDate hpublish hshown hshown'
  change (decide _ && (decide _ && decide _)) = true at hbefore
  rw [Bool.and_eq_true, Bool.and_eq_true, decide_eq_true_iff, decide_eq_true_iff,
    decide_eq_true_iff] at hbefore
  exact ⟨published, w', before, after, rfl, hbefore.1, hbefore.2.1, hbefore.2.2, h⟩

end AccountLogUi.View
