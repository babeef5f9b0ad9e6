import AccountLogUi.Library.Increasing
import AccountLogUi.Manager.Equiv.Log
import AccountLogUi.Manager.Equiv.Showing
import AccountLogUi.Reference.Equiv.Laws

/-!
# What the screen shows of a log

`ShowsLog` says what is to be drawn of a log, from its entries alone: the name in force and the
ones before it, the installations, the rows, and the entries of other apps.  Each is read off the
log by a traversal of its own; `state_shows_log` says that `state` draws all of it.
-/

namespace AccountLogUi.Manager

variable {Addr : Type} {C : Crates Addr} {log : AccountLog} {entries : List AccountEntry}

/-! ### What is to be drawn -/

/-- The entry at an index is a live key that signs in chats, spelled so. -/
def SignerLive (entries : List AccountEntry) (index : ℕ) (key : String) : Prop :=
  ∃ bytes : Bytes32, entries[index]? = some (.add signerContext (.ed25519Key bytes)) ∧
    isLive entries index = true ∧ key = String.ofList (Hex.encode bytes.toList)

/-- What a row says of a context, if it has one, and of an entry it revokes, if it does. -/
def Says (row : EntryRow) (context : Option Context) (kind value : String)
    (target : Option ℕ) : Prop :=
  row.context = context ∧ row.kind = kind ∧ row.value = value ∧ row.target = target

/-- What a row is to say of its entry. -/
def Draws : AccountEntry → EntryRow → Prop
  | .add context (.ed25519Key key), row =>
    Says row (some context) (if context = signerContext then "installation" else "key")
      (String.ofList (Hex.encode key.toList)) none
  | .add context (.text value), row =>
    Says row (some context) (if context = displayNameContext then "displayName" else "text") value
      none
  | .add context (.other _ _), row => Says row (some context) "other" "" none
  | .remove index, row => Says row none "revocation" ("entry " ++ toString index) (some index)
  | .unknown opcode _, row =>
    Says row none "other" ("opcode 0x" ++ String.ofList (Hex.pair opcode)) none

/-- The row is the one of the log's entry at its index. -/
structure IsRow (C : Crates Addr) (entries : List AccountEntry) (row : EntryRow) : Prop where
  entry : ∃ entry, entries[row.index]? = some entry ∧ Draws entry row ∧
    row.bytes = entrySize C entry
  live : row.live = isLive entries row.index

/-- The entry at an index is a live one of a context this app edits. -/
def EditedLive (entries : List AccountEntry) (index : ℕ) : Prop :=
  isLive entries index = true ∧ ∃ context data, entries[index]? = some (.add context data) ∧
    (context = signerContext ∨ context = displayNameContext)

/-- The entry at an index is a live one of another app: what its context has before the first dot
is neither `profile` nor `chat`. -/
def OthersLive (entries : List AccountEntry) (index : ℕ) : Prop :=
  isLive entries index = true ∧ ∃ context data, entries[index]? = some (.add context data) ∧
    context.toList.takeWhile (· ≠ '.') ≠ "profile".toList ∧
    context.toList.takeWhile (· ≠ '.') ≠ "chat".toList

/-- What is drawn is the log. -/
structure ShowsLog (C : Crates Addr) (log : AccountLog) (shown : AccountState) : Prop where
  /-- The name in force is the highest-indexed live one. -/
  inForce : ∀ index value,
    shown.displayNameIndex = some index ∧ shown.displayName = some value ↔
      NameLive log.entries index value ∧ ∀ i v, NameLive log.entries i v → i ≤ index
  unnamed : shown.displayName = none ∧ shown.displayNameIndex = none ↔
    ∀ i v, ¬NameLive log.entries i v
  previous : ∀ name, name ∈ shown.previousNames ↔
    NameLive log.entries name.index name.value ∧ shown.displayNameIndex ≠ some name.index
  previous_order : shown.previousNames.Pairwise fun a b => b.index < a.index
  superseded : ∀ row ∈ shown.entries, row.supersededBy =
    if row.index ∈ shown.previousNames.map (·.index) then shown.displayNameIndex else none
  installations : ∀ installation, installation ∈ shown.installations ↔
    SignerLive log.entries installation.index installation.key
  installations_order : shown.installations.Pairwise fun a b => b.index < a.index
  readable : ∀ draft, C.fromLog log = .ok draft → shown.unreadable = none ∧
    shown.entries.length = log.entries.length ∧
    (∀ i row, shown.entries[i]? = some row → row.index = i ∧ IsRow C log.entries row ∧
      (row.live = true ↔ (∃ context data, log.entries[i]? = some (.add context data)) ∧
        AccountEntry.remove i ∉ log.entries))
  /-- The rows of other apps' entries, in the order of the log. -/
  others : ∀ row, row ∈ shown.otherEntries ↔
    row ∈ shown.entries ∧ OthersLive log.entries row.index
  others_order : Increasing (·.index) shown.otherEntries
  unreadable : ∀ e, C.fromLog log = .error e → shown.unreadable = some (C.errorText e) ∧
    Increasing (·.index) shown.entries ∧
    (∀ row ∈ shown.entries, IsRow C log.entries row) ∧
    ∀ index, (∃ row ∈ shown.entries, row.index = index) ↔ EditedLive log.entries index

/-! ### Names and installations -/

theorem mem_liveInstallations (hL : C.LogLaws) {installation : Installation} :
    installation ∈ liveInstallations C log ↔
      SignerLive log.entries installation.index installation.key := by
  obtain ⟨index, key⟩ := installation
  rw [liveInstallations, List.mem_filterMap]
  constructor
  · rintro ⟨⟨i, entry⟩, hmem, hkey⟩
    rw [List.mem_reverse, hL.entriesFor_eq, List.mem_filter, mem_indexed] at hmem
    obtain ⟨hentry, hselected⟩ := hmem
    obtain ⟨hlive, hcontext⟩ := Bool.and_eq_true_iff.mp hselected
    dsimp only at hentry hlive hcontext hkey
    split at hkey
    · next context bytes =>
      obtain ⟨rfl, rfl⟩ := Installation.mk.inj (Option.some.inj hkey)
      obtain rfl : context = signerContext := by simpa using hcontext
      exact ⟨bytes, hentry, hlive, rfl⟩
    · cases hkey
  · rintro ⟨bytes, hentry, hlive, rfl⟩
    refine ⟨⟨index, .add signerContext (.ed25519Key bytes)⟩, ?_, rfl⟩
    rw [List.mem_reverse, hL.entriesFor_eq, List.mem_filter, mem_indexed]
    exact ⟨hentry, by simpa using hlive⟩

theorem indexed_increasing (entries : List AccountEntry) :
    Increasing (·.index) (indexed entries) := by
  rw [Increasing, indexed, List.pairwise_iff_getElem]
  intro i j hi hj hij
  simpa using hij

theorem index_of_installation {e : IndexedEntry} {installation : Installation}
    (h : (match e.entry with
      | .add _ (.ed25519Key key) =>
        some (⟨e.index, String.ofList (Hex.encode key.toList)⟩ : Installation)
      | _ => none) = some installation) : installation.index = e.index := by
  split at h
  · rw [← Option.some.inj h]
  · cases h

theorem liveInstallations_order (hL : C.LogLaws) (log : AccountLog) :
    (liveInstallations C log).Pairwise fun a b => b.index < a.index := by
  rw [liveInstallations, hL.entriesFor_eq, List.pairwise_filterMap, List.pairwise_reverse]
  refine ((indexed_increasing log.entries).filter _).imp fun {a b} hab x hx y hy => ?_
  rw [index_of_installation hx, index_of_installation hy]
  exact hab

/-- The last of the names is in force, and those before it gave way to it. -/
theorem names_split (hL : C.LogLaws) {name : Name}
    (h : (liveDisplayNames C log).getLast? = some name) :
    (∀ other, other ∈ (liveDisplayNames C log).dropLast ↔
      NameLive log.entries other.index other.value ∧ other.index ≠ name.index) ∧
    ∀ i v, NameLive log.entries i v → i ≤ name.index := by
  have hsorted := liveDisplayNames_sorted hL log
  have hsplit := List.dropLast_append_getLast? name h
  generalize (liveDisplayNames C log).dropLast = before at hsplit
  have hmem : ∀ other, other ∈ before ++ [name] ↔ NameLive log.entries other.index other.value := by
    intro other
    rw [hsplit]
    exact mem_liveDisplayNames hL
  rw [← hsplit, List.pairwise_append] at hsorted
  have hlt : ∀ other ∈ before, other.index < name.index :=
    fun other hother => hsorted.2.2 other hother name List.mem_cons_self
  refine ⟨fun other => ?_, fun i v hlive => ?_⟩
  · rw [← hmem, List.mem_append, List.mem_singleton]
    constructor
    · exact fun hother => ⟨.inl hother, (hlt other hother).ne⟩
    · rintro ⟨hother | rfl, hne⟩
      · exact hother
      · exact absurd rfl hne
  · have hother := (hmem ⟨i, v⟩).mpr hlive
    rw [List.mem_append, List.mem_singleton] at hother
    rcases hother with hother | rfl
    · exact (hlt _ hother).le
    · exact le_rfl

theorem names_nil (hL : C.LogLaws) (h : (liveDisplayNames C log).getLast? = none) (i : ℕ)
    (v : String) : ¬NameLive log.entries i v := by
  intro hlive
  have hmem : (⟨i, v⟩ : Name) ∈ liveDisplayNames C log := (mem_liveDisplayNames hL).mpr hlive
  rw [List.getLast?_eq_none_iff.mp h] at hmem
  cases hmem

/-! ### Rows -/

theorem markSuperseded_map (name : Option Name) (previous : List Name) (rows : List EntryRow)
    (h : name = none → previous = []) : markSuperseded name previous rows =
      rows.map fun row => if row.index ∈ previous.map (·.index) then
        { row with supersededBy := name.map (·.index) } else row := by
  unfold markSuperseded
  cases name with
  | none =>
    rw [h rfl]
    simp
  | some name =>
    refine List.map_congr_left fun row _ => ?_
    have hany : previous.any (fun other => decide (other.index = row.index)) = true ↔
        row.index ∈ previous.map (·.index) := by
      rw [List.any_eq_true, List.mem_map]
      simp only [decide_eq_true_iff]
    by_cases hrow : row.index ∈ previous.map (·.index)
    · rw [if_pos hrow, if_pos (hany.mpr hrow)]
      rfl
    · rw [if_neg hrow, if_neg (fun hyes => hrow (hany.mp hyes))]

theorem rowFrom_isRow {index : ℕ} {entry : AccountEntry} (h : entries[index]? = some entry) :
    IsRow C entries (rowFrom C index entry (isLive entries index)) := by
  refine ⟨⟨entry, h, ?_, rfl⟩, rfl⟩
  rcases entry with ⟨context, key | value | ⟨tag, data⟩⟩ | target | ⟨opcode, body⟩ <;>
    exact ⟨rfl, rfl, rfl, rfl⟩

/-- A row is made of its entry, and marked later. -/
theorem IsRow.eq_rowFrom {row : EntryRow} (h : IsRow C entries row) :
    ∃ entry, entries[row.index]? = some entry ∧
      row = { rowFrom C row.index entry (isLive entries row.index) with
        supersededBy := row.supersededBy } := by
  obtain ⟨⟨entry, hentry, hdraws, hbytes⟩, hlive⟩ := h
  refine ⟨entry, hentry, ?_⟩
  obtain ⟨index, kind, context, value, live, target, bytes, supersededBy⟩ := row
  dsimp only at hlive hbytes
  subst hlive hbytes
  rcases entry with ⟨context', key | value' | ⟨tag, data⟩⟩ | target' | ⟨opcode, body⟩ <;>
  · obtain ⟨hcontext, hkind, hvalue, htarget⟩ := hdraws
    dsimp only at hcontext hkind hvalue htarget
    subst hcontext hkind hvalue htarget
    rfl

theorem IsRow.context_eq {row : EntryRow} (h : IsRow C entries row) {entry : AccountEntry}
    (hentry : entries[row.index]? = some entry) : row.context = match entry with
      | .add context _ => some context
      | _ => none := by
  obtain ⟨⟨entry', hentry', hdraws, -⟩, -⟩ := h
  rw [hentry'] at hentry
  obtain rfl := Option.some.inj hentry
  rcases entry' with ⟨context, key | value | ⟨tag, data⟩⟩ | target | ⟨opcode, body⟩ <;>
    exact hdraws.1

/-- The rows of a log that can be read, one for each entry. -/
theorem getElem?_rowsFromDraft (hL : C.LogLaws) (draft : AccountLogDraft) (i : ℕ) :
    (rowsFromDraft C draft)[i]? =
      draft.entries[i]?.map fun entry => rowFrom C i entry (isLive draft.entries i) := by
  have hlive : ((C.liveEntries draft).map (·.index)).contains i = isLive draft.entries i := by
    rw [Bool.eq_iff_iff, List.contains_iff_mem, List.mem_map, any_liveEntries hL]
  unfold rowsFromDraft indexed
  dsimp only
  rw [List.getElem?_map, List.getElem?_mapIdx]
  cases draft.entries[i]? with
  | none => rfl
  | some entry =>
    show some (rowFrom C i entry _) = _
    rw [hlive]
    rfl

/-- The live entries of the two contexts. -/
theorem mem_edited (hL : C.LogLaws) {e : IndexedEntry} :
    e ∈ [signerContext, displayNameContext].flatMap (C.entriesFor log) ↔
      log.entries[e.index]? = some e.entry ∧ EditedLive log.entries e.index := by
  have hfor : ∀ context, e ∈ C.entriesFor log context ↔ log.entries[e.index]? = some e.entry ∧
      isLive log.entries e.index = true ∧ ∃ data, e.entry = .add context data := by
    intro context
    rw [hL.entriesFor_eq, List.mem_filter, mem_indexed, Bool.and_eq_true_iff]
    refine and_congr_right fun _ => and_congr_right fun _ => ?_
    cases e.entry with
    | add context' data => simp
    | remove index => simp
    | unknown opcode body => simp
  rw [List.flatMap_cons, List.flatMap_cons, List.flatMap_nil, List.append_nil, List.mem_append,
    hfor, hfor]
  constructor
  · rintro (⟨hentry, hlive, data, hadd⟩ | ⟨hentry, hlive, data, hadd⟩)
    · exact ⟨hentry, hlive, signerContext, data, hadd ▸ hentry, .inl rfl⟩
    · exact ⟨hentry, hlive, displayNameContext, data, hadd ▸ hentry, .inr rfl⟩
  · rintro ⟨hentry, hlive, context, data, hadd, hcontext⟩
    have hsame : e.entry = .add context data := Option.some.inj (hentry.symm.trans hadd)
    rcases hcontext with rfl | rfl
    · exact .inl ⟨hentry, hlive, data, hsame⟩
    · exact .inr ⟨hentry, hlive, data, hsame⟩

theorem mem_rowsByContext (hL : C.LogLaws) {row : EntryRow} : row ∈ rowsByContext C log ↔
    EditedLive log.entries row.index ∧ ∃ entry, log.entries[row.index]? = some entry ∧
      row = rowFrom C row.index entry true := by
  unfold rowsByContext
  rw [List.mem_insertionSort, List.mem_map]
  constructor
  · rintro ⟨e, hmem, rfl⟩
    obtain ⟨hentry, hedited⟩ := (mem_edited hL).mp hmem
    exact ⟨hedited, e.entry, hentry, rfl⟩
  · rintro ⟨hedited, entry, hentry, hrow⟩
    exact ⟨⟨row.index, entry⟩, (mem_edited hL).mpr ⟨hentry, hedited⟩, hrow.symm⟩

/-- They come in index order, and none comes twice: the two contexts are two. -/
theorem rowsByContext_increasing (hL : C.LogLaws) (log : AccountLog) :
    Increasing (·.index) (rowsByContext C log) := by
  have hnd : ∀ context, ((C.entriesFor log context).map (·.index)).Nodup := by
    intro context
    rw [hL.entriesFor_eq]
    exact ((indexed_increasing log.entries).filter _).nodup_map
  have hcontext : ∀ {context} {e : IndexedEntry}, e ∈ C.entriesFor log context →
      log.entries[e.index]? = some e.entry ∧ ∃ data, e.entry = .add context data := by
    intro context e hmem
    rw [hL.entriesFor_eq, List.mem_filter, mem_indexed, Bool.and_eq_true_iff] at hmem
    refine ⟨hmem.1, ?_⟩
    have hselected := hmem.2.2
    cases hentry : e.entry with
    | add context' data =>
      rw [hentry] at hselected
      exact ⟨data, by rw [beq_iff_eq.mp hselected]⟩
    | remove index =>
      rw [hentry] at hselected
      cases hselected
    | unknown opcode body =>
      rw [hentry] at hselected
      cases hselected
  refine .of_sorted ?_ ?_
  · have htotal : Std.Total fun a b : EntryRow => a.index ≤ b.index :=
      ⟨fun a b => le_total a.index b.index⟩
    have htrans : IsTrans EntryRow fun a b => a.index ≤ b.index := ⟨fun _ _ _ => le_trans⟩
    exact List.pairwise_insertionSort _ _
  -- No entry is of both contexts.
  · refine ((List.perm_insertionSort _ _).map _).nodup_iff.mpr ?_
    rw [List.map_map, List.flatMap_cons, List.flatMap_cons, List.flatMap_nil, List.append_nil,
      List.map_append]
    refine List.Nodup.append (hnd signerContext) (hnd displayNameContext) ?_
    intro index hsigner hname
    obtain ⟨e, he, rfl⟩ := List.mem_map.mp hsigner
    obtain ⟨e', he', hindex⟩ := List.mem_map.mp hname
    obtain ⟨hentry, data, hadd⟩ := hcontext he
    obtain ⟨hentry', data', hadd'⟩ := hcontext he'
    have hindex' : e'.index = e.index := hindex
    rw [hindex', hentry, hadd, hadd'] at hentry'
    have hsame := (AccountEntry.add.inj (Option.some.inj hentry')).1
    exact absurd hsame (by decide)

theorem rows_unmarked (log : AccountLog) : ∀ row ∈ (logRows C (some log)).1,
    row.supersededBy = none := by
  unfold logRows
  intro row hmem
  split at hmem
  · cases hmem
  · next heq =>
    obtain rfl := Option.some.inj heq
    split at hmem
    · obtain ⟨e, -, rfl⟩ := List.mem_map.mp hmem
      rfl
    · obtain ⟨e, -, rfl⟩ := List.mem_map.mp ((List.mem_insertionSort _).mp hmem)
      rfl

/-- A row, with the name it gave way to. -/
def marked (name : Option Name) (previous : List Name) (row : EntryRow) : EntryRow :=
  if row.index ∈ previous.map (·.index) then
    { row with supersededBy := name.map (·.index) }
  else row

theorem marked_index (name : Option Name) (previous : List Name) (row : EntryRow) :
    (marked name previous row).index = row.index := by
  unfold marked
  split <;> rfl

theorem marked_isRow {name : Option Name} {previous : List Name} {row : EntryRow}
    (h : IsRow C entries row) : IsRow C entries (marked name previous row) := by
  obtain ⟨⟨entry, hentry, hdraws, hbytes⟩, hlive⟩ := h
  unfold marked
  split
  · refine ⟨⟨entry, hentry, ?_, hbytes⟩, hlive⟩
    rcases entry with ⟨context, key | value | ⟨tag, data⟩⟩ | target | ⟨opcode, body⟩ <;>
      exact hdraws
  · exact ⟨⟨entry, hentry, hdraws, hbytes⟩, hlive⟩

theorem marked_supersededBy {name : Option Name} {previous : List Name} {row : EntryRow}
    (h : row.supersededBy = none) : (marked name previous row).supersededBy =
      if row.index ∈ previous.map (·.index) then name.map (·.index) else none := by
  unfold marked
  split
  · rfl
  · exact h

/-- The namespaces this app writes are `profile` and `chat`. -/
theorem editedHere_eq (context : Context) : (!editedHere context) =
    (decide (namespaceOf context ≠ "profile".toList) &&
      decide (namespaceOf context ≠ "chat".toList)) := by
  have hname : namespaceOf displayNameContext = "profile".toList := by decide +kernel
  have hsigner : namespaceOf signerContext = "chat".toList := by decide +kernel
  unfold editedHere
  rw [List.any_cons, List.any_cons, List.any_nil, hname, hsigner, Bool.or_false, Bool.not_or]
  simp only [← decide_not, ne_eq, eq_comm]

/-- The rows kept are those of other apps' entries. -/
theorem IsRow.others_iff {row : EntryRow} (h : IsRow C entries row) :
    (row.live && row.context.any (!editedHere ·)) = true ↔ OthersLive entries row.index := by
  obtain ⟨entry, hentry, -, -⟩ := h.entry
  rw [Bool.and_eq_true_iff, h.live]
  refine and_congr_right fun hlive => ?_
  obtain ⟨⟨context, data, hadd⟩, -⟩ := isLive_iff.mp hlive
  rw [h.context_eq hadd, Option.any_some, editedHere_eq, Bool.and_eq_true_iff, decide_eq_true_iff,
    decide_eq_true_iff]
  constructor
  · rintro ⟨hprofile, hchat⟩
    exact ⟨context, data, hadd, hprofile, hchat⟩
  · rintro ⟨context', data', hadd', hprofile, hchat⟩
    obtain ⟨rfl, -⟩ := AccountEntry.add.inj (Option.some.inj (hadd.symm.trans hadd'))
    exact ⟨hprofile, hchat⟩

/-! ### Names -/

variable {log : AccountLog}

/-- The name in force is the last of the live ones, which is the highest-indexed. -/
theorem inForce_iff (hL : C.LogLaws) (index : ℕ) (value : String) :
    (liveDisplayNames C log).getLast?.map (·.index) = some index ∧
        (liveDisplayNames C log).getLast?.map (·.value) = some value ↔
      NameLive log.entries index value ∧ ∀ i v, NameLive log.entries i v → i ≤ index := by
  rcases hname : (liveDisplayNames C log).getLast? with - | name
  · constructor
    · rintro ⟨h, -⟩
      cases h
    · rintro ⟨hlive, -⟩
      exact absurd hlive (names_nil hL hname index value)
  · obtain ⟨-, hmax⟩ := names_split hL hname
    have hforce : NameLive log.entries name.index name.value :=
      (mem_liveDisplayNames hL).mp (List.mem_of_getLast? hname)
    constructor
    · rintro ⟨hi, hv⟩
      obtain rfl := Option.some.inj hi
      obtain rfl := Option.some.inj hv
      exact ⟨hforce, hmax⟩
    · rintro ⟨hlive, hhighest⟩
      -- Both are the highest, and an entry has one text.
      obtain rfl : index = name.index :=
        le_antisymm (hmax index value hlive) (hhighest name.index name.value hforce)
      have hsame := hlive.1.symm.trans hforce.1
      obtain rfl : value = name.value := by simpa using hsame
      exact ⟨rfl, rfl⟩

theorem unnamed_iff (hL : C.LogLaws) :
    (liveDisplayNames C log).getLast? = none ↔ ∀ i v, ¬NameLive log.entries i v := by
  constructor
  · intro hnone
    exact names_nil hL hnone
  · intro h
    rcases hname : (liveDisplayNames C log).getLast? with - | name
    · rfl
    · exact absurd ((mem_liveDisplayNames hL).mp (List.mem_of_getLast? hname)) (h _ _)

/-- The names before it gave way to it. -/
theorem mem_previous_iff (hL : C.LogLaws) {other : Name} :
    other ∈ (liveDisplayNames C log).dropLast.reverse ↔
      NameLive log.entries other.index other.value ∧
        (liveDisplayNames C log).getLast?.map (·.index) ≠ some other.index := by
  rw [List.mem_reverse]
  rcases hname : (liveDisplayNames C log).getLast? with - | name
  · rw [List.getLast?_eq_none_iff.mp hname]
    constructor
    · intro h
      cases h
    · rintro ⟨hlive, -⟩
      exact absurd hlive (names_nil hL hname _ _)
  · obtain ⟨hbefore, -⟩ := names_split hL hname
    rw [hbefore, Option.map_some]
    refine and_congr_right fun _ => not_congr ?_
    rw [Option.some.injEq]
    exact eq_comm

/-! ### The screen -/

variable {core : AccountCore Addr} {addr : Addr} {record : AccountRecord} {draft : AccountLogDraft}

/-- Every row drawn is that of an entry. -/
theorem isRow_of_mem_logRows (hL : C.LogLaws) {row : EntryRow}
    (hmem : row ∈ (logRows C (some log)).1) : IsRow C log.entries row := by
  cases hread : C.fromLog log with
  | ok draft =>
    rw [logRows_of_ok hread] at hmem
    obtain ⟨i, hi⟩ := List.mem_iff_getElem?.mp hmem
    rw [getElem?_rowsFromDraft hL, hL.fromLog_entries hread, Option.map_eq_some_iff] at hi
    obtain ⟨entry, hentry, rfl⟩ := hi
    exact rowFrom_isRow hentry
  | error e =>
    rw [logRows_of_error hread] at hmem
    obtain ⟨⟨hlive, -⟩, entry, hentry, hrow⟩ := (mem_rowsByContext hL).mp hmem
    rw [hrow, ← hlive]
    exact rowFrom_isRow hentry

theorem logRows_increasing (hL : C.LogLaws) (log : AccountLog) :
    Increasing (·.index) (logRows C (some log)).1 := by
  cases hread : C.fromLog log with
  | ok draft =>
    rw [logRows_of_ok hread]
    unfold rowsFromDraft Increasing
    rw [List.pairwise_map]
    exact indexed_increasing draft.entries
  | error e =>
    rw [logRows_of_error hread]
    exact rowsByContext_increasing hL log

/-- A screen of a log, field by field as it is computed: each row as the log has it, and marked
where its name gave way to the one in force. -/
structure Renders (C : Crates Addr) (log : AccountLog) (shown : AccountState) : Prop where
  displayName : shown.displayName = (liveDisplayNames C log).getLast?.map (·.value)
  displayNameIndex : shown.displayNameIndex = (liveDisplayNames C log).getLast?.map (·.index)
  previousNames : shown.previousNames = (liveDisplayNames C log).dropLast.reverse
  installations : shown.installations = liveInstallations C log
  entries : shown.entries = (logRows C (some log)).1.map
    (marked (liveDisplayNames C log).getLast? (liveDisplayNames C log).dropLast.reverse)
  otherEntries : shown.otherEntries = shown.entries.filter
    fun row => row.live && row.context.any (!editedHere ·)
  unreadable : shown.unreadable = (logRows C (some log)).2

theorem stateOf_renders (hrecord : core.record addr = some record)
    (held : Option (StoredAccount Addr)) :
    Renders C record.log (stateOf C core addr held) := by
  have hnone : (liveDisplayNames C record.log).getLast? = none →
      (liveDisplayNames C record.log).dropLast.reverse = [] := by
    intro h
    rw [List.getLast?_eq_none_iff.mp h]
    rfl
  unfold stateOf
  rw [hrecord]
  exact ⟨rfl, rfl, rfl, rfl, markSuperseded_map _ _ _ hnone, rfl, rfl⟩

namespace Renders

variable {shown : AccountState}

theorem isRow (hL : C.LogLaws) (h : Renders C log shown) :
    ∀ row ∈ shown.entries, IsRow C log.entries row := by
  intro row hmem
  rw [h.entries] at hmem
  obtain ⟨r, hr, rfl⟩ := List.mem_map.mp hmem
  exact marked_isRow (isRow_of_mem_logRows hL hr)

theorem increasing (hL : C.LogLaws) (h : Renders C log shown) :
    Increasing (·.index) shown.entries := by
  rw [h.entries, Increasing, List.pairwise_map]
  simp only [marked_index]
  exact logRows_increasing hL log

theorem superseded (h : Renders C log shown) :
    ∀ row ∈ shown.entries, row.supersededBy =
      if row.index ∈ shown.previousNames.map (·.index) then shown.displayNameIndex else none := by
  intro row hmem
  rw [h.entries] at hmem
  obtain ⟨r, hr, rfl⟩ := List.mem_map.mp hmem
  rw [marked_supersededBy (rows_unmarked _ r hr), marked_index, h.previousNames,
    h.displayNameIndex]

/-- A log this build can read is drawn whole, the row of each entry in its place. -/
theorem readable (hL : C.LogLaws) (h : Renders C log shown)
    (hdraft : C.fromLog log = .ok draft) :
    shown.unreadable = none ∧ shown.entries.length = log.entries.length ∧
      ∀ i row, shown.entries[i]? = some row → row.index = i ∧ IsRow C log.entries row ∧
        (row.live = true ↔ (∃ context data, log.entries[i]? = some (.add context data)) ∧
          AccountEntry.remove i ∉ log.entries) := by
  have hlog := hL.fromLog_entries hdraft
  have hentries := h.entries
  have hunreadable := h.unreadable
  rw [logRows_of_ok hdraft] at hentries hunreadable
  refine ⟨hunreadable, ?_, fun i row hrow => ?_⟩
  · rw [hentries, List.length_map, ← hlog]
    unfold rowsFromDraft indexed
    rw [List.length_map, List.length_mapIdx]
  · have hisRow := h.isRow hL row (List.mem_of_getElem? hrow)
    rw [hentries, List.getElem?_map, getElem?_rowsFromDraft hL, Option.map_map,
      Option.map_eq_some_iff] at hrow
    obtain ⟨entry, -, rfl⟩ := hrow
    refine ⟨marked_index _ _ _, hisRow, ?_⟩
    rw [hisRow.live, ← isLive_iff]
    exact Iff.of_eq (congrArg (isLive log.entries · = true) (marked_index _ _ _))

/-- Of a log it cannot read, the live rows of the two contexts it edits. -/
theorem unread (hL : C.LogLaws) (h : Renders C log shown) {e : AccountLogError}
    (herror : C.fromLog log = .error e) :
    shown.unreadable = some (C.errorText e) ∧
      ∀ index, (∃ row ∈ shown.entries, row.index = index) ↔ EditedLive log.entries index := by
  have hentries := h.entries
  have hunreadable := h.unreadable
  rw [logRows_of_error herror] at hentries hunreadable
  refine ⟨hunreadable, fun index => ⟨?_, fun hedited => ?_⟩⟩
  · rintro ⟨row, hmem, rfl⟩
    rw [hentries] at hmem
    obtain ⟨r, hr, rfl⟩ := List.mem_map.mp hmem
    rw [marked_index]
    exact ((mem_rowsByContext hL).mp hr).1
  · obtain ⟨-, context, data, hentry, -⟩ := id hedited
    have hrow : rowFrom C index (.add context data) true ∈ rowsByContext C log :=
      (mem_rowsByContext hL).mpr ⟨hedited, _, hentry, rfl⟩
    exact ⟨_, hentries ▸ List.mem_map_of_mem hrow, marked_index _ _ _⟩

end Renders

/-- What is drawn of an account whose log is held. -/
theorem stateOf_shows (hL : C.LogLaws) (hrecord : core.record addr = some record)
    (held : Option (StoredAccount Addr)) : ShowsLog C record.log (stateOf C core addr held) := by
  have h := stateOf_renders (C := C) hrecord held
  refine {
    inForce := ?_
    unnamed := ?_
    previous := ?_
    previous_order := ?_
    superseded := h.superseded
    installations := ?_
    installations_order := ?_
    readable := fun draft hdraft => h.readable hL hdraft
    others := ?_
    others_order := ?_
    unreadable := fun e herror => ?_ }
  · rw [h.displayName, h.displayNameIndex]
    exact inForce_iff hL
  · rw [h.displayName, h.displayNameIndex, Option.map_eq_none_iff, Option.map_eq_none_iff,
      and_self]
    exact unnamed_iff hL
  · rw [h.previousNames, h.displayNameIndex]
    exact fun _ => mem_previous_iff hL
  · rw [h.previousNames, List.pairwise_reverse]
    exact (liveDisplayNames_sorted hL record.log).sublist (List.dropLast_sublist _)
  · rw [h.installations]
    exact fun _ => mem_liveInstallations hL
  · rw [h.installations]
    exact liveInstallations_order hL record.log
  · intro row
    rw [h.otherEntries, List.mem_filter]
    exact and_congr_right fun hmem => (h.isRow hL row hmem).others_iff
  · rw [h.otherEntries]
    exact (h.increasing hL).filter _
  · obtain ⟨hunreadable, hlive⟩ := h.unread hL herror
    exact ⟨hunreadable, h.increasing hL, h.isRow hL, hlive⟩

variable [DecidableEq Addr] {w w' : World Addr}

/-- `state` draws the account from what the core holds. -/
theorem state_stateOf {shown : AccountState} (h : (state C addr).on w = (.ok shown, w')) :
    ∃ held, shown = stateOf C w.core addr held := by
  unfold state at h
  obtain ⟨held, w₁, hheld, h⟩ := Action.on_bind_ok.mp h
  obtain ⟨known, w₂, hknown, h⟩ := Action.on_bind_ok.mp h
  obtain ⟨u, w₃, hrefuse, h⟩ := Action.on_bind_ok.mp h
  obtain ⟨-, hw₃⟩ := Action.on_refuse_ok.mp hrefuse
  have hlooked := vault_looked Vault.accounts_readOnly hheld
  rw [Action.on_look_bind, hw₃] at h
  obtain ⟨hshown, -⟩ := Prod.mk.inj h
  have hcore : w₂.core = w.core := by
    split at hknown
    · obtain ⟨-, rfl⟩ := Prod.mk.inj hknown
      exact hlooked.core
    · exact (observes_looked hknown).core.trans hlooked.core
  rw [hcore] at hshown
  exact ⟨_, (Except.ok.inj hshown).symm⟩

/-- What `state` shows of a log held as an account's record is the log: complete, and each part of
it in step with the others. -/
theorem state_shows_log (hL : C.LogLaws) {shown : AccountState}
    (h : (state C addr).on w = (.ok shown, w')) (hrecord : w.core.record addr = some record) :
    ShowsLog C record.log shown := by
  obtain ⟨held, rfl⟩ := state_stateOf h
  exact stateOf_shows hL hrecord held

/-- An account renamed, with both names published. -/
def renamedOnScreen : World Reference.Addr :=
  CoreOp.runs Crates.reference [.createAccount (Reference.someKey 1) none 0,
    .stageSetDisplayName ⟨(Reference.someKey 1).bytes⟩ "Saro",
    .publish ⟨(Reference.someKey 1).bytes⟩,
    .stageSetDisplayName ⟨(Reference.someKey 1).bytes⟩ "Raya",
    .publish ⟨(Reference.someKey 1).bytes⟩] (World.start [])

theorem state_shows_log_renamed : ∃ shown record,
    ((state Crates.reference ⟨(Reference.someKey 1).bytes⟩).on renamedOnScreen).1 = .ok shown ∧
      renamedOnScreen.core.record ⟨(Reference.someKey 1).bytes⟩ = some record ∧
      shown.displayName = some "Raya" ∧ shown.previousNames = [⟨0, "Saro"⟩] ∧
      ShowsLog Crates.reference record.log shown := by
  generalize hrun : (state Crates.reference ⟨(Reference.someKey 1).bytes⟩).on renamedOnScreen = ran
  have hname : ran.1.toOption.bind (·.displayName) = some "Raya" := by
    rw [← hrun]
    decide +kernel
  have hprevious : ran.1.toOption.map (·.previousNames) = some [⟨0, "Saro"⟩] := by
    rw [← hrun]
    decide +kernel
  have hsome : (renamedOnScreen.core.record ⟨(Reference.someKey 1).bytes⟩).isSome = true := by
    decide +kernel
  obtain ⟨record, hrecord⟩ := Option.isSome_iff_exists.mp hsome
  obtain ⟨e | shown, w'⟩ := ran
  · cases hname
  · exact ⟨shown, record, rfl, hrecord, hname, Option.some.inj hprevious,
      state_shows_log Reference.logLaws hrun hrecord⟩

end AccountLogUi.Manager
