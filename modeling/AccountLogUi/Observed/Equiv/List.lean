import AccountLogUi.Observed.Equiv.Effect
import AccountLogUi.Vault.Equiv.Names

/-!
# Reading the observed list back

A list is read in address order, each address once (`ofText_ordered`), and a document this app wrote
reads back as the addresses it was written with (`ofText_documentOf`).  `Lists.change` says what is
listed after a change.
-/

namespace AccountLogUi.Observed

/-! ### Sorted, each once -/

section

variable {α β : Type} [LinearOrder β] [DecidableEq α] {f : α → β}

theorem mem_destutter'_ne {a b : α} {l : List α} :
    b ∈ l.destutter' (· ≠ ·) a ↔ b = a ∨ b ∈ l := by
  induction l generalizing a with
  | nil => simp
  | cons c l ih =>
    by_cases hne : a ≠ c
    · rw [List.destutter'_cons_pos _ hne, List.mem_cons, ih, List.mem_cons]
    · rw [List.destutter'_cons_neg _ hne, ih, List.mem_cons, not_not.mp hne]
      tauto

theorem mem_destutter_ne {b : α} {l : List α} : b ∈ l.destutter (· ≠ ·) ↔ b ∈ l := by
  cases l with
  | nil => simp
  | cons a l => rw [List.destutter_cons', mem_destutter'_ne, List.mem_cons]

/-- A sorted list with its repeats removed increases all the way. -/
theorem pairwise_destutter (hf : Function.Injective f) {l : List α}
    (h : l.Pairwise fun a b => f a ≤ f b) :
    (l.destutter (· ≠ ·)).Pairwise fun a b => f a < f b := by
  have hle : (l.destutter (· ≠ ·)).Pairwise fun a b => f a ≤ f b :=
    h.sublist (List.destutter_sublist _ _)
  have hchain : (l.destutter (· ≠ ·)).IsChain fun a b => f a < f b := by
    have hne : (l.destutter (· ≠ ·)).IsChain (· ≠ ·) := List.isChain_destutter _ _
    generalize l.destutter (· ≠ ·) = m at hle hne
    induction m with
    | nil => exact .nil
    | cons a m ih =>
      cases m with
      | nil => exact .singleton a
      | cons b m =>
        have hab : f a < f b :=
          lt_of_le_of_ne ((List.pairwise_cons.mp hle).1 b List.mem_cons_self)
            (hf.ne (List.isChain_cons_cons.mp hne).1)
        exact List.isChain_cons_cons.mpr
          ⟨hab, ih (List.pairwise_cons.mp hle).2 (List.isChain_cons_cons.mp hne).2⟩
  have htrans : IsTrans α fun a b => f a < f b := ⟨fun _ _ _ => lt_trans⟩
  exact List.isChain_iff_pairwise.mp hchain

end

variable {Addr : Type} {C : Crates Addr}

theorem pairwise_sorted (C : Crates Addr) (l : List Addr) :
    (l.insertionSort fun a b => C.addrText a ≤ C.addrText b).Pairwise
      fun a b => C.addrText a ≤ C.addrText b := by
  have htotal : Std.Total fun a b : Addr => C.addrText a ≤ C.addrText b :=
    ⟨fun a b => le_total (C.addrText a) (C.addrText b)⟩
  have htrans : IsTrans Addr fun a b => C.addrText a ≤ C.addrText b := ⟨fun _ _ _ => le_trans⟩
  exact List.pairwise_insertionSort _ _

/-! ### Documents -/

/-- Addresses as a document spells them parse back. -/
theorem mapM_parseAddr (hV : C.VaultLaws) (observed : List Addr) :
    ((observed.map (String.ofList ∘ C.addrText)).mapM fun address =>
      match C.parseAddr address.toList with
      | some addr => Except.ok addr
      | none => Except.error (ObservedError.corrupt (address ++ " is not an address"))) =
    .ok observed := by
  induction observed with
  | nil => rfl
  | cons addr observed ih =>
    have hparse : C.parseAddr (String.ofList (C.addrText addr)).toList = some addr := by
      rw [String.toList_ofList]
      exact hV.parseAddr_eq.mpr rfl
    rw [List.map_cons, List.mapM_cons, ih]
    simp only [Function.comp_apply, hparse]
    rfl

variable [DecidableEq Addr]

/-- A list that could be read is in address order, and names each account once. -/
theorem ofText_ordered (hV : C.VaultLaws) {text : Text} {observed : List Addr}
    (h : ofText C text = .ok observed) :
    observed.Pairwise fun a b => C.addrText a < C.addrText b := by
  simp only [ofText, bind, Except.bind, pure, Except.pure] at h
  split at h
  · cases h
  split at h
  · cases h
  split at h
  · cases h
  obtain rfl := Except.ok.inj h
  exact pairwise_destutter (Vault.addrText_injective hV) (pairwise_sorted C _)

/-- The members of a document's list of addresses, read as texts. -/
theorem mapM_deserializeString (texts : List (List Char)) :
    (texts.map fun text => Json.str (String.ofList text)).mapM Json.deserializeString =
      .ok (texts.map String.ofList) := by
  induction texts with
  | nil => rfl
  | cons text texts ih =>
    rw [List.map_cons, List.mapM_cons, ih]
    rfl

/-- A document this app wrote reads back as the addresses it was written with. -/
theorem ofText_documentOf (hV : C.VaultLaws) (observed : List Addr) :
    ∃ listed, ofText C (.json (documentOf C observed)) = .ok listed ∧
      ∀ addr, addr ∈ listed ↔ addr ∈ observed := by
  have hsorted : (observed.map C.addrText).insertionSort (· ≤ ·) =
      (observed.insertionSort fun a b => C.addrText a ≤ C.addrText b).map C.addrText :=
    (List.map_insertionSort _ _ C.addrText observed fun _ _ _ _ => Iff.rfl).symm
  have hdoc : Document.fromStr (.json (documentOf C observed)) =
      ((((observed.map C.addrText).insertionSort (· ≤ ·)).map fun address =>
        Json.str (String.ofList address)).mapM Json.deserializeString).bind
          fun addresses => .ok ⟨1, addresses⟩ := rfl
  rw [mapM_deserializeString, hsorted, List.map_map] at hdoc
  have hparsed := mapM_parseAddr hV
    (observed.insertionSort fun a b => C.addrText a ≤ C.addrText b)
  refine ⟨((observed.insertionSort fun a b => C.addrText a ≤ C.addrText b).insertionSort
    fun a b => C.addrText a ≤ C.addrText b).destutter (· ≠ ·), ?_, fun addr => ?_⟩
  · unfold ofText
    rw [hdoc]
    exact congrArg (fun addresses : Except ObservedError (List Addr) => addresses.bind fun l => .ok
      ((l.insertionSort fun a b => C.addrText a ≤ C.addrText b).destutter (· ≠ ·))) hparsed
  · rw [mem_destutter_ne, List.mem_insertionSort, List.mem_insertionSort]

/-! ### What is listed -/

variable {fs fs' : Fs} {observed observed' : List Addr}

theorem Lists.ordered (hV : C.VaultLaws) (h : Lists C fs observed) :
    observed.Pairwise fun a b => C.addrText a < C.addrText b := by
  rcases h with ⟨-, rfl⟩ | ⟨text, synced, -, h⟩
  · exact .nil
  · exact ofText_ordered hV h

theorem Lists.unique (h : Lists C fs observed) (h' : Lists C fs observed') :
    observed' = observed := by
  rcases h with ⟨hnone, rfl⟩ | ⟨text, synced, hnode, h⟩ <;>
    rcases h' with ⟨hnone', rfl⟩ | ⟨text', synced', hnode', h'⟩
  · rfl
  · rw [hnone] at hnode'
    cases hnode'
  · rw [hnode] at hnone'
    cases hnone'
  · rw [hnode] at hnode'
    cases hnode'
    rw [h] at h'
    exact (Except.ok.inj h').symm

theorem Lists.congr (h : Lists C fs observed)
    (hnode : fs'.node observedFile = fs.node observedFile) : Lists C fs' observed := by
  unfold Lists
  rw [hnode]
  exact h

/-- Where no call fails, the list is read. -/
theorem list_alone (h : Lists C fs observed) (pid : ℕ) :
    (list C).alone pid fs = (.ok observed, fs) := by
  rcases h with ⟨hnone, rfl⟩ | ⟨text, synced, hnode, h⟩
  · have hread : fs.perform pid (.readToString observedFile) = (.error .notFound, fs) := by
      simp [Fs.perform, hnone]
    show Prog.run _ (Prog.call _ _) fs = _
    rw [Prog.run_call, hread]
    rfl
  · have hread : fs.perform pid (.readToString observedFile) = (.ok text, fs) := by
      simp [Fs.perform, hnode]
    show Prog.run _ (Prog.call _ _) fs = _
    rw [Prog.run_call, hread, ← h]
    rfl

/-- A list this app wrote is read back as what was written. -/
theorem lists_written (hV : C.VaultLaws) {synced : Bool}
    (h : fs.node observedFile = some (.file ⟨contentOf C observed, synced⟩)) :
    ∃ listed, Lists C fs listed ∧ ∀ addr, addr ∈ listed ↔ addr ∈ observed := by
  obtain ⟨listed, htext, hmem⟩ := ofText_documentOf hV observed
  exact ⟨listed, .inr ⟨_, synced, h, htext⟩, hmem⟩

/-- Once a change answers, what is listed is what was listed, with the change made. -/
theorem lists_changed (hV : C.VaultLaws) {change : Change Addr} {disk : Disk} {b : Bool}
    (h : (disk.run (change.body C).run).1 = .ok b) : ∃ before after, Lists C disk.fs before ∧
      Lists C (disk.run (change.body C).run).2.fs after ∧ b = change.needed before ∧
      ∀ addr, addr ∈ after ↔ addr ∈ change.apply before := by
  obtain ⟨-, hres⟩ := change_run (C := C) change disk
  rw [h] at hres
  rcases b with - | -
  · obtain ⟨⟨before, hbefore, hneeded⟩, hnode⟩ := hres
    refine ⟨before, before, hbefore, hbefore.congr hnode, hneeded.symm, fun addr => ?_⟩
    cases change with
    | add addr' =>
      have hmem : addr' ∈ before := by simpa [Change.needed] using hneeded
      show addr ∈ before ↔ addr ∈ before ++ [addr']
      rw [List.mem_append, List.mem_singleton]
      exact ⟨.inl, fun h => h.elim id fun heq => heq ▸ hmem⟩
    | remove addr' =>
      have hmem : addr' ∉ before := by simpa [Change.needed] using hneeded
      show addr ∈ before ↔ addr ∈ before.filter (· ≠ addr')
      rw [List.mem_filter, decide_eq_true_iff]
      exact ⟨fun h => ⟨h, fun heq => hmem (heq ▸ h)⟩, And.left⟩
  · obtain ⟨before, hbefore, hneeded, hnode⟩ := hres
    obtain ⟨after, hafter, hmem⟩ := lists_written hV hnode
    exact ⟨before, after, hbefore, hafter, hneeded.symm, hmem⟩

end AccountLogUi.Observed
