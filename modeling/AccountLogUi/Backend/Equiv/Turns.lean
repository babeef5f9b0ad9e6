import AccountLogUi.Backend.Host

/-!
# What a slot or a handler does

A turn of the view's thread starts some calls (`Starts`) and leaves the screen as it was
(`SameView`), or puts an account on it and asks for that account's log (`Shows`).  `slot_turn` and
`land_turn` say which; only a listing that lands (`accountsLanded_cases`) and a state that does
change what is drawn.
-/

namespace AccountLogUi

namespace Backend

variable {b b' b'' : Backend}

/-! ### The calls started -/

/-- The calls started go to the pool's end. -/
structure Starts (b b' : Backend) (tasks : List Task) : Prop where
  pool : b'.pool = b.pool ++ tasks
  inFlight : b'.inFlight = b.inFlight + tasks.length
  busy : b'.busy = true ∨ tasks = [] ∧ b'.busy = b.busy
  coreOpen : b'.coreOpen = b.coreOpen

theorem Starts.trans {tasks tasks' : List Task} (h : Starts b b' tasks)
    (h' : Starts b' b'' tasks') :
    Starts b b'' (tasks ++ tasks') where
  pool := by rw [h'.pool, h.pool, List.append_assoc]
  inFlight := by rw [h'.inFlight, h.inFlight, List.length_append, Nat.add_assoc]
  busy := by
    rcases h'.busy with hbusy | ⟨rfl, hbusy⟩
    · exact .inl hbusy
    · rcases h.busy with hbusy' | ⟨rfl, hbusy'⟩
      · exact .inl (hbusy.trans hbusy')
      · exact .inr ⟨rfl, hbusy.trans hbusy'⟩
  coreOpen := h'.coreOpen.trans h.coreOpen

/-- Nothing is started by what leaves the pool and the count alone. -/
theorem Starts.none (hpool : b'.pool = b.pool) (hinFlight : b'.inFlight = b.inFlight)
    (hbusy : b'.busy = b.busy) (hopen : b'.coreOpen = b.coreOpen) : Starts b b' [] :=
  ⟨by rw [hpool, List.append_nil], hinFlight, .inr ⟨rfl, hbusy⟩, hopen⟩

/-- What is on the screen, but for the log, the banner and the status. -/
structure SamePlace (b b' : Backend) : Prop where
  selectedAddress : b'.selectedAddress = b.selectedAddress
  selection : b'.selection = b.selection
  accountsJson : b'.accountsJson = b.accountsJson
  contextReady : b'.contextReady = b.contextReady

/-- The screen, but for the banner and the status. -/
structure SameView (b b' : Backend) : Prop extends SamePlace b b' where
  stateJson : b'.stateJson = b.stateJson

theorem SameView.refl (b : Backend) : SameView b b := ⟨⟨rfl, rfl, rfl, rfl⟩, rfl⟩

theorem SamePlace.trans (h : SamePlace b b') (h' : SamePlace b' b'') : SamePlace b b'' :=
  ⟨h'.selectedAddress.trans h.selectedAddress, h'.selection.trans h.selection,
    h'.accountsJson.trans h.accountsJson, h'.contextReady.trans h.contextReady⟩

theorem SameView.trans (h : SameView b b') (h' : SameView b' b'') : SameView b b'' :=
  ⟨h.toSamePlace.trans h'.toSamePlace, h'.stateJson.trans h.stateJson⟩

/-- The read asked for by `refresh`, or the listing where no account is on screen. -/
def refreshTask (b : Backend) : Task :=
  if b.selectedAddress = "" then .accounts else .refresh b.selectedAddress b.selection

/-- The state asked for by `reloadState`. -/
def stateTasks (address : String) : List Task := if address = "" then [] else [.state address]

theorem SamePlace.refreshTask_eq (h : SamePlace b b') : b'.refreshTask = b.refreshTask := by
  unfold refreshTask
  rw [h.selectedAddress, h.selection]

/-- The log of the account put on screen is asked for, whatever else is started. -/
structure Shows (b b' : Backend) (tasks : List Task) : Prop where
  accountsJson : b'.accountsJson = b.accountsJson
  asks : b'.refreshTask ∈ tasks

/-! ### The parts of handlers -/

theorem call_eq (hopen : b.coreOpen = true) (task : Task) : b.call task =
    { b with inFlight := b.inFlight + 1, busy := true, pool := b.pool ++ [task] } := by
  unfold call
  rw [if_neg (by rw [hopen]; simp)]

theorem call_starts (hopen : b.coreOpen = true) (task : Task) : Starts b (b.call task) [task] := by
  rw [call_eq hopen]
  exact ⟨rfl, rfl, .inl rfl, rfl⟩

theorem call_view (hopen : b.coreOpen = true) (task : Task) : SameView b (b.call task) := by
  rw [call_eq hopen]
  exact ⟨⟨rfl, rfl, rfl, rfl⟩, rfl⟩

theorem reloadAccounts_starts (hopen : b.coreOpen = true) :
    Starts b b.reloadAccounts [.accounts] := call_starts hopen .accounts

theorem reloadAccounts_view (hopen : b.coreOpen = true) : SameView b b.reloadAccounts :=
  call_view hopen .accounts

theorem refresh_eq : b.refresh =
    if b.selectedAddress = "" then b.reloadAccounts
    else { b with statusText := "Reading the store" }.call b.refreshTask := by
  unfold refresh refreshTask
  split
  · rfl
  · rfl

theorem refresh_starts (hopen : b.coreOpen = true) : Starts b b.refresh [b.refreshTask] := by
  rw [refresh_eq]
  split
  · next hnone =>
    unfold refreshTask
    rw [if_pos hnone]
    exact reloadAccounts_starts hopen
  · have hcall := call_starts
      (b := { b with statusText := "Reading the store" }) hopen b.refreshTask
    exact ⟨hcall.pool, hcall.inFlight, hcall.busy, hcall.coreOpen⟩

theorem refresh_view (hopen : b.coreOpen = true) : SameView b b.refresh := by
  rw [refresh_eq]
  split
  · exact reloadAccounts_view hopen
  · have hcall := call_view (b := { b with statusText := "Reading the store" }) hopen b.refreshTask
    exact ⟨⟨hcall.selectedAddress, hcall.selection, hcall.accountsJson, hcall.contextReady⟩,
      hcall.stateJson⟩

theorem reloadState_starts (hopen : b.coreOpen = true) :
    Starts b b.reloadState (stateTasks b.selectedAddress) := by
  unfold reloadState stateTasks
  split
  · exact .none rfl rfl rfl rfl
  · exact call_starts hopen _

theorem reloadState_place (hopen : b.coreOpen = true) : SamePlace b b.reloadState := by
  unfold reloadState
  split
  · exact ⟨rfl, rfl, rfl, rfl⟩
  · exact (call_view hopen _).toSamePlace

/-- Where an account is on screen its log stays until it is read, and otherwise there is none. -/
theorem reloadState_stateJson (hopen : b.coreOpen = true) : b.reloadState.stateJson =
    if b.selectedAddress = "" then none else b.stateJson := by
  unfold reloadState
  split
  · rfl
  · exact (call_view hopen _).stateJson

theorem setNotice_view (kind title body : String) : SameView b (b.setNotice kind title body) :=
  ⟨⟨rfl, rfl, rfl, rfl⟩, rfl⟩

theorem setNotice_starts (kind title body : String) :
    Starts b (b.setNotice kind title body) [] := .none rfl rfl rfl rfl

theorem report_view (what message : String) : SameView b (b.report what message) := by
  unfold report emit
  dsimp only
  split_ifs <;> exact ⟨⟨rfl, rfl, rfl, rfl⟩, rfl⟩

theorem report_starts (what message : String) : Starts b (b.report what message) [] := by
  unfold report emit
  dsimp only
  split_ifs <;> exact .none rfl rfl rfl rfl

theorem keepDropped_view (address : String) (count : ℕ) :
    SameView b (b.keepDropped address count) := by
  unfold keepDropped
  split <;> exact ⟨⟨rfl, rfl, rfl, rfl⟩, rfl⟩

theorem keepDropped_starts (address : String) (count : ℕ) :
    Starts b (b.keepDropped address count) [] := by
  unfold keepDropped
  split <;> exact .none rfl rfl rfl rfl

/-- Another account is put on screen. -/
structure Selected (address : String) (b b' : Backend) : Prop where
  selectedAddress : b'.selectedAddress = address
  selection : b'.selection = b.selection + 1
  accountsJson : b'.accountsJson = b.accountsJson
  stateJson : b'.stateJson = b.stateJson
  contextReady : b'.contextReady = b.contextReady
  starts : Starts b b' []

theorem setSelection_selected (address : String) : Selected address b (b.setSelection address) := by
  unfold setSelection dismissNotice
  dsimp only
  split <;> exact ⟨rfl, rfl, rfl, rfl, rfl, .none rfl rfl rfl rfl⟩

/-! ### Turns -/

/-- What a turn that brings no listing and no state does to the screen. -/
inductive Turned (b b' : Backend) (tasks : List Task) : Prop
  | stays (h : SameView b b') (htasks : ∀ address, .state address ∉ tasks)
  | shows (h : Shows b b' tasks) (htasks : ∀ address, .state address ∈ tasks → address ≠ "")
  /-- The host has handed over, with no account on screen. -/
  | ready (h : SameView { b with contextReady := true } b') (hnone : b.selectedAddress = "")
      (htasks : tasks = [])

theorem refreshTask_ne_state (b : Backend) (address : String) : b.refreshTask ≠ .state address := by
  unfold refreshTask
  split <;> simp

theorem mem_stateTasks {address address' : String} (h : .state address' ∈ stateTasks address) :
    address' = address ∧ address ≠ "" := by
  unfold stateTasks at h
  split at h
  · cases h
  · next hne =>
    rw [List.mem_singleton] at h
    exact ⟨Task.state.inj h, hne⟩

/-- One call, of another thing than a state. -/
theorem Turned.calls {task : Task} (hview : SameView b b')
    (htask : ∀ address, .state address ≠ task) : Turned b b' [task] := by
  refine .stays hview fun address hmem => htask address ?_
  exact List.mem_singleton.mp hmem

theorem call_turned (hopen : b.coreOpen = true) {task : Task}
    (htask : ∀ address, .state address ≠ task) : Turned b (b.call task) [task] :=
  .calls (call_view hopen task) htask

theorem refresh_turned (hopen : b.coreOpen = true) : Turned b b.refresh [b.refreshTask] :=
  .calls (refresh_view hopen) fun address => (refreshTask_ne_state b address).symm

/-- What was selected, its state and its log read again. -/
theorem Selected.shown {address : String} (h : Selected address b b') (hopen : b.coreOpen = true) :
    Starts b b'.reloadState.refresh (stateTasks address ++ [b'.refreshTask]) ∧
      SamePlace b' b'.reloadState.refresh := by
  have hopen' : b'.coreOpen = true := h.starts.coreOpen.trans hopen
  have hstate := reloadState_starts hopen'
  have hopen'' : b'.reloadState.coreOpen = true := hstate.coreOpen.trans hopen'
  have hplace := reloadState_place hopen'
  have hrefresh := refresh_starts hopen''
  rw [hplace.refreshTask_eq] at hrefresh
  rw [h.selectedAddress] at hstate
  exact ⟨(h.starts.trans hstate).trans hrefresh, hplace.trans (refresh_view hopen'').toSamePlace⟩

theorem selectAccount_turned (hopen : b.coreOpen = true) (address : String) :
    ∃ tasks, Starts b (b.selectAccount address) tasks ∧
      Turned b (b.selectAccount address) tasks := by
  unfold selectAccount
  split
  · exact ⟨[], .none rfl rfl rfl rfl, .stays (.refl b) fun _ h => by cases h⟩
  have hselected := setSelection_selected (b := b) address
  obtain ⟨hstarts, hplace⟩ := hselected.shown hopen
  refine ⟨_, hstarts, .shows ⟨hplace.accountsJson.trans hselected.accountsJson, ?_⟩ ?_⟩
  · rw [hplace.refreshTask_eq]
    simp
  · intro address' hmem
    rcases List.mem_append.mp hmem with hstate | hread
    · obtain ⟨rfl, hne⟩ := mem_stateTasks hstate
      exact hne
    · exact absurd (List.mem_singleton.mp hread).symm (refreshTask_ne_state _ _)

/-- An account taken in is listed, and put on screen. -/
theorem showTaken_turned (hopen : b.coreOpen = true) (address : String) (already : Bool)
    (title body : String) : ∃ tasks, Starts b (b.showTaken address already title body) tasks ∧
      Turned b (b.showTaken address already title body) tasks ∧ .accounts ∈ tasks := by
  unfold showTaken
  dsimp only
  have hselected := setSelection_selected (b := b) address
  generalize hb : (if already then (b.setSelection address).setNotice "info" title body
    else b.setSelection address) = b₁
  have hsame : SameView (b.setSelection address) b₁ := by
    subst hb
    split
    · exact setNotice_view ..
    · exact .refl _
  have hstarts : Starts (b.setSelection address) b₁ [] := by
    subst hb
    split
    · exact setNotice_starts ..
    · exact .none rfl rfl rfl rfl
  have hopen₁ : b₁.coreOpen = true := (hselected.starts.trans hstarts).coreOpen.trans hopen
  -- Whatever banner is set, the accounts, the state and the log are asked for, in that order.
  have hlisted := reloadAccounts_view hopen₁
  have hlisting := reloadAccounts_starts hopen₁
  have hopen₂ : b₁.reloadAccounts.coreOpen = true := hlisting.coreOpen.trans hopen₁
  have hstate := reloadState_starts hopen₂
  have hplace := reloadState_place hopen₂
  have hopen₃ : b₁.reloadAccounts.reloadState.coreOpen = true := hstate.coreOpen.trans hopen₂
  have hrefresh := refresh_starts hopen₃
  have hrefreshed := refresh_view hopen₃
  have haddress : b₁.reloadAccounts.selectedAddress = address :=
    hlisted.selectedAddress.trans (hsame.selectedAddress.trans hselected.selectedAddress)
  rw [haddress] at hstate
  refine ⟨_, (((hselected.starts.trans hstarts).trans hlisting).trans hstate).trans hrefresh,
    .shows ⟨?_, ?_⟩ ?_, by simp⟩
  · rw [hrefreshed.accountsJson, hplace.accountsJson, hlisted.accountsJson, hsame.accountsJson,
      hselected.accountsJson]
  · rw [hrefreshed.toSamePlace.refreshTask_eq]
    simp
  · intro address' hmem
    simp only [List.nil_append, List.mem_append, List.mem_singleton] at hmem
    rcases hmem with (hlist | hstate) | hread
    · cases hlist
    · obtain ⟨rfl, hne⟩ := mem_stateTasks hstate
      exact hne
    · exact absurd hread.symm (refreshTask_ne_state _ _)

theorem leaveAccount_turned (hopen : b.coreOpen = true) (address : String) :
    Starts b (b.leaveAccount address) [.accounts] ∧
      Turned b (b.leaveAccount address) [.accounts] := by
  unfold leaveAccount
  dsimp only
  split
  · have hselected := setSelection_selected
      (b := { b with dropped := Function.update b.dropped address 0 }) ""
    have hopen' := hselected.starts.coreOpen.trans hopen
    have hlisted := reloadAccounts_view hopen'
    have hstarts := hselected.starts.trans (reloadAccounts_starts hopen')
    refine ⟨⟨hstarts.pool, hstarts.inFlight, hstarts.busy, hstarts.coreOpen⟩, .shows ⟨?_, ?_⟩ ?_⟩
    · exact hlisted.accountsJson.trans hselected.accountsJson
    · have hnone := hlisted.selectedAddress.trans hselected.selectedAddress
      unfold refreshTask
      rw [if_pos hnone]
      exact List.mem_singleton_self _
    · intro address' hmem
      cases List.mem_singleton.mp hmem
  · have hlisted := reloadAccounts_view
      (b := { b with dropped := Function.update b.dropped address 0 }) hopen
    have hstarts := reloadAccounts_starts
      (b := { b with dropped := Function.update b.dropped address 0 }) hopen
    exact ⟨⟨hstarts.pool, hstarts.inFlight, hstarts.busy, hstarts.coreOpen⟩,
      .calls ⟨⟨hlisted.selectedAddress, hlisted.selection, hlisted.accountsJson,
        hlisted.contextReady⟩, hlisted.stateJson⟩ (by simp)⟩

/-- What only touches the banner, the status and the count of dropped edits. -/
structure Aside (b b' : Backend) : Prop where
  view : SameView b b'
  starts : Starts b b' []

theorem Aside.refl (b : Backend) : Aside b b := ⟨.refl b, .none rfl rfl rfl rfl⟩

theorem Aside.trans (h : Aside b b') (h' : Aside b' b'') : Aside b b'' :=
  ⟨h.view.trans h'.view, h.starts.trans h'.starts⟩

theorem Aside.turned (h : Aside b b') : Starts b b' [] ∧ Turned b b' [] :=
  ⟨h.starts, .stays h.view fun _ hmem => by cases hmem⟩

theorem Aside.listed (h : Aside b b') (hopen : b.coreOpen = true) :
    Starts b b'.reloadAccounts [.accounts] ∧ Turned b b'.reloadAccounts [.accounts] := by
  have hopen' : b'.coreOpen = true := h.starts.coreOpen.trans hopen
  exact ⟨h.starts.trans (reloadAccounts_starts hopen'),
    .calls (h.view.trans (reloadAccounts_view hopen')) (by simp)⟩

theorem setNotice_aside (kind title body : String) : Aside b (b.setNotice kind title body) :=
  ⟨setNotice_view .., setNotice_starts ..⟩

theorem keepDropped_aside (address : String) (count : ℕ) : Aside b (b.keepDropped address count) :=
  ⟨keepDropped_view .., keepDropped_starts ..⟩

theorem report_aside (what message : String) : Aside b (b.report what message) :=
  ⟨report_view .., report_starts ..⟩

theorem emit_aside (signal : Signal) : Aside b (b.emit signal) :=
  ⟨⟨⟨rfl, rfl, rfl, rfl⟩, rfl⟩, .none rfl rfl rfl rfl⟩

theorem edited_turned (hopen : b.coreOpen = true) :
    Starts b b.edited [.accounts] ∧ Turned b b.edited [.accounts] :=
  (setNotice_aside "" "" "").listed hopen

theorem refreshLanded_turned (hopen : b.coreOpen = true) (address : String) (selection : UInt64)
    (reply : Reply) : Starts b (b.refreshLanded address selection reply) [.accounts] ∧
      Turned b (b.refreshLanded address selection reply) [.accounts] := by
  unfold refreshLanded
  dsimp only
  refine Aside.listed ?_ hopen
  generalize hb : (if reply.dropped > 0 ∧ address = b.selectedAddress then
    b.setNotice "info" "Already in the store" (droppedText reply.dropped)
    else b.keepDropped address reply.dropped) = b₁
  have haside : Aside b b₁ := by
    subst hb
    split
    · exact setNotice_aside ..
    · exact keepDropped_aside ..
  refine haside.trans ?_
  split
  · exact ⟨⟨⟨rfl, rfl, rfl, rfl⟩, rfl⟩, .none rfl rfl rfl rfl⟩
  · exact .refl b₁

theorem publishLanded_turned (hopen : b.coreOpen = true) (address : String) (reply : Reply) :
    Starts b (b.publishLanded address reply) [.accounts] ∧
      Turned b (b.publishLanded address reply) [.accounts] := by
  unfold publishLanded
  dsimp only
  refine Aside.listed ?_ hopen
  have hready : Aside b { b with statusText := "Ready", storeProblem := "" } :=
    ⟨⟨⟨rfl, rfl, rfl, rfl⟩, rfl⟩, .none rfl rfl rfl rfl⟩
  have hnumbered : ∀ {b₁ : Backend} (n : ℤ), Aside b₁ { b₁ with firstNewIndex := n } :=
    fun _ => ⟨⟨⟨rfl, rfl, rfl, rfl⟩, rfl⟩, .none rfl rfl rfl rfl⟩
  split
  · refine Aside.trans ?_ (emit_aside _)
    split_ifs
    · exact hready.trans (keepDropped_aside ..)
    · exact hready.trans (setNotice_aside ..)
    · exact (hready.trans (hnumbered _)).trans (setNotice_aside ..)
    · exact (hready.trans (hnumbered _)).trans (setNotice_aside ..)
  · split_ifs
    · exact hready.trans (keepDropped_aside ..)
    · exact hready.trans (setNotice_aside ..)
    · exact (hready.trans (hnumbered _)).trans (setNotice_aside ..)
    · exact (hready.trans (hnumbered _)).trans (setNotice_aside ..)

/-- What a slot does. -/
theorem slot_turn (hopen : b.coreOpen = true) (slot : Slot) :
    ∃ tasks, Starts b (b.slot slot) tasks ∧ Turned b (b.slot slot) tasks := by
  have hcall : ∀ task : Task, (∀ address, .state address ≠ task) →
      ∃ tasks, Starts b (b.call task) tasks ∧ Turned b (b.call task) tasks :=
    fun task htask => ⟨_, call_starts hopen task, call_turned hopen htask⟩
  cases slot with
  | refresh => exact ⟨_, refresh_starts hopen, refresh_turned hopen⟩
  | selectAccount address => exact selectAccount_turned hopen address
  | stageRevoke index =>
    show ∃ tasks, Starts b (b.stageRevoke index) tasks ∧ Turned b (b.stageRevoke index) tasks
    unfold stageRevoke
    split
    · exact ⟨[], (report_aside ..).turned⟩
    · exact hcall _ (by simp)
  | publish =>
    have hstarts := call_starts (b := { b with statusText := "Publishing" }) hopen
      (.publish b.selectedAddress)
    have hview := call_view (b := { b with statusText := "Publishing" }) hopen
      (.publish b.selectedAddress)
    exact ⟨_, ⟨hstarts.pool, hstarts.inFlight, hstarts.busy, hstarts.coreOpen⟩,
      .calls ⟨⟨hview.selectedAddress, hview.selection, hview.accountsJson, hview.contextReady⟩,
        hview.stateJson⟩ (by simp)⟩
  | dismissNotice => exact ⟨[], (setNotice_aside ..).turned⟩
  | contextReady =>
    show ∃ tasks, Starts b b.onContextReady tasks ∧ Turned b b.onContextReady tasks
    unfold onContextReady
    dsimp only
    split
    · have hstarts := refresh_starts (b := { b with contextReady := true }) hopen
      have hview := refresh_view (b := { b with contextReady := true }) hopen
      refine ⟨_, ⟨hstarts.pool, hstarts.inFlight, hstarts.busy, hstarts.coreOpen⟩,
        .shows ⟨hview.accountsJson, ?_⟩ ?_⟩
      · rw [hview.toSamePlace.refreshTask_eq]
        exact List.mem_singleton_self _
      · intro address hmem
        exact absurd (List.mem_singleton.mp hmem).symm (refreshTask_ne_state _ _)
    · next hnot =>
      have hnone : b.selectedAddress = "" := by
        by_contra hne
        exact hnot ⟨hopen, hne⟩
      exact ⟨[], .none rfl rfl rfl rfl, .ready (.refl _) hnone rfl⟩
  | _ => exact hcall _ (by simp)

/-! ### Replies -/

/-- What a listing that lands does. -/
inductive Listed (b b' : Backend) (rows : List AccountSummary) (tasks : List Task) : Prop
  | empty (hrows : rows = []) (hselected : b'.selectedAddress = "") (hstate : b'.stateJson = none)
      (htasks : tasks = [])
  | held (hrow : b.selectedAddress ∈ rows.map (·.address))
      (hselected : b'.selectedAddress = b.selectedAddress) (hselection : b'.selection = b.selection)
      (hcontext : b'.contextReady = b.contextReady)
      (hstate : b'.stateJson = if b.selectedAddress = "" then none else b.stateJson)
      (htasks : tasks = stateTasks b.selectedAddress)
  | moved (hrow : b'.selectedAddress ∈ rows.map (·.address))
      (hcontext : b'.contextReady = b.contextReady)
      (hstate : b'.selectedAddress = "" → b'.stateJson = none)
      (htasks : tasks = stateTasks b'.selectedAddress ++
        if b.contextReady = true then [b'.refreshTask] else [])

/-- `accountsLanded`, once the listing is set. -/
def holdSelection (rows : List AccountSummary) (b : Backend) : Backend :=
  match rows with
  | [] => { b.setSelection "" with stateJson := none, statusText := "No accounts yet" }
  | first :: _ =>
    if rows.any (·.address = b.selectedAddress) then b.reloadState
    else
      let b := (b.setSelection first.address).reloadState
      if b.contextReady then b.refresh else b

theorem accountsLanded_eq (reply : Reply) : b.accountsLanded reply =
    { b with
      vaultProblem := "", accountsJson := reply.accounts }.holdSelection reply.accounts := rfl

/-- The first account listed takes the place of one that is not. -/
theorem moveSelection_listed (hopen : b.coreOpen = true) {rows : List AccountSummary}
    {first : AccountSummary} (hmem : first ∈ rows) {moved b' : Backend}
    (hmoved : (b.setSelection first.address).reloadState = moved)
    (hb' : (if moved.contextReady = true then moved.refresh else moved) = b') :
    b'.accountsJson = b.accountsJson ∧ ∃ tasks, Starts b b' tasks ∧ Listed b b' rows tasks := by
  have hselected := setSelection_selected (b := b) first.address
  generalize b.setSelection first.address = b₁ at hselected hmoved
  have hopen₁ : b₁.coreOpen = true := hselected.starts.coreOpen.trans hopen
  have hreload := reloadState_starts hopen₁
  have hreloaded := reloadState_place hopen₁
  have hdrawn := reloadState_stateJson hopen₁
  rw [hmoved] at hreload hreloaded hdrawn
  have hready : moved.contextReady = b.contextReady :=
    hreloaded.contextReady.trans hselected.contextReady
  have hlisting : moved.accountsJson = b.accountsJson :=
    hreloaded.accountsJson.trans hselected.accountsJson
  have hnow : moved.selectedAddress = first.address :=
    hreloaded.selectedAddress.trans hselected.selectedAddress
  have hnone : moved.selectedAddress = "" → moved.stateJson = none := by
    intro hempty
    rw [hdrawn, if_pos (hreloaded.selectedAddress.symm.trans hempty)]
  have hrow : first.address ∈ rows.map (·.address) := List.mem_map_of_mem hmem
  have hstarts := hselected.starts.trans hreload
  rw [hselected.selectedAddress] at hstarts
  -- The store is read for it, where reading one is possible.
  rcases hcontext : b.contextReady with - | -
  · rw [if_neg (by rw [hready, hcontext]; simp)] at hb'
    subst hb'
    exact ⟨hlisting, _, hstarts, .moved (hnow ▸ hrow) hready hnone (by rw [hcontext, hnow]; simp)⟩
  · rw [if_pos (hready.trans hcontext)] at hb'
    have hopen₂ : moved.coreOpen = true := hreload.coreOpen.trans hopen₁
    have hrefresh := refresh_starts hopen₂
    have hview := refresh_view hopen₂
    rw [hb'] at hrefresh hview
    refine ⟨hview.accountsJson.trans hlisting, _, hstarts.trans hrefresh, .moved ?_ ?_ ?_ ?_⟩
    · rw [hview.selectedAddress, hnow]
      exact hrow
    · exact hview.contextReady.trans hready
    · intro hempty
      rw [hview.stateJson]
      exact hnone (hview.selectedAddress.symm.trans hempty)
    · rw [hcontext, hview.selectedAddress, hnow, hview.toSamePlace.refreshTask_eq]
      simp

theorem holdSelection_listed (hopen : b.coreOpen = true) (rows : List AccountSummary) :
    (b.holdSelection rows).accountsJson = b.accountsJson ∧
      ∃ tasks, Starts b (b.holdSelection rows) tasks ∧
        Listed b (b.holdSelection rows) rows tasks := by
  unfold holdSelection
  rcases rows with - | ⟨first, rest⟩
  · have hselected := setSelection_selected (b := b) ""
    have hstarts := hselected.starts
    exact ⟨hselected.accountsJson, [],
      ⟨hstarts.pool, hstarts.inFlight, hstarts.busy, hstarts.coreOpen⟩,
      .empty rfl hselected.selectedAddress rfl rfl⟩
  dsimp only
  split
  · next hheld =>
    rw [List.any_eq_true] at hheld
    obtain ⟨row, hrow, hsame⟩ := hheld
    have hmem : b.selectedAddress ∈ (first :: rest).map (·.address) := by
      rw [← of_decide_eq_true hsame]
      exact List.mem_map_of_mem hrow
    have hreloaded := reloadState_place hopen
    exact ⟨hreloaded.accountsJson, _, reloadState_starts hopen,
      .held hmem hreloaded.selectedAddress hreloaded.selection hreloaded.contextReady
        (reloadState_stateJson hopen) rfl⟩
  · exact moveSelection_listed hopen List.mem_cons_self rfl rfl

theorem accountsLanded_cases (hopen : b.coreOpen = true) (reply : Reply) :
    (b.accountsLanded reply).accountsJson = reply.accounts ∧
      ∃ tasks, Starts b (b.accountsLanded reply) tasks ∧
        Listed b (b.accountsLanded reply) reply.accounts tasks := by
  rw [accountsLanded_eq]
  obtain ⟨haccounts, tasks, hstarts, hlisted⟩ := holdSelection_listed
    (b := { b with vaultProblem := "", accountsJson := reply.accounts }) hopen reply.accounts
  refine ⟨haccounts, tasks,
    ⟨hstarts.pool, hstarts.inFlight, hstarts.busy, hstarts.coreOpen⟩, ?_⟩
  cases hlisted with
  | empty hrows hselected hstate htasks => exact .empty hrows hselected hstate htasks
  | held hrow hselected hselection hcontext hstate htasks =>
    exact .held hrow hselected hselection hcontext hstate htasks
  | moved hrow hcontext hstate htasks => exact .moved hrow hcontext hstate htasks

/-- A state that lands is drawn, where its account is on screen. -/
theorem stateLanded_drawn (reply : Reply) :
    Starts b (b.stateLanded b.selectedAddress reply) [] ∧
      SamePlace b (b.stateLanded b.selectedAddress reply) ∧
      (b.stateLanded b.selectedAddress reply).stateJson = reply.state := by
  unfold stateLanded
  rw [if_pos rfl]
  exact ⟨.none rfl rfl rfl rfl, ⟨rfl, rfl, rfl, rfl⟩, rfl⟩

end Backend

/-- The reply has the accounts listed again: the library may have changed. -/
def Task.reloads (reply : Reply) : Task → Bool
  | .refresh .. | .publish _ => true
  | .accounts | .state _ | .exportAccount .. => false
  | _ => reply.ok

namespace Backend

variable {b b' : Backend}

/-- The handlers of a reply. -/
def handle (task : Task) (reply : Reply) (clock : String) (b : Backend) : Backend :=
  if reply.ok = false then (b.report task.what reply.error).refused task reply.error clock
  else (b.landed task reply).emit (.succeeded task.what)

theorem land_some (task : Task) (reply : Reply) (clock : String) :
    b.land task (some reply) clock = (b.handle task reply clock).ended := by
  unfold land handle
  dsimp only
  split <;> rfl

/-- What a turn starts and what it shows, where what went before it was an aside. -/
theorem Turned.after {tasks : List Task} {b₁ : Backend} (haside : Aside b b₁)
    (hstarts : Starts b₁ b' tasks) (h : Turned b₁ b' tasks) :
    Starts b b' tasks ∧ Turned b b' tasks := by
  refine ⟨haside.starts.trans hstarts, ?_⟩
  cases h with
  | stays hview htasks => exact .stays (haside.view.trans hview) htasks
  | shows hshows htasks =>
    exact .shows ⟨hshows.accountsJson.trans haside.view.accountsJson, hshows.asks⟩ htasks
  | ready hview hnone htasks =>
    refine .ready ⟨⟨?_, ?_, ?_, ?_⟩, ?_⟩ (haside.view.selectedAddress.symm.trans hnone) htasks
    · exact hview.selectedAddress.trans haside.view.selectedAddress
    · exact hview.selection.trans haside.view.selection
    · exact hview.accountsJson.trans haside.view.accountsJson
    · exact hview.contextReady
    · exact hview.stateJson.trans haside.view.stateJson

/-- And where what follows it is one. -/
theorem Turned.before {tasks : List Task} {b₁ : Backend} (hstarts : Starts b b₁ tasks)
    (h : Turned b b₁ tasks) (haside : Aside b₁ b') : Starts b b' tasks ∧ Turned b b' tasks := by
  have hall := hstarts.trans haside.starts
  rw [List.append_nil] at hall
  refine ⟨hall, ?_⟩
  cases h with
  | stays hview htasks => exact .stays (hview.trans haside.view) htasks
  | shows hshows htasks =>
    refine .shows ⟨haside.view.accountsJson.trans hshows.accountsJson, ?_⟩ htasks
    rw [haside.view.toSamePlace.refreshTask_eq]
    exact hshows.asks
  | ready hview hnone htasks => exact .ready (hview.trans haside.view) hnone htasks

/-- How a reply is handled that brings no listing and no state to draw. -/
structure Handled (task : Task) (reply : Reply) (b b' : Backend) (tasks : List Task) : Prop where
  starts : Starts b b' tasks
  turned : Turned b b' tasks
  /-- What may have changed is listed again, or the log on screen is read again. -/
  reloads : task.reloads reply = true →
    .accounts ∈ tasks ∨ SameView b b' ∧ tasks = [b.refreshTask]

theorem landed_handled (hopen : b.coreOpen = true) {task : Task} {reply : Reply}
    (hlisting : task ≠ .accounts) (hstate : task ≠ .state b.selectedAddress) :
    ∃ tasks, Starts b (b.landed task reply) tasks ∧ Turned b (b.landed task reply) tasks ∧
      (task.reloads reply = true → .accounts ∈ tasks) := by
  have hlisted : ∀ {b' : Backend}, Starts b b' [.accounts] ∧ Turned b b' [.accounts] →
      ∃ tasks, Starts b b' tasks ∧ Turned b b' tasks ∧
        (task.reloads reply = true → .accounts ∈ tasks) :=
    fun h => ⟨_, h.1, h.2, fun _ => List.mem_singleton_self _⟩
  cases task with
  | accounts => exact absurd rfl hlisting
  | state address =>
    refine ⟨[], ?_⟩
    show Starts b (b.stateLanded address reply) [] ∧ Turned b (b.stateLanded address reply) [] ∧ _
    unfold stateLanded
    rw [if_neg fun heq => hstate (congrArg Task.state heq)]
    exact ⟨(Aside.refl b).turned.1, (Aside.refl b).turned.2, fun h => by cases h⟩
  | refresh address selection =>
    exact hlisted (refreshLanded_turned hopen address selection reply)
  | createAccount password =>
    obtain ⟨tasks, hstarts, hturned, hmem⟩ :=
      showTaken_turned hopen reply.address false "" ""
    exact ⟨tasks, hstarts, hturned, fun _ => hmem⟩
  | importAccount secretHex password =>
    obtain ⟨tasks, hstarts, hturned, hmem⟩ := showTaken_turned hopen reply.address
      reply.alreadyHeld "Already in this vault"
      ("This key is an account the vault already holds, so it is kept as it was, with its own " ++
        "password or none.")
    exact ⟨tasks, hstarts, hturned, fun _ => hmem⟩
  | exportAccount address password =>
    have haside : Aside b (b.emit (.accountExported address reply.key)) := emit_aside _
    exact ⟨[], haside.turned.1, haside.turned.2, fun h => by cases h⟩
  | unlock address password => exact hlisted ((Aside.refl b).listed hopen)
  | forgetAccount address => exact hlisted (leaveAccount_turned hopen address)
  | observeAccount address =>
    obtain ⟨tasks, hstarts, hturned, hmem⟩ := showTaken_turned hopen address
      reply.alreadyObserved "Already observed"
      "This account is already one this app reads, so it is shown as it was."
    exact ⟨tasks, hstarts, hturned, fun _ => hmem⟩
  | stopObserving address => exact hlisted (leaveAccount_turned hopen address)
  | publish address => exact hlisted (publishLanded_turned hopen address reply)
  | _ => exact hlisted (edited_turned hopen)

theorem refused_state (address message clock : String) : b.refused (.state address) message clock =
    if address = b.selectedAddress then
      { b with statusText := "Could not read the vault", vaultProblem := message }
    else b := rfl

theorem refused_publish (address message clock : String) :
    b.refused (.publish address) message clock =
      if address ≠ b.selectedAddress then b.reloadAccounts else b.refresh := rfl

theorem refused_handled (hopen : b.coreOpen = true) (task : Task) {reply : Reply}
    (hrefused : reply.ok = false) (clock : String) :
    ∃ tasks, Starts b (b.refused task reply.error clock) tasks ∧
      Turned b (b.refused task reply.error clock) tasks ∧
      (task.reloads reply = true → .accounts ∈ tasks ∨
        SameView b (b.refused task reply.error clock) ∧ tasks = [b.refreshTask]) := by
  have hnothing : ∀ {b' : Backend}, Aside b b' → task.reloads reply = false →
      ∃ tasks, Starts b b' tasks ∧ Turned b b' tasks ∧ (task.reloads reply = true →
        .accounts ∈ tasks ∨ SameView b b' ∧ tasks = [b.refreshTask]) :=
    fun h hnot => ⟨[], h.turned.1, h.turned.2, fun hyes => by rw [hnot] at hyes; cases hyes⟩
  have hlisted : ∀ {b' : Backend}, Starts b b' [.accounts] ∧ Turned b b' [.accounts] →
      ∃ tasks, Starts b b' tasks ∧ Turned b b' tasks ∧ (task.reloads reply = true →
        .accounts ∈ tasks ∨ SameView b b' ∧ tasks = [b.refreshTask]) :=
    fun h => ⟨_, h.1, h.2, fun _ => .inl (List.mem_singleton_self _)⟩
  cases task with
  | accounts => exact hnothing ⟨⟨⟨rfl, rfl, rfl, rfl⟩, rfl⟩, .none rfl rfl rfl rfl⟩ rfl
  | state address =>
    refine hnothing ?_ rfl
    rw [refused_state]
    split
    · exact ⟨⟨⟨rfl, rfl, rfl, rfl⟩, rfl⟩, .none rfl rfl rfl rfl⟩
    · exact .refl b
  | refresh address selection =>
    refine hlisted (Aside.listed ?_ hopen)
    split
    · exact ⟨⟨⟨rfl, rfl, rfl, rfl⟩, rfl⟩, .none rfl rfl rfl rfl⟩
    · exact .refl b
  | publish address =>
    rw [refused_publish]
    split
    · exact ⟨_, reloadAccounts_starts hopen, .calls (reloadAccounts_view hopen) (by simp),
        fun _ => .inl (List.mem_singleton_self _)⟩
    · exact ⟨_, refresh_starts hopen, refresh_turned hopen,
        fun _ => .inr ⟨refresh_view hopen, rfl⟩⟩
  | _ => exact hnothing (.refl b) (by first | rfl | exact hrefused)

theorem handle_handled (hopen : b.coreOpen = true) {task : Task} {reply : Reply} (clock : String)
    (hanswered : reply.ok = true → task ≠ .accounts ∧ task ≠ .state b.selectedAddress) :
    ∃ tasks, Handled task reply b (b.handle task reply clock) tasks := by
  unfold handle
  by_cases hok : reply.ok = false
  · rw [if_pos hok]
    have haside : Aside b (b.report task.what reply.error) := report_aside ..
    have hopen' := haside.starts.coreOpen.trans hopen
    obtain ⟨tasks, hstarts, hturned, hreloads⟩ := refused_handled hopen' task hok clock
    obtain ⟨hstarts', hturned'⟩ := hturned.after haside hstarts
    refine ⟨tasks, hstarts', hturned', fun h => (hreloads h).imp_right ?_⟩
    rintro ⟨hview, rfl⟩
    exact ⟨haside.view.trans hview, by rw [haside.view.toSamePlace.refreshTask_eq]⟩
  · rw [if_neg hok]
    obtain ⟨hlisting, hstate⟩ := hanswered (by simpa using hok)
    obtain ⟨tasks, hstarts, hturned, hreloads⟩ := landed_handled hopen hlisting hstate
    obtain ⟨hstarts', hturned'⟩ := Turned.before hstarts hturned (emit_aside (.succeeded task.what))
    exact ⟨tasks, hstarts', hturned', fun h => .inl (hreloads h)⟩

end Backend

end AccountLogUi
