import AccountLogUi.Backend.Equiv.Coherent

/-!
# Calls are answered in order, once each

Between the view and the library there are three queues: the calls not taken up yet, the one the
worker runs, and what was posted of those that are over.  `InOrder` says of every state of a run
that nothing was lost, doubled or overtaken on the way, and that the view was signalled what each
call handled came to, once, and nothing else (`calls_are_answered_in_order`).  Nothing is asked of
the library for it.
-/

namespace AccountLogUi

open UiHost

namespace Backend

variable {b b' b'' : Backend}

/-- What the view was signalled, oldest first. -/
def told (b : Backend) : List Signal := b.emitted.reverse

/-- The backend is not found busy, or idle, but by what it starts. -/
structure Steady (b b' : Backend) : Prop where
  coreOpen : b'.coreOpen = b.coreOpen
  inFlight : b.inFlight ≤ b'.inFlight
  busy : b'.inFlight = b.inFlight → b'.busy = b.busy

theorem Steady.trans (h : Steady b b') (h' : Steady b' b'') : Steady b b'' where
  coreOpen := h'.coreOpen.trans h.coreOpen
  inFlight := h.inFlight.trans h'.inFlight
  busy hsame := by
    have hle := h.inFlight
    have hle' := h'.inFlight
    rw [h'.busy (by omega), h.busy (by omega)]

/-- And nothing is signalled. -/
structure Silent (b b' : Backend) : Prop extends Steady b b' where
  told : b'.told = b.told

theorem Silent.of_emitted (h : b'.emitted = b.emitted) (hopen : b'.coreOpen = b.coreOpen)
    (hinFlight : b'.inFlight = b.inFlight) (hbusy : b'.busy = b.busy) : Silent b b' where
  coreOpen := hopen
  inFlight := hinFlight.ge
  busy _ := hbusy
  told := by
    unfold Backend.told
    rw [h]

theorem Silent.refl (b : Backend) : Silent b b := .of_emitted rfl rfl rfl rfl

theorem Silent.trans (h : Silent b b') (h' : Silent b' b'') : Silent b b'' :=
  ⟨h.toSteady.trans h'.toSteady, h'.told.trans h.told⟩

theorem emit_steady (signal : Signal) : Steady b (b.emit signal) := ⟨rfl, le_rfl, fun _ => rfl⟩

theorem told_emit (signal : Signal) : (b.emit signal).told = b.told ++ [signal] :=
  List.reverse_cons

/-! ### The parts of handlers -/

theorem setNotice_silent (kind title body : String) : Silent b (b.setNotice kind title body) :=
  .of_emitted rfl rfl rfl rfl

theorem call_silent (hopen : b.coreOpen = true) (task : Task) : Silent b (b.call task) := by
  rw [call_eq hopen]
  exact ⟨⟨rfl, by simp, by simp⟩, rfl⟩

theorem reloadAccounts_silent (hopen : b.coreOpen = true) : Silent b b.reloadAccounts :=
  call_silent hopen .accounts

theorem refresh_silent (hopen : b.coreOpen = true) : Silent b b.refresh := by
  unfold refresh
  split
  · exact reloadAccounts_silent hopen
  · have hstatus : Silent b { b with statusText := "Reading the store" } :=
      .of_emitted rfl rfl rfl rfl
    exact hstatus.trans (call_silent (b := { b with statusText := "Reading the store" }) hopen _)

theorem reloadState_silent (hopen : b.coreOpen = true) : Silent b b.reloadState := by
  unfold reloadState
  split
  · exact .of_emitted rfl rfl rfl rfl
  · exact call_silent hopen _

theorem keepDropped_silent (address : String) (count : ℕ) :
    Silent b (b.keepDropped address count) := by
  unfold keepDropped
  split <;> exact .of_emitted rfl rfl rfl rfl

theorem setSelection_silent (address : String) : Silent b (b.setSelection address) := by
  unfold setSelection dismissNotice
  dsimp only
  split <;> exact .of_emitted rfl rfl rfl rfl

/-- An account put on screen, and its state and its log read. -/
theorem shown_silent (hopen : b.coreOpen = true) : Silent b b.reloadState.refresh := by
  have hstate := reloadState_silent hopen
  exact hstate.trans (refresh_silent (hstate.coreOpen.trans hopen))

theorem Silent.listed (h : Silent b b') (hopen : b.coreOpen = true) :
    Silent b b'.reloadAccounts :=
  h.trans (reloadAccounts_silent (h.coreOpen.trans hopen))

theorem told_report (what message : String) :
    (b.report what message).told = b.told ++ [.failed what message] := by
  unfold report
  dsimp only
  rw [told_emit]
  split_ifs <;> rfl

theorem report_steady (what message : String) : Steady b (b.report what message) := by
  unfold report emit
  dsimp only
  split_ifs <;> exact ⟨rfl, le_rfl, fun _ => rfl⟩

/-! ### Slots and handlers -/

theorem selectAccount_silent (hopen : b.coreOpen = true) (address : String) :
    Silent b (b.selectAccount address) := by
  unfold selectAccount
  split
  · exact .refl b
  · have hselected := setSelection_silent (b := b) address
    exact hselected.trans (shown_silent (hselected.coreOpen.trans hopen))

theorem showTaken_silent (hopen : b.coreOpen = true) (address : String) (already : Bool)
    (title body : String) : Silent b (b.showTaken address already title body) := by
  unfold showTaken
  dsimp only
  have hselected := setSelection_silent (b := b) address
  have hnoticed : Silent b (if already then (b.setSelection address).setNotice "info" title body
      else b.setSelection address) := by
    split
    · exact hselected.trans (setNotice_silent ..)
    · exact hselected
  have hlisted := hnoticed.listed hopen
  exact hlisted.trans (shown_silent (hlisted.coreOpen.trans hopen))

theorem leaveAccount_silent (hopen : b.coreOpen = true) (address : String) :
    Silent b (b.leaveAccount address) := by
  unfold leaveAccount
  dsimp only
  have hleft : Silent b { b with dropped := Function.update b.dropped address 0 } :=
    .of_emitted rfl rfl rfl rfl
  refine Silent.listed ?_ hopen
  split
  · exact hleft.trans (setSelection_silent _)
  · exact hleft

theorem accountsLanded_silent (hopen : b.coreOpen = true) (reply : Reply) :
    Silent b (b.accountsLanded reply) := by
  rw [accountsLanded_eq]
  have hlisted : Silent b { b with vaultProblem := "", accountsJson := reply.accounts } :=
    .of_emitted rfl rfl rfl rfl
  refine hlisted.trans ?_
  have hopen₁ := hlisted.coreOpen.trans hopen
  generalize { b with vaultProblem := "", accountsJson := reply.accounts } = b₁ at hopen₁ ⊢
  unfold holdSelection
  split
  · have hselected := setSelection_silent (b := b₁) ""
    exact hselected.trans (.of_emitted rfl rfl rfl rfl)
  · next first rest _ =>
    dsimp only
    have hselected := setSelection_silent (b := b₁) first.address
    have hreload := hselected.trans (reloadState_silent (hselected.coreOpen.trans hopen₁))
    split_ifs
    · exact reloadState_silent hopen₁
    · exact hreload.trans (refresh_silent (hreload.coreOpen.trans hopen₁))
    · exact hreload

theorem stateLanded_silent (address : String) (reply : Reply) :
    Silent b (b.stateLanded address reply) := by
  unfold stateLanded
  split <;> exact .of_emitted rfl rfl rfl rfl

theorem refreshLanded_silent (hopen : b.coreOpen = true) (address : String) (selection : UInt64)
    (reply : Reply) : Silent b (b.refreshLanded address selection reply) := by
  unfold refreshLanded
  dsimp only
  refine Silent.listed ?_ hopen
  have hready : ∀ {b₁ : Backend}, Silent b₁
      { b₁ with statusText := "Ready", storeProblem := "", firstNewIndex := -1 } :=
    .of_emitted rfl rfl rfl rfl
  split_ifs
  · exact (setNotice_silent ..).trans hready
  · exact setNotice_silent ..
  · exact (keepDropped_silent ..).trans hready
  · exact keepDropped_silent ..

/-- What the view is handed of a call that went well: the key exported, or where the entries
published stand. -/
def handed : Task → Reply → List Signal
  | .exportAccount address _, reply => [.accountExported address reply.key]
  | .publish address, reply =>
    if reply.firstNewIndex ≥ 0 then [.published address reply.firstNewIndex] else []
  | _, _ => []

theorem publishLanded_hands (hopen : b.coreOpen = true) (address : String) (reply : Reply) :
    Steady b (b.publishLanded address reply) ∧
      (b.publishLanded address reply).told = b.told ++ handed (.publish address) reply := by
  unfold publishLanded handed
  dsimp only
  have hready : Silent b { b with statusText := "Ready", storeProblem := "" } :=
    .of_emitted rfl rfl rfl rfl
  have hnumbered : ∀ {b₁ : Backend} (n : ℤ), Silent b₁ { b₁ with firstNewIndex := n } :=
    fun _ => .of_emitted rfl rfl rfl rfl
  -- What the reply is shown as is told no one; that it is published is.
  generalize hshown : (if address ≠ b.selectedAddress then
      { b with statusText := "Ready", storeProblem := "" }.keepDropped address reply.dropped
    else _ : Backend) = shown
  have hsilent : Silent b shown := by
    rw [← hshown]
    split_ifs
    · exact hready.trans (keepDropped_silent ..)
    · exact hready.trans (setNotice_silent ..)
    · exact (hready.trans (hnumbered _)).trans (setNotice_silent ..)
    · exact (hready.trans (hnumbered _)).trans (setNotice_silent ..)
  have hopen₁ := hsilent.coreOpen.trans hopen
  split
  · have hlisted := reloadAccounts_silent (b := shown.emit (.published address reply.firstNewIndex))
      hopen₁
    refine ⟨(hsilent.toSteady.trans (emit_steady _)).trans hlisted.toSteady, ?_⟩
    rw [hlisted.told, told_emit, hsilent.told]
  · have hlisted := hsilent.trans (reloadAccounts_silent hopen₁)
    refine ⟨hlisted.toSteady, ?_⟩
    rw [hlisted.told, List.append_nil]

/-- Of a call that went well the view is handed so much before the handler is done. -/
theorem landed_hands (hopen : b.coreOpen = true) (task : Task) (reply : Reply) :
    Steady b (b.landed task reply) ∧
      (b.landed task reply).told = b.told ++ handed task reply := by
  have hsilent : ∀ {b' : Backend}, Silent b b' → Steady b b' ∧ b'.told = b.told ++ [] := by
    intro b' h
    exact ⟨h.toSteady, h.told.trans (List.append_nil _).symm⟩
  have hedited : Silent b b.edited := (setNotice_silent ..).listed hopen
  cases task with
  | accounts => exact hsilent (accountsLanded_silent hopen reply)
  | state address => exact hsilent (stateLanded_silent address reply)
  | refresh address selection =>
    exact hsilent (refreshLanded_silent hopen address selection reply)
  | createAccount password => exact hsilent (showTaken_silent hopen ..)
  | importAccount secretHex password => exact hsilent (showTaken_silent hopen ..)
  | exportAccount address password => exact ⟨emit_steady _, told_emit _⟩
  | unlock address password => exact hsilent (reloadAccounts_silent hopen)
  | forgetAccount address => exact hsilent (leaveAccount_silent hopen address)
  | observeAccount address => exact hsilent (showTaken_silent hopen ..)
  | stopObserving address => exact hsilent (leaveAccount_silent hopen address)
  | publish address => exact publishLanded_hands hopen address reply
  | _ => exact hsilent hedited

/-- Of one that failed, nothing more. -/
theorem refused_silent (hopen : b.coreOpen = true) (task : Task) (message clock : String) :
    Silent b (b.refused task message clock) := by
  cases task with
  | accounts => exact .of_emitted rfl rfl rfl rfl
  | state address =>
    rw [refused_state]
    split <;> exact .of_emitted rfl rfl rfl rfl
  | refresh address selection =>
    refine Silent.listed ?_ hopen
    split <;> exact .of_emitted rfl rfl rfl rfl
  | publish address =>
    rw [refused_publish]
    split
    · exact reloadAccounts_silent hopen
    · exact refresh_silent hopen
  | _ => exact .refl b

/-- What a handler tells of its call: what there is to hand over, and how it went. -/
def outcome (task : Task) (reply : Reply) : List Signal :=
  if reply.ok then handed task reply ++ [.succeeded task.what]
  else [.failed task.what reply.error]

theorem handle_tells (hopen : b.coreOpen = true) (task : Task) (reply : Reply) (clock : String) :
    Steady b (b.handle task reply clock) ∧
      (b.handle task reply clock).told = b.told ++ outcome task reply := by
  unfold handle outcome
  by_cases hok : reply.ok = true
  · obtain ⟨hsteady, htold⟩ := landed_hands hopen task reply
    rw [if_neg (by rw [hok]; simp), if_pos hok, told_emit, htold, List.append_assoc]
    exact ⟨hsteady.trans (emit_steady _), rfl⟩
  · have hreported := report_steady (b := b) task.what reply.error
    have hrefused := refused_silent (hreported.coreOpen.trans hopen) task reply.error clock
    rw [if_pos (by simpa using hok), if_neg hok, hrefused.told, told_report]
    exact ⟨hreported.trans hrefused.toSteady, rfl⟩

/-- What a slot tells of: that there is no entry to stage the removal of. -/
def slotTells : Slot → List Signal
  | .stageRevoke index =>
    if index < 0 then [.failed "stageRevoke" "there is no entry before the first"] else []
  | _ => []

theorem slot_tells (hopen : b.coreOpen = true) (slot : Slot) :
    Steady b (b.slot slot) ∧ (b.slot slot).told = b.told ++ slotTells slot := by
  have hsilent : ∀ {b' : Backend}, Silent b b' → Steady b b' ∧ b'.told = b.told ++ [] :=
    fun h => ⟨h.toSteady, by rw [h.told, List.append_nil]⟩
  cases slot with
  | refresh => exact hsilent (refresh_silent hopen)
  | selectAccount address => exact hsilent (selectAccount_silent hopen address)
  | stageRevoke index =>
    show Steady b (b.stageRevoke index) ∧ (b.stageRevoke index).told = _
    unfold stageRevoke slotTells
    dsimp only
    split
    · exact ⟨report_steady .., told_report ..⟩
    · exact hsilent (call_silent hopen _)
  | publish =>
    have hstatus : Silent b { b with statusText := "Publishing" } := .of_emitted rfl rfl rfl rfl
    exact hsilent (hstatus.trans (call_silent (b := { b with statusText := "Publishing" }) hopen _))
  | dismissNotice => exact hsilent (setNotice_silent ..)
  | contextReady =>
    refine hsilent ?_
    show Silent b b.onContextReady
    unfold onContextReady
    dsimp only
    have hready : Silent b { b with contextReady := true } := .of_emitted rfl rfl rfl rfl
    split
    · exact hready.trans (refresh_silent (b := { b with contextReady := true }) hopen)
    · exact hready
  | _ => exact hsilent (call_silent hopen _)

/-- A handler starts some calls. -/
theorem handle_starts (hopen : b.coreOpen = true) (task : Task) (reply : Reply) (clock : String) :
    ∃ tasks, Starts b (b.handle task reply clock) tasks := by
  by_cases hok : reply.ok = true
  · have hemit : ∀ {b₁ tasks}, Starts b b₁ tasks →
        ∃ tasks, Starts b (b₁.emit (.succeeded task.what)) tasks :=
      fun h => ⟨_, h.trans (emit_aside _).starts⟩
    -- A listing and the state of the selected account have handlers of their own, which ask on.
    by_cases hlisting : task = .accounts
    · subst hlisting
      obtain ⟨-, tasks, hstarts, -⟩ := accountsLanded_cases hopen reply
      unfold handle
      rw [if_neg (by rw [hok]; simp)]
      exact hemit hstarts
    by_cases hstate : task = .state b.selectedAddress
    · subst hstate
      unfold handle
      rw [if_neg (by rw [hok]; simp)]
      exact hemit (stateLanded_drawn reply).1
    obtain ⟨tasks, h⟩ := handle_handled hopen clock fun _ => ⟨hlisting, hstate⟩
    exact ⟨tasks, h.starts⟩
  · have hrefused : reply.ok = true → task ≠ .accounts ∧ task ≠ .state b.selectedAddress :=
      fun hyes => absurd hyes hok
    obtain ⟨tasks, h⟩ := handle_handled hopen clock hrefused
    exact ⟨tasks, h.starts⟩

end Backend

/-! ### Runs -/

namespace UiHost.Happened

variable {L : Type} (h : Happened L)

/-- The calls the view's thread started. -/
def started : List Task :=
  match h.event with
  | .slot _ | .land _ => h.after.app.pool.drop h.before.app.pool.length
  | _ => []

/-- The call that is over, with what was posted of it. -/
def finished : Option (Task × Option Reply) :=
  match h.event, h.before.running with
  | .finish reply, some (task, _) => some (task, some reply)
  | .skip, some (task, _) => some (task, none)
  | _, _ => none

/-- What was posted that is handled. -/
def handled : Option (Task × Option Reply) :=
  match h.event with
  | .land _ => h.before.replies.head?
  | _ => none

/-- What the view is signalled. -/
def tells : List Signal :=
  match h.event, h.before.replies with
  | .slot slot, _ => Backend.slotTells slot
  | .land _, (task, some reply) :: _ => Backend.outcome task reply
  | _, _ => []

end UiHost.Happened

variable {L : Type} {lib : Library L} {s s' : UiHost L} {hs : List (Happened L)}
  {event : UiHost.Event}
  {task : Task}

/-- Calls go from queue to queue in the order they were started in, and the view is signalled what
each that is handled came to. -/
structure InOrder (hs : List (Happened L)) (s : UiHost L) : Prop where
  coreOpen : s.app.coreOpen = true
  /-- What was started is over, being run, or still to be. -/
  taken : .accounts :: hs.flatMap Happened.started =
    (hs.filterMap Happened.finished).map Prod.fst ++ (s.running.map Prod.fst).toList ++ s.app.pool
  /-- What is over was handled, with the reply the library gave of it, or is still to be. -/
  posted : hs.filterMap Happened.finished = hs.filterMap Happened.handled ++ s.replies
  /-- Only a read of the store is given up. -/
  skipped : ∀ task, (task, none) ∈ hs.filterMap Happened.finished →
    ∃ address selection, task = .refresh address selection
  unwanted : ∀ task, s.running = some (task, false) →
    ∃ address selection, task = .refresh address selection
  told : s.app.emitted.reverse = hs.flatMap Happened.tells
  inFlight : s.app.inFlight =
    s.replies.length + (s.running.map Prod.fst).toList.length + s.app.pool.length
  busy : s.app.busy = true ↔ 0 < s.app.inFlight

namespace InOrder

open Backend

theorem start (vault : String) (l : L) : InOrder [] (UiHost.start true vault l) where
  coreOpen := rfl
  taken := rfl
  posted := rfl
  skipped task hmem := by cases hmem
  unwanted task h := by cases h
  told := rfl
  inFlight := rfl
  busy := ⟨fun _ => Nat.one_pos, fun _ => rfl⟩

/-- The backend is busy as long as something is in flight. -/
theorem busy_steady {b b' : Backend} (h : Steady b b') {tasks : List Task}
    (hstarts : Starts b b' tasks) (hbusy : b.busy = true ↔ 0 < b.inFlight) :
    b'.busy = true ↔ 0 < b'.inFlight := by
  have hcount := hstarts.inFlight
  rcases hstarts.busy with hnow | ⟨rfl, hsame⟩
  · by_cases hidle : b'.inFlight = b.inFlight
    · rw [h.busy hidle, hidle]
      exact hbusy
    · exact ⟨fun _ => by omega, fun _ => hnow⟩
  · rw [hsame, hcount]
    exact hbusy

theorem flatMap_more {α : Type} (f : Happened L → List α) (h : Happened L) :
    (hs ++ [h]).flatMap f = hs.flatMap f ++ f h := by
  simp

theorem filterMap_more {α : Type} (f : Happened L → Option α) (h : Happened L) :
    (hs ++ [h]).filterMap f = hs.filterMap f ++ (f h).toList := by
  rw [List.filterMap_append]
  cases hf : f h <;> simp [hf]

/-- The calls a turn started are the ones at the pool's end. -/
theorem started_eq {b' : Backend} {tasks : List Task} (h : Starts s.app b' tasks)
    (hs' : s'.app.pool = b'.pool) : s'.app.pool.drop s.app.pool.length = tasks := by
  rw [hs', h.pool, List.drop_left]

theorem slot (h : InOrder hs s) (slot : Slot) (hs' : s' = { s with app := s.app.slot slot }) :
    InOrder (hs ++ [⟨.slot slot, s, s'⟩]) s' := by
  obtain ⟨tasks, hstarts, -⟩ := slot_turn h.coreOpen slot
  obtain ⟨hsteady, htold⟩ := slot_tells h.coreOpen slot
  have hstarted : Happened.started ⟨.slot slot, s, s'⟩ = tasks :=
    started_eq hstarts (by rw [hs'])
  have hfinished : Happened.finished ⟨.slot slot, s, s'⟩ = none := rfl
  have hhandled : Happened.handled ⟨.slot slot, s, s'⟩ = none := rfl
  have htells : Happened.tells ⟨.slot slot, s, s'⟩ = slotTells slot := rfl
  subst hs'
  refine ⟨hsteady.coreOpen.trans h.coreOpen, ?_, ?_, ?_, h.unwanted, ?_, ?_,
    busy_steady hsteady hstarts h.busy⟩
  · rw [flatMap_more, filterMap_more, hstarted, hfinished, ← List.cons_append, h.taken]
    dsimp only
    rw [hstarts.pool]
    simp
  · rw [filterMap_more, filterMap_more, hfinished, hhandled, h.posted]
    simp
  · rw [filterMap_more, hfinished]
    simpa using h.skipped
  · rw [flatMap_more, htells, ← h.told]
    exact htold
  · have hcount := h.inFlight
    dsimp only
    rw [hstarts.inFlight, hstarts.pool, List.length_append]
    omega

theorem begun {rest : List Task} (h : InOrder hs s) (hidle : s.running = none)
    (hpool : s.app.pool = task :: rest) (hs' : s' = { s with
      app := { s.app with pool := rest }
      running := some (task, task.wanted s.app) }) :
    InOrder (hs ++ [⟨.begin, s, s'⟩]) s' := by
  have htaken := h.taken
  have hcount := h.inFlight
  rw [hidle, hpool] at htaken hcount
  have hstarted : Happened.started ⟨.begin, s, s'⟩ = [] := rfl
  have hfinished : Happened.finished ⟨.begin, s, s'⟩ = none := rfl
  have hhandled : Happened.handled ⟨.begin, s, s'⟩ = none := rfl
  have htells : Happened.tells ⟨.begin, s, s'⟩ = [] := rfl
  subst hs'
  refine ⟨h.coreOpen, ?_, ?_, ?_, ?_, ?_, ?_, h.busy⟩
  · rw [flatMap_more, filterMap_more, hstarted, hfinished]
    simpa using htaken
  · rw [filterMap_more, filterMap_more, hfinished, hhandled, h.posted]
    simp
  · rw [filterMap_more, hfinished]
    simpa using h.skipped
  · intro task' hrunning
    obtain ⟨rfl, hunwanted⟩ := Prod.mk.inj (Option.some.inj hrunning)
    cases task with
    | refresh address selection => exact ⟨address, selection, rfl⟩
    | _ => cases hunwanted
  · rw [flatMap_more, htells, ← h.told, List.append_nil]
  · simp only [Option.map_none, Option.toList_none, List.length_nil, List.length_cons] at hcount
    simp only [Option.map_some, Option.toList_some, List.length_singleton]
    omega

/-- A call is over, on the worker. -/
theorem posts {answer : Option Reply} {wanted : Bool} (h : InOrder hs s)
    (hrunning : s.running = some (task, wanted))
    (hs' : s' = { s with
      running := none
      replies := s.replies ++ [(task, answer)]
      library := s'.library })
    (hfinished : Happened.finished ⟨event, s, s'⟩ = some (task, answer))
    (hrest : Happened.started ⟨event, s, s'⟩ = [] ∧ Happened.handled ⟨event, s, s'⟩ = none ∧
      Happened.tells ⟨event, s, s'⟩ = [])
    (hskipped : answer = none → ∃ address selection, task = .refresh address selection) :
    InOrder (hs ++ [⟨event, s, s'⟩]) s' := by
  obtain ⟨hstarted, hhandled, htells⟩ := hrest
  have htaken := h.taken
  have hcount := h.inFlight
  rw [hrunning] at htaken hcount
  have happ : s'.app = s.app := by rw [hs']
  have hreplies : s'.replies = s.replies ++ [(task, answer)] := by rw [hs']
  have hnone : s'.running = none := by rw [hs']
  refine ⟨by rw [happ]; exact h.coreOpen, ?_, ?_, ?_, ?_, ?_, ?_, by rw [happ]; exact h.busy⟩
  · rw [flatMap_more, filterMap_more, hstarted, hfinished, hnone, happ]
    simpa using htaken
  · rw [filterMap_more, filterMap_more, hfinished, hhandled, h.posted, hreplies]
    simp
  · intro task' hmem
    rw [filterMap_more, hfinished] at hmem
    rcases List.mem_append.mp hmem with hmem | hmem
    · exact h.skipped task' hmem
    · obtain ⟨rfl, hanswer⟩ := Prod.mk.inj (List.mem_singleton.mp hmem)
      exact hskipped hanswer.symm
  · intro task' hsome
    rw [hnone] at hsome
    cases hsome
  · rw [flatMap_more, htells, happ, h.told, List.append_nil]
  · rw [happ, hreplies, hnone]
    simp only [Option.map_some, Option.map_none, Option.toList_some, Option.toList_none,
      List.length_append, List.length_cons, List.length_nil] at hcount ⊢
    omega

/-- What was posted is handled. -/
theorem landed {reply : Option Reply} {rest : List (Task × Option Reply)} {clock : String}
    (h : InOrder hs s) (hposted : s.replies = (task, reply) :: rest)
    (hs' : s' = { s with app := s.app.land task reply clock, replies := rest }) :
    InOrder (hs ++ [⟨.land clock, s, s'⟩]) s' := by
  have hcount := h.inFlight
  have hbefore := h.posted
  rw [hposted] at hcount hbefore
  have hfinished : Happened.finished ⟨.land clock, s, s'⟩ = none := rfl
  have hhandled : Happened.handled ⟨.land clock, s, s'⟩ = some (task, reply) := by
    show s.replies.head? = _
    rw [hposted]
    rfl
  -- What the handler does, before the call is counted as over.
  obtain ⟨b, tasks, hsteady, hstarts, htold, hland⟩ : ∃ b tasks, Steady s.app b ∧
      Starts s.app b tasks ∧ b.told = s.app.told ++ Happened.tells ⟨.land clock, s, s'⟩ ∧
        s.app.land task reply clock = b.ended := by
    have htells : Happened.tells ⟨.land clock, s, s'⟩ =
        reply.elim [] fun reply => outcome task reply := by
      unfold Happened.tells
      dsimp only
      rw [hposted]
      cases reply <;> rfl
    rw [htells]
    rcases reply with - | reply
    · exact ⟨s.app, [], ⟨rfl, le_rfl, fun _ => rfl⟩, .none rfl rfl rfl rfl,
        (List.append_nil _).symm, rfl⟩
    · obtain ⟨tasks, hstarts⟩ := handle_starts h.coreOpen task reply clock
      obtain ⟨hsteady, htold⟩ := handle_tells h.coreOpen task reply clock
      exact ⟨_, tasks, hsteady, hstarts, htold, land_some task reply clock⟩
  have hended := ended_eq b
  rw [hland, hended] at hs'
  have hbusy := busy_steady hsteady hstarts h.busy
  have hstarted : Happened.started ⟨.land clock, s, s'⟩ = tasks :=
    started_eq hstarts (by rw [hs'])
  refine ⟨?_, ?_, ?_, ?_, ?_, ?_, ?_, ?_⟩
  · rw [hs']
    exact hsteady.coreOpen.trans h.coreOpen
  · rw [flatMap_more, filterMap_more, hstarted, hfinished, ← List.cons_append, h.taken, hs']
    dsimp only
    rw [hstarts.pool]
    simp
  · rw [filterMap_more, filterMap_more, hfinished, hhandled, hbefore, hs']
    simp
  · rw [filterMap_more, hfinished]
    simpa using h.skipped
  · rw [hs']
    exact h.unwanted
  · have hemitted : s'.app.emitted = b.emitted := by rw [hs']
    rw [flatMap_more, ← h.told, hemitted]
    exact htold
  · rw [hs']
    dsimp only
    rw [hstarts.inFlight, hstarts.pool, List.length_append]
    rw [List.length_cons] at hcount
    omega
  · rw [hs']
    dsimp only
    split
    · next hzero =>
      rw [hzero]
      simp
    -- The call landed is no longer in flight, and those its handler started are.
    · rw [hbusy]
      omega

/-- One event. -/
theorem step (h : InOrder hs s) (hstep : UiHost.Step lib event s s') :
    InOrder (hs ++ [⟨event, s, s'⟩]) s' := by
  cases hstep with
  | slot slot => exact h.slot slot rfl
  | begin hidle hpool => exact h.begun hidle hpool rfl
  | @skip _ task hrunning =>
    refine h.posts hrunning rfl ?_ ⟨rfl, rfl, rfl⟩ fun _ => h.unwanted task hrunning
    unfold Happened.finished
    dsimp only
    rw [hrunning]
  | finish hrunning hanswers =>
    refine h.posts hrunning rfl ?_ ⟨rfl, rfl, rfl⟩ fun hnone => by cases hnone
    unfold Happened.finished
    dsimp only
    rw [hrunning]
  | land clock hposted => exact h.landed hposted rfl

end InOrder

/-- Whatever is asked for and however the library answers, calls are taken up, answered and handled
in the order they were started in, each once, and the view is told of each once: nothing is in
flight exactly where the backend is not busy. -/
theorem calls_are_answered_in_order {vault : String} {l : L}
    (hrun : Played lib (UiHost.start true vault l) hs s) : InOrder hs s := by
  induction hrun with
  | nil => exact .start vault l
  | step _ hstep ih => exact ih.step hstep

/-- The app, opened on a vault that observes one account and asked to stage a removal, with some of
its calls still in flight. -/
theorem calls_are_answered_in_order_opened :
    let addr : Reference.Addr := Reference.probeKey
    let row := Manager.summaryOf Crates.reference .new addr none
    let state := Manager.stateOf Crates.reference .new addr none
    let answer := fun task (_ : Unit) => (answerReadOnly row state task, ())
    let opened := (Run.ask ([], UiHost.start true "/home/user/vault" ()) .contextReady).goOn
      answer "09:00:00" 4
    let run := ((opened.ask (.stageRevoke (-1))).ask (.stageRevoke 0)).goOn answer "09:00:00" 7
    run.1.filterMap Happened.handled =
        [(.accounts, some { ok := true, accounts := [row] }),
          (.state row.address, some { ok := true, state := some state }),
          (.refresh row.address 1, some { ok := true })] ∧
      run.2.app.inFlight = 2 ∧ InOrder run.1 run.2 := by
  intro addr row state answer opened run
  have hplayed : Played (Library.readOnly row state) (UiHost.start true "/home/user/vault" ())
      run.1 run.2 :=
    ((((Played.nil).ask .contextReady).goOn (fun _ _ => rfl) 4).ask _).ask _ |>.goOn
      (fun _ _ => rfl) 7
  exact ⟨by decide +kernel, by decide +kernel, calls_are_answered_in_order hplayed⟩

end AccountLogUi
