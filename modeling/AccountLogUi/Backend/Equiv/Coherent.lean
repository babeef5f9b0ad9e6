import AccountLogUi.Backend.Equiv.Owed
import AccountLogUi.Reference.Basic

/-!
# The screen is coherent when nothing is in flight

`Owes` says of every state of a run what the calls still to come will bring: the listing, an account
of it on screen, that account's state and its log.  Slots and handlers keep it (`Owes.turned`,
`Owes.landed`), and so does the worker (`Owes.worked`).  Where nothing is to come, it is all there
(`screen_is_coherent`).
-/

namespace AccountLogUi

open Backend UiHost

variable {L : Type} {lib : Library L} {l l' : L} {b b' : Backend} {items rest : List Item}
  {tasks : List Task} {hs : List (Happened L)} {h' : Happened L}

namespace Backend.Listed

variable {rows : List AccountSummary}

theorem onList (h : Listed b b' rows tasks) (haccounts : b'.accountsJson = rows) : OnList b' := by
  cases h with
  | empty hrows hselected _ _ => exact .inr ⟨hselected, haccounts.trans hrows⟩
  | held hrow hselected _ _ _ _ =>
    left
    rwa [hselected, haccounts]
  | moved hrow _ _ _ =>
    left
    rwa [haccounts]

theorem state_ne (h : Listed b b' rows tasks) :
    ∀ address, .state address ∈ tasks → address ≠ "" := by
  intro address hmem
  cases h with
  | empty _ _ _ hnil =>
    subst hnil
    cases hmem
  | held _ _ _ _ _ heq =>
    subst heq
    obtain ⟨rfl, hne⟩ := mem_stateTasks hmem
    exact hne
  | moved _ _ _ heq =>
    subst heq
    rcases List.mem_append.mp hmem with hmem | hmem
    · obtain ⟨rfl, hne⟩ := mem_stateTasks hmem
      exact hne
    · split at hmem
      · exact absurd (List.mem_singleton.mp hmem).symm (refreshTask_ne_state _ _)
      · cases hmem

/-- Either no account is on screen, or its state is asked for. -/
theorem asks_state (h : Listed b b' rows tasks) :
    b'.selectedAddress = "" ∧ b'.stateJson = none ∨ .state b'.selectedAddress ∈ tasks := by
  have hself : b'.selectedAddress ≠ "" →
      .state b'.selectedAddress ∈ stateTasks b'.selectedAddress := by
    intro hne
    unfold stateTasks
    rw [if_neg hne]
    exact List.mem_singleton_self _
  by_cases hnone : b'.selectedAddress = ""
  · refine .inl ⟨hnone, ?_⟩
    cases h with
    | empty _ _ hstate _ => exact hstate
    | held _ hselected _ _ hstate _ => rw [hstate, if_pos (hselected.symm.trans hnone)]
    | moved _ _ hstate _ => exact hstate hnone
  · right
    cases h with
    | empty _ hselected _ _ => exact absurd hselected hnone
    | held _ hselected _ _ _ heq =>
      rw [heq, ← hselected]
      exact hself hnone
    | moved _ _ _ heq =>
      rw [heq]
      exact List.mem_append_left _ (hself hnone)

end Backend.Listed

/-- What is to come will make the screen coherent. -/
structure Owes (lib : Library L) (l : L) (hs : List (Happened L)) (b : Backend)
    (items : List Item) : Prop where
  listable : Listable lib l b items
  selectable : Selectable b items
  drawable : Drawable lib l b items
  readable : Readable hs b items
  /-- No state is asked for where no account is on screen. -/
  state_ne : ∀ item ∈ items, ∀ address, item.task = .state address → address ≠ ""

namespace Owes

theorem view (h : Owes lib l hs b items) (hview : SameView b b') : Owes lib l hs b' items where
  listable := by
    have hlistable := h.listable
    unfold Listable at hlistable ⊢
    rwa [hview.accountsJson, hview.selection]
  selectable := by
    have hselectable := h.selectable
    unfold Selectable OnList at hselectable ⊢
    rwa [hview.accountsJson, hview.selection, hview.selectedAddress]
  drawable := h.drawable.congr hview.selectedAddress hview.selection hview.stateJson
  readable := h.readable.place hview.toSamePlace
  state_ne := h.state_ne

theorem more (h : Owes lib l hs b items) (hselects : h'.selects = false) :
    Owes lib l (hs ++ [h']) b items where
  listable := h.listable
  selectable := h.selectable
  drawable := h.drawable
  readable := h.readable.more hselects
  state_ne := h.state_ne

/-- Nothing is owed for what shows the same. -/
theorem same (h : Owes lib l hs b items) (hsame : lib.Same l l') : Owes lib l' hs b items where
  listable := h.listable.same hsame
  selectable := h.selectable
  drawable := h.drawable.same hsame
  readable := h.readable
  state_ne := h.state_ne

theorem queue_ne (h : ∀ item ∈ items, ∀ address, item.task = .state address → address ≠ "")
    (htasks : ∀ address, .state address ∈ tasks → address ≠ "") :
    ∀ item ∈ items ++ tasks.map .queued, ∀ address, item.task = .state address → address ≠ "" := by
  intro item hmem address htask
  rcases List.mem_append.mp hmem with hmem | hmem
  · exact h item hmem address htask
  · obtain ⟨task, htaskmem, rfl⟩ := List.mem_map.mp hmem
    exact htasks address (htask ▸ htaskmem)

/-- A turn that brings no listing and no state. -/
theorem turned (h : Owes lib l hs b items) (hturned : Turned b b' tasks)
    (hselects : b'.selection = b.selection → h'.selects = false) :
    Owes lib l (hs ++ [h']) b' (items ++ tasks.map .queued) := by
  cases hturned with
  | stays hview htasks =>
    have hasked : Asked b b' tasks := .inr ⟨hview.selectedAddress, hview.selection⟩
    exact {
      listable := h.listable.queue hview.accountsJson hasked.fresh
      selectable := h.selectable.queue hview.accountsJson hasked
      drawable := (h.drawable.congr hview.selectedAddress hview.selection hview.stateJson).queue _
      readable := ((h.readable.place hview.toSamePlace).queue _).more (hselects hview.selection)
      state_ne := queue_ne h.state_ne fun address hmem => absurd hmem (htasks address) }
  | shows hshows htasks =>
    have hasked : Asked b b' tasks := .inl hshows.asks
    exact {
      listable := h.listable.queue hshows.accountsJson hasked.fresh
      selectable := h.selectable.queue hshows.accountsJson hasked
      drawable := .asked hshows.asks
      readable := .asked hshows.asks
      state_ne := queue_ne h.state_ne htasks }
  | ready hview hnone htasks =>
    subst htasks
    have hasked : Asked b b' [] := .inr ⟨hview.selectedAddress, hview.selection⟩
    exact {
      listable := h.listable.queue hview.accountsJson hasked.fresh
      selectable := h.selectable.queue hview.accountsJson hasked
      drawable := (h.drawable.congr hview.selectedAddress hview.selection hview.stateJson).queue _
      readable := fun _ hne => absurd (hview.selectedAddress.trans hnone) hne
      state_ne := queue_ne h.state_ne fun address hmem => by cases hmem }

/-- A call handled that bears on nothing. -/
theorem drop {task : Task} {reply : Option Reply}
    (h : Owes lib l hs b (.posted task reply :: rest))
    (hsilent : (Item.posted task reply).returns = false)
    (hdraws : (Item.posted task reply).draws lib l b = none) : Owes lib l hs b rest where
  listable := h.listable.drop hsilent
  selectable := h.selectable.drop hsilent
  drawable := by
    have hdrawable := h.drawable
    unfold Drawable at hdrawable ⊢
    rwa [Settles.cons, hdraws] at hdrawable
  readable := h.readable.drop
  state_ne item hmem := h.state_ne item (List.mem_cons_of_mem _ hmem)

/-- A call handled that has the accounts listed, or the log on screen read. -/
theorem reload {task : Task} {reply : Reply}
    (h : Owes lib l hs b (.posted task (some reply) :: rest))
    (hne : task ≠ .accounts) (hreloads : task.reloads reply = true) (hturned : Turned b b' tasks)
    (htasks : .accounts ∈ tasks ∨ SameView b b' ∧ tasks = [b.refreshTask])
    (hselects : b'.selection = b.selection → h'.selects = false) :
    Owes lib l (hs ++ [h']) b' (rest ++ tasks.map .queued) := by
  have hstate_ne : ∀ item ∈ rest, ∀ address, item.task = .state address → address ≠ "" :=
    fun item hmem => h.state_ne item (List.mem_cons_of_mem _ hmem)
  have hasks : .accounts ∈ tasks ∨ b'.refreshTask ∈ tasks := by
    rcases htasks with hlist | ⟨hview, rfl⟩
    · exact .inl hlist
    · right
      rw [hview.toSamePlace.refreshTask_eq]
      exact List.mem_singleton_self _
  refine {
    listable := h.listable.reload hne hreloads htasks
    selectable := ?_
    drawable := ?_
    readable := ?_
    state_ne := ?_ }
  · rcases hasks with hlist | hread
    · exact .inr (.inl ⟨_, mem_queued hlist, rfl⟩)
    · rcases fresh_of_asked hread with hlist | hread
      · exact .inr (.inl ⟨_, mem_queued hlist, rfl⟩)
      · exact .inr (.inr ⟨_, mem_queued hread⟩)
  · rcases hasks with hlist | hread
    · exact .of_mem hlist (.inr (.inr rfl))
    · exact .asked hread
  · cases hturned with
    | stays hview _ =>
      exact ((h.readable.drop.place hview.toSamePlace).queue _).more (hselects hview.selection)
    | shows hshows _ => exact .asked hshows.asks
    | ready hview hnone _ => exact fun _ hne => absurd (hview.selectedAddress.trans hnone) hne
  · cases hturned with
    | stays _ hnot => exact queue_ne hstate_ne fun address hmem => absurd hmem (hnot address)
    | shows _ hnot => exact queue_ne hstate_ne hnot
    | ready _ _ hnil =>
      subst hnil
      exact queue_ne hstate_ne fun address hmem => by cases hmem

/-- A listing that lands. -/
theorem listed {reply : Reply} (h : Owes lib l hs b (.posted .accounts (some reply) :: rest))
    (haccounts : b'.accountsJson = reply.accounts) (hlisted : Listed b b' reply.accounts tasks)
    (hselects : b'.selection = b.selection → h'.selects = false) :
    Owes lib l (hs ++ [h']) b' (rest ++ tasks.map .queued) := by
  have hstate_ne := queue_ne (fun item hmem => h.state_ne item (List.mem_cons_of_mem _ hmem))
    hlisted.state_ne
  have hlistable : Listable lib l b' (rest ++ tasks.map .queued) := by
    rcases h.listable with hsettles | ⟨-, hall⟩
    · left
      rw [haccounts]
      exact settles_queued hsettles _
    · have hsilent := hall _ List.mem_cons_self
      cases hsilent
  refine {
    listable := hlistable
    selectable := .inl (hlisted.onList haccounts)
    drawable := ?_
    readable := ?_
    state_ne := hstate_ne }
  · rcases hlisted.asks_state with ⟨hnone, hstate⟩ | hmem
    · exact .of_none hnone hstate hstate_ne
    · exact .of_mem hmem (.inl rfl)
  · cases hlisted with
    | empty _ hselected _ _ => exact fun _ hne => absurd hselected hne
    | held _ hselected hselection hcontext _ _ =>
      have hread := h.readable.drop.queue tasks
      have hread' : Readable hs b' (rest ++ tasks.map .queued) := by
        unfold Readable
        rw [hcontext, hselected, hselection]
        exact hread
      exact hread'.more (hselects hselection)
    | moved _ hcontext _ heq =>
      -- The log of the account put on screen is read again, where one can be.
      intro hready hne
      rw [hcontext] at hready
      rw [if_pos hready] at heq
      have hasks : b'.refreshTask ∈ tasks := by
        rw [heq]
        exact List.mem_append_right _ (List.mem_singleton_self _)
      unfold refreshTask at hasks
      rw [if_neg hne] at hasks
      exact .inr (.inl (mem_queued hasks))

/-- A state that lands for the account on screen. -/
theorem drawn {reply : Reply}
    (h : Owes lib l hs b (.posted (.state b.selectedAddress) (some reply) :: rest))
    (hplace : SamePlace b b') (hstate : b'.stateJson = reply.state)
    (hselects : h'.selects = false) :
    Owes lib l (hs ++ [h']) b' rest := by
  have hne := h.state_ne _ List.mem_cons_self b.selectedAddress rfl
  have hlistable := h.listable.drop rfl
  have hselectable := h.selectable.drop rfl
  refine ⟨?_, ?_, ?_, (h.readable.drop.place hplace).more hselects,
    fun item hmem => h.state_ne item (List.mem_cons_of_mem _ hmem)⟩
  · unfold Listable at hlistable ⊢
    rwa [hplace.accountsJson, hplace.selection]
  · unfold Selectable OnList at hselectable ⊢
    rwa [hplace.accountsJson, hplace.selection, hplace.selectedAddress]
  · have hdrawable := h.drawable
    have htells : (Item.posted (.state b.selectedAddress) (some reply)).draws lib l b =
        some (reply.state = lib.screen l b.selectedAddress) := if_pos rfl
    unfold Drawable at hdrawable ⊢
    rw [Settles.cons, htells, Option.getD_some] at hdrawable
    have hcurrent : (b'.stateJson = current lib l b') =
        (reply.state = lib.screen l b.selectedAddress) := by
      unfold current
      rw [hstate, hplace.selectedAddress, if_neg hne]
    rw [hcurrent]
    exact Settles.imp (fun item _ => draws_congr hplace.selectedAddress hplace.selection) hdrawable

/-- A reply that lands, whatever it is of. -/
theorem handled {task : Task} {reply : Reply} {clock : String}
    (h : Owes lib l hs b (.posted task (some reply) :: rest)) (hopen : b.coreOpen = true)
    (hanswered : (task = .accounts ∨ ∃ address, task = .state address) → reply.ok = true)
    (hselects : (b.handle task reply clock).selection = b.selection → h'.selects = false) :
    ∃ tasks, Starts b (b.handle task reply clock) tasks ∧
      Owes lib l (hs ++ [h']) (b.handle task reply clock) (rest ++ tasks.map .queued) := by
  have hok : reply.ok = true →
      b.handle task reply clock = (b.landed task reply).emit (.succeeded task.what) := by
    intro hok
    unfold handle
    rw [if_neg (by rw [hok]; simp)]
  have haside : Aside (b.landed task reply) ((b.landed task reply).emit (.succeeded task.what)) :=
    emit_aside _
  -- What a listing brings and what the state on screen brings was owed under their own names.
  by_cases hlisting : task = .accounts
  · subst hlisting
    rw [hok (hanswered (.inl rfl))] at hselects ⊢
    obtain ⟨haccounts, tasks, hstarts, hlisted⟩ := accountsLanded_cases hopen reply
    have hall := hstarts.trans haside.starts
    rw [List.append_nil] at hall
    have howes := h.listed haccounts hlisted hselects
    exact ⟨tasks, hall, howes.view haside.view⟩
  by_cases hstate : task = .state b.selectedAddress
  · subst hstate
    rw [hok (hanswered (.inr ⟨_, rfl⟩))] at hselects ⊢
    obtain ⟨hstarts, hplace, hdrawn⟩ := stateLanded_drawn (b := b) reply
    have howes := h.drawn hplace hdrawn (hselects hplace.selection)
    rw [← List.append_nil rest] at howes
    exact ⟨[], hstarts.trans haside.starts, howes.view haside.view⟩
  obtain ⟨tasks, hhandled⟩ : ∃ tasks, Handled task reply b (b.handle task reply clock) tasks :=
    handle_handled hopen clock fun _ => ⟨hlisting, hstate⟩
  refine ⟨tasks, hhandled.starts, ?_⟩
  -- Any other reply has the accounts listed or the log read again, or nothing was owed of it.
  by_cases hreloads : task.reloads reply = true
  · exact h.reload hlisting hreloads hhandled.turned (hhandled.reloads hreloads) hselects
  · have hsilent : (Item.posted task (some reply)).returns = false := by
      rw [posted_returns, decide_eq_false hlisting]
      simpa using hreloads
    refine (h.drop hsilent ?_).turned hhandled.turned hselects
    by_cases hother : ∃ address, task = .state address
    · obtain ⟨address, rfl⟩ := hother
      exact if_neg fun heq => hstate (congrArg Task.state heq)
    · exact draws_of_silent hsilent hother (by simp)

/-! ### The worker -/

variable {posted : List (Task × Option Reply)} {queued : List Task} {task : Task}

/-- The calls to come, with one the worker has. -/
def around (posted : List (Task × Option Reply)) (item : Item) (queued : List Task) : List Item :=
  posted.map (fun p => .posted p.1 p.2) ++ item :: queued.map .queued

theorem mem_around {item x : Item} (h : x ∈ around posted item queued) : x = item ∨
    x ∈ posted.map (fun p => .posted p.1 p.2) ∨ x ∈ queued.map Item.queued := by
  unfold around at h
  rw [List.mem_append, List.mem_cons] at h
  rcases h with h | h | h
  · exact .inr (.inl h)
  · exact .inl h
  · exact .inr (.inr h)

theorem around_of_ne {item item' x : Item} (h : x ∈ around posted item queued) (hne : x ≠ item) :
    x ∈ around posted item' queued := by
  unfold around
  rw [List.mem_append, List.mem_cons]
  rcases mem_around h with heq | hmem | hmem
  · exact absurd heq hne
  · exact .inl hmem
  · exact .inr (.inr hmem)

theorem mem_around_self {item : Item} : item ∈ around posted item queued :=
  List.mem_append_right _ List.mem_cons_self

theorem around_length {item item' : Item} :
    (around posted item queued).length = (around posted item' queued).length := by
  unfold around
  rw [List.length_append, List.length_append, List.length_cons, List.length_cons]

/-- A call the worker has that will have the accounts listed. -/
theorem of_returns {item : Item} (hlists : ∃ r, item.lists lib l = some r ∧ r)
    (hdraws : item.draws lib l b = some True) (hreturns : item.returns = true)
    (hreadable : Readable hs b (around posted item queued))
    (hne : ∀ x ∈ around posted item queued, ∀ address, x.task = .state address → address ≠ "") :
    Owes lib l hs b (around posted item queued) := by
  obtain ⟨r, hr, htrue⟩ := hlists
  exact {
    listable := .inl (Settles.of_truth hr htrue (queued_lists queued))
    selectable := .inr (.inl ⟨item, mem_around_self, hreturns⟩)
    drawable := Settles.of_truth hdraws trivial (queued_draws queued)
    readable := hreadable
    state_ne := hne }

/-- A call the worker has that will not, in place of one that would not. -/
theorem of_silent {item item' : Item} (h : Owes lib l hs b (around posted item queued))
    (hsilent : item.returns = false) (hposted : ∀ reply, item ≠ .posted .accounts (some reply))
    (hsilent' : item'.returns = false)
    (hfresh : ∀ address, item ≠ .queued (.refresh address b.selection))
    (hdraws : item'.draws lib l b = item.draws lib l b ∨ ∃ r, item'.draws lib l b = some r ∧ r)
    (hreadable : Readable hs b (around posted item' queued)) (htask : item'.task = item.task) :
    Owes lib l hs b (around posted item' queued) := by
  have hkept : Fresh b.selection (around posted item queued) →
      Fresh b.selection (around posted item' queued) := by
    rintro ⟨address, hmem⟩
    exact ⟨address, around_of_ne hmem (hfresh address).symm⟩
  refine ⟨?_, ?_, ?_, hreadable, ?_⟩
  · rcases h.listable with hsettles | ⟨hread, hall⟩
    · refine .inl (Settles.replace hsettles (.inl ?_) (queued_lists queued))
      rw [lists_eq_none.mpr hsilent, lists_eq_none.mpr hsilent']
    · refine .inr ⟨hkept hread, fun x hmem => ?_⟩
      by_cases hx : x = item'
      · rw [hx]
        exact hsilent'
      · exact hall x (around_of_ne hmem hx)
  · rcases h.selectable with hlisted | ⟨x, hmem, hreturns⟩ | hread
    · exact .inl hlisted
    · have hne : x ≠ item := by
        rintro rfl
        rw [hsilent] at hreturns
        cases hreturns
      exact .inr (.inl ⟨x, around_of_ne hmem hne, hreturns⟩)
    · exact .inr (.inr (hkept hread))
  · exact Settles.replace h.drawable hdraws (queued_draws queued)
  · intro x hmem address haddress
    by_cases hx : x = item'
    · rw [hx, htask] at haddress
      exact h.state_ne item mem_around_self address haddress
    · exact h.state_ne x (around_of_ne hmem hx) address haddress

/-- A call that is taken up. -/
theorem begun (h : Owes lib l hs b (around posted (.queued task) queued))
    (hbegan : task.wanted b = true → h'.began = some task) (hselects : h'.selects = false) :
    Owes lib l (hs ++ [h']) b (around posted (.running task (task.wanted b)) queued) := by
  have hreadable : Readable (hs ++ [h']) b
      (around posted (.running task (task.wanted b)) queued) := by
    intro hready hne
    rcases h.readable hready hne with hread | hqueued | ⟨selection, hrunning, hbegun⟩
    · exact .inl (hread.more hselects)
    · by_cases htask : Item.queued (.refresh b.selectedAddress b.selection) = .queued task
      · have htask' := Item.queued.inj htask
        subst htask'
        have hwanted : (Task.refresh b.selectedAddress b.selection).wanted b = true :=
          decide_eq_true rfl
        refine .inr (.inr ⟨b.selection, ?_, hs, h', [], rfl, hbegan hwanted, by simp⟩)
        rw [hwanted]
        exact mem_around_self
      · exact .inr (.inl (around_of_ne hqueued htask))
    · exact .inr (.inr ⟨selection, around_of_ne hrunning (by simp), hbegun.more hselects⟩)
  have hne : ∀ x ∈ around posted (.running task (task.wanted b)) queued, ∀ address,
      x.task = .state address → address ≠ "" := by
    intro x hmem address haddress
    by_cases hx : x = .running task (task.wanted b)
    · subst hx
      exact h.state_ne _ mem_around_self address haddress
    · exact h.state_ne x (around_of_ne hmem hx) address haddress
  -- A call whose reply will be handled brings what it was to bring; one given up brings nothing.
  by_cases hreturns : (Item.running task (task.wanted b)).returns = true
  · refine of_returns ⟨True, lists_eq_some (by simp) hreturns, trivial⟩ ?_ hreturns hreadable hne
    refine draws_of_returns hreturns ?_
    rintro ⟨address, rfl⟩
    cases hreturns
  · have hreturns' : (Item.running task (task.wanted b)).returns = false := by simpa using hreturns
    have hmore := h.more hselects
    cases task with
    | accounts => cases hreturns'
    | publish address => cases hreturns'
    | refresh address selection =>
      -- Only a read started for an earlier selection is given up.
      have hstale : selection ≠ b.selection := by
        rintro rfl
        simp [Item.returns, Task.wanted, Task.returns] at hreturns'
      refine of_silent hmore rfl (by simp) hreturns' (fun address' heq => ?_) (.inl ?_)
        hreadable rfl
      · obtain ⟨-, rfl⟩ := Task.refresh.inj (Item.queued.inj heq)
        exact hstale rfl
      · have hrunning : (Item.running (.refresh address selection)
            ((Task.refresh address selection).wanted b)).draws lib l b =
              if (Item.running (.refresh address selection)
                ((Task.refresh address selection).wanted b)).returns = true then some True
              else none := rfl
        have hqueued : (Item.queued (.refresh address selection)).draws lib l b =
          if selection = b.selection then some True else none := rfl
        rw [hrunning, hqueued, hreturns', if_neg hstale, if_neg (by simp)]
    | _ => exact of_silent hmore rfl (by simp) hreturns' (by simp) (.inl rfl) hreadable rfl

/-- One that is not wanted ends. -/
theorem skipped (h : Owes lib l hs b (around posted (.running task false) queued)) :
    Owes lib l hs b (around posted (.posted task none) queued) := by
  have hdraws : ∀ item : Item, item = .running task false ∨ item = .posted task none →
      item.draws lib l b = none := by
    rintro item (rfl | rfl)
    · cases task <;> rfl
    · cases task <;> rfl
  refine of_silent h rfl (by simp) rfl (by simp) (.inl ?_) ?_ rfl
  · rw [hdraws _ (.inl rfl), hdraws _ (.inr rfl)]
  · intro hready hne
    rcases h.readable hready hne with hread | hqueued | ⟨selection, hrunning, hbegun⟩
    · exact .inl hread
    · exact .inr (.inl (around_of_ne hqueued (by simp)))
    · exact .inr (.inr ⟨selection, around_of_ne hrunning (by simp), hbegun⟩)

/-- One the library answers. -/
theorem finished {reply : Reply} (h : Owes lib l hs b (around posted (.running task true) queued))
    (hlaws : lib.Laws) (hanswers : lib.Answers task l reply l')
    (hshown : (task = .accounts ∨ ∃ address, task = .state address) → reply.ok = true)
    (hran : h'.ran = some task) (hselects : h'.selects = false) :
    Owes lib l' (hs ++ [h']) b (around posted (.posted task (some reply)) queued) := by
  have hreadable : Readable (hs ++ [h']) b (around posted (.posted task (some reply)) queued) := by
    intro hready hne
    rcases h.readable hready hne with hread | hqueued | ⟨selection, hrunning, hbegun⟩
    · exact .inl (hread.more hselects)
    · exact .inr (.inl (around_of_ne hqueued (by simp)))
    · by_cases htask : Item.running (.refresh b.selectedAddress selection) true = .running task true
      · obtain ⟨rfl, -⟩ := Item.running.inj htask
        left
        refine ⟨hs, h', [], selection, rfl, hbegun, hran, fun x hx => ?_⟩
        rw [List.mem_singleton.mp hx]
        exact hselects
      · exact .inr (.inr ⟨selection, around_of_ne hrunning htask, hbegun.more hselects⟩)
  have hne : ∀ x ∈ around posted (.posted task (some reply)) queued, ∀ address,
      x.task = .state address → address ≠ "" := by
    intro x hmem address haddress
    by_cases hx : x = .posted task (some reply)
    · subst hx
      exact h.state_ne _ mem_around_self address haddress
    · exact h.state_ne x (around_of_ne hmem hx) address haddress
  have hrest : task ≠ .accounts → task.reloads reply = false → lib.Same l l' →
      Owes lib l' (hs ++ [h']) b (around posted (.posted task (some reply)) queued) := by
    intro hlisting hreloads hsame
    have hmore := (h.same hsame).more hselects
    have hsilent : (Item.running task true).returns = false := by
      cases task <;> first | rfl | exact absurd rfl hlisting | cases hreloads
    have hsilent' : (Item.posted task (some reply)).returns = false := by
      rw [posted_returns, hreloads, Bool.or_false]
      exact decide_eq_false hlisting
    refine of_silent hmore hsilent (by simp) hsilent' (by simp) ?_ hreadable rfl
    by_cases hstate : ∃ address, task = .state address
    · obtain ⟨address, rfl⟩ := hstate
      have hcurrent : reply.state = lib.screen l' address := by
        obtain ⟨hsame', hanswer⟩ := hlaws.state hanswers
        rw [hsame'.2]
        exact hanswer (hshown (.inr ⟨address, rfl⟩))
      by_cases hselected : address = b.selectedAddress
      · exact .inr ⟨_, if_pos hselected, hcurrent⟩
      · left
        have hposted : (Item.posted (.state address) (some reply)).draws lib l' b = none :=
          if_neg hselected
        have hrunning : (Item.running (.state address) true).draws lib l' b = none :=
          if_neg hselected
        rw [hposted, hrunning]
    · left
      rw [draws_of_silent hsilent hstate (by simp), draws_of_silent hsilent' hstate (by simp)]
  by_cases hlisting : task = .accounts
  · subst hlisting
    obtain ⟨hsame, hanswer⟩ := hlaws.accounts hanswers
    have hcurrent : reply.accounts = lib.listing l' := by
      rw [hsame.1]
      exact hanswer (hshown (.inl rfl))
    exact of_returns ⟨_, rfl, hcurrent⟩ rfl rfl hreadable hne
  · by_cases hreloads : task.reloads reply = true
    · have hreturns : (Item.posted task (some reply)).returns = true := by
        rw [posted_returns, hreloads, Bool.or_true]
      refine of_returns ⟨True, lists_eq_some ?_ hreturns, trivial⟩ ?_ hreturns hreadable hne
      · intro reply' heq
        exact hlisting (Item.posted.inj heq).1
      · refine draws_of_returns hreturns ?_
        rintro ⟨address, rfl⟩
        cases hreloads
    · have hreloads' : task.reloads reply = false := by simpa using hreloads
      refine hrest hlisting hreloads' ?_
      -- What has nothing listed again either only reads, or was refused.
      by_cases hrefused : task.allOrNothing = true ∧ reply.ok = false
      · exact hlaws.failed hanswers hrefused.1 hrefused.2
      · cases task with
        | accounts => exact absurd rfl hlisting
        | state address => exact (hlaws.state hanswers).1
        | exportAccount address password => exact hlaws.exportAccount hanswers
        | refresh address selection => cases hreloads'
        | publish address => cases hreloads'
        | _ => exact absurd ⟨rfl, hreloads'⟩ hrefused

end Owes

/-! ### Runs -/

/-- What holds of every state of a run. -/
structure Inv (lib : Library L) (hs : List (Happened L)) (s : UiHost L) : Prop where
  coreOpen : s.app.coreOpen = true
  inFlight : s.app.inFlight = s.items.length
  busy : s.app.busy = false → s.app.inFlight = 0
  /-- A listing or a state that came back was not refused. -/
  answered : ∀ task reply, .posted task (some reply) ∈ s.items →
    (task = .accounts ∨ ∃ address, task = .state address) → reply.ok = true
  owes : Owes lib s.library hs s.app s.items

theorem ended_eq (b : Backend) : b.ended =
    { b with
      inFlight := b.inFlight - 1, busy := if b.inFlight - 1 = 0 then false else b.busy } := by
  unfold ended
  dsimp only
  split <;> rfl

theorem ended_view (b : Backend) : SameView b b.ended := by
  rw [ended_eq]
  exact ⟨⟨rfl, rfl, rfl, rfl⟩, rfl⟩

variable {s s' : UiHost L} {event : UiHost.Event}

theorem Happened.selects_eq (h : h'.after.app.selection = h'.before.app.selection) :
    h'.selects = false := by
  unfold Happened.selects
  simp [h]

variable {posted : List (Task × Option Reply)} {task : Task} {clock : String}

theorem items_posted {reply : Option Reply} (h : s.replies = (task, reply) :: posted) :
    s.items = .posted task reply :: UiHost.items { s with replies := posted } := by
  unfold UiHost.items
  rw [h]
  rfl

theorem items_started (hpool : b.pool = s.app.pool ++ tasks) :
    UiHost.items { s with app := b } = s.items ++ tasks.map .queued := by
  unfold UiHost.items
  rw [hpool, List.map_append, ← List.append_assoc, ← List.append_assoc, ← List.append_assoc]

/-- What is started has no answer yet. -/
theorem answered_started (h : ∀ task reply, .posted task (some reply) ∈ items →
    (task = .accounts ∨ ∃ address, task = .state address) → reply.ok = true) :
    ∀ task reply, .posted task (some reply) ∈ items ++ tasks.map .queued →
      (task = .accounts ∨ ∃ address, task = .state address) → reply.ok = true := by
  intro task reply hmem
  rcases List.mem_append.mp hmem with hmem | hmem
  · exact h task reply hmem
  · obtain ⟨task', -, heq⟩ := List.mem_map.mp hmem
    cases heq

theorem Step.next {answer : Task → L → Reply × L}
    (hanswer : ∀ task l, lib.Answers task l (answer task l).1 (answer task l).2)
    (h : s.next answer clock = some h') :
    h'.before = s ∧ UiHost.Step lib h'.event s h'.after := by
  unfold UiHost.next at h
  split at h
  · next hposted =>
    obtain rfl := Option.some.inj h
    exact ⟨rfl, .land clock hposted⟩
  · next hrunning =>
    obtain rfl := Option.some.inj h
    exact ⟨rfl, .finish hrunning (hanswer _ _)⟩
  · next hrunning =>
    obtain rfl := Option.some.inj h
    exact ⟨rfl, .skip hrunning⟩
  · next hidle hpool =>
    obtain rfl := Option.some.inj h
    exact ⟨rfl, .begin hidle hpool⟩
  · cases h

theorem UiHost.Played.ask {start : UiHost L} {r : Run L} (h : Played lib start r.1 r.2)
    (slot : Slot) : Played lib start (r.ask slot).1 (r.ask slot).2 :=
  .step h (.slot slot r.2)

theorem UiHost.Played.goOn {answer : Task → L → Reply × L} {start : UiHost L} {r : Run L}
    (hanswer : ∀ task l, lib.Answers task l (answer task l).1 (answer task l).2)
    (h : Played lib start r.1 r.2) (n : ℕ) :
    Played lib start (r.goOn answer clock n).1 (r.goOn answer clock n).2 := by
  induction n generalizing r with
  | zero => exact h
  | succ n ih =>
    unfold Run.goOn
    split
    · exact h
    · next h' hnext =>
      obtain ⟨hbefore, hstep⟩ := Step.next hanswer hnext
      have hmore := Played.step h hstep
      rw [← hbefore] at hmore
      exact ih hmore

namespace Inv

/-- A turn of the view's thread, with what it starts and the calls there were. -/
theorem turn {tasks : List Task} (hopen : b.coreOpen = true) (hcount : b.inFlight = items.length)
    (hstarts : Starts b b' tasks) : b'.coreOpen = true ∧
      b'.inFlight = (items ++ tasks.map Item.queued).length ∧
      (b'.busy = false → (b.busy = false → b.inFlight = 0) → b'.inFlight = 0) := by
  refine ⟨hstarts.coreOpen.trans hopen, ?_, fun hidle hbusy => ?_⟩
  · rw [hstarts.inFlight, hcount, List.length_append, List.length_map]
  · rcases hstarts.busy with hyes | ⟨rfl, hsame⟩
    · rw [hyes] at hidle
      cases hidle
    · have hnone := hbusy (hsame.symm.trans hidle)
      have hsum := hstarts.inFlight
      rw [List.length_nil] at hsum
      omega

theorem slot (h : Inv lib hs s) (slot : Slot)
    (hs' : s' = { s with app := s.app.slot slot }) :
    Inv lib (hs ++ [⟨.slot slot, s, s'⟩]) s' := by
  subst hs'
  obtain ⟨tasks, hstarts, hturned⟩ := slot_turn h.coreOpen slot
  obtain ⟨hopen, hcount, hbusy⟩ := turn h.coreOpen h.inFlight hstarts
  have hitems := items_started (s := s) hstarts.pool
  refine ⟨hopen, by rw [hitems]; exact hcount, fun hidle => hbusy hidle h.busy, ?_, ?_⟩
  · rw [hitems]
    exact answered_started h.answered
  · rw [hitems]
    exact h.owes.turned hturned fun hsame => Happened.selects_eq hsame

theorem ended_idle (hbusy : b.busy = false → b.inFlight = 0) (hidle : b.ended.busy = false) :
    b.ended.inFlight = 0 := by
  rw [ended_eq] at hidle ⊢
  dsimp only at hidle ⊢
  split at hidle
  · assumption
  · rw [hbusy hidle]

/-- A reply that lands. -/
theorem land {reply : Reply} (h : Inv lib hs s)
    (hposted : s.replies = (task, some reply) :: posted)
    (hs' : s' = { s with app := s.app.land task (some reply) clock, replies := posted }) :
    Inv lib (hs ++ [⟨.land clock, s, s'⟩]) s' := by
  have hitems := items_posted hposted
  have howes := h.owes
  have hcount := h.inFlight
  have hanswered := h.answered
  rw [hitems] at howes hcount hanswered
  have hview := ended_view (s.app.handle task reply clock)
  have happ : s'.app = (s.app.handle task reply clock).ended := by
    rw [hs']
    exact land_some task reply clock
  have hselects : (s.app.handle task reply clock).selection = s.app.selection →
      Happened.selects ⟨.land clock, s, s'⟩ = false := by
    intro hsame
    refine Happened.selects_eq ?_
    show s'.app.selection = s.app.selection
    rw [happ, hview.selection, hsame]
  obtain ⟨tasks, hstarts, hafter⟩ :=
    howes.handled h.coreOpen (hanswered task reply List.mem_cons_self) hselects
  have hitems' : s'.items =
      UiHost.items { s with replies := posted } ++ tasks.map .queued := by
    rw [hs', land_some, ended_eq]
    exact items_started (s := { s with replies := posted }) hstarts.pool
  have hbusy : (s.app.handle task reply clock).busy = false →
      (s.app.handle task reply clock).inFlight = 0 :=
    fun hidle => (turn h.coreOpen h.inFlight hstarts).2.2 hidle h.busy
  refine ⟨?_, ?_, ?_, ?_, ?_⟩
  · rw [happ, ended_eq]
    exact hstarts.coreOpen.trans h.coreOpen
  · rw [hitems', happ, ended_eq, List.length_append, List.length_map]
    show (s.app.handle task reply clock).inFlight - 1 = _
    rw [hstarts.inFlight, hcount, List.length_cons]
    omega
  · rw [happ]
    exact ended_idle hbusy
  · rw [hitems']
    exact answered_started fun task' reply' hmem =>
      hanswered task' reply' (List.mem_cons_of_mem _ hmem)
  · have hlibrary : s'.library = s.library := by rw [hs']
    rw [hitems', happ, hlibrary]
    exact hafter.view hview

/-- A call no longer wanted that lands. -/
theorem landNone (h : Inv lib hs s) (hposted : s.replies = (task, none) :: posted)
    (hs' : s' = { s with app := s.app.land task none clock, replies := posted }) :
    Inv lib (hs ++ [⟨.land clock, s, s'⟩]) s' := by
  have hitems := items_posted hposted
  have howes := h.owes
  have hcount := h.inFlight
  have hanswered := h.answered
  rw [hitems] at howes hcount hanswered
  have hview := ended_view s.app
  have happ : s'.app = s.app.ended := by
    rw [hs']
    rfl
  have hitems' : s'.items = UiHost.items { s with replies := posted } := by
    rw [hs']
    show UiHost.items { s with app := s.app.ended, replies := posted } = _
    rw [ended_eq]
    rfl
  refine ⟨?_, ?_, ?_, ?_, ?_⟩
  · rw [happ, ended_eq]
    exact h.coreOpen
  · rw [hitems', happ, ended_eq]
    show s.app.inFlight - 1 = _
    rw [hcount, List.length_cons, Nat.add_sub_cancel]
  · rw [happ]
    exact ended_idle h.busy
  · rw [hitems']
    exact fun task' reply' hmem => hanswered task' reply' (List.mem_cons_of_mem _ hmem)
  · have hdraws : (Item.posted task none).draws lib s.library s.app = none := by
      cases task <;> rfl
    have hselects : Happened.selects ⟨.land clock, s, s'⟩ = false := by
      refine Happened.selects_eq ?_
      show s'.app.selection = s.app.selection
      rw [happ, hview.selection]
    have hlibrary : s'.library = s.library := by rw [hs']
    rw [hitems', happ, hlibrary]
    exact ((howes.drop rfl hdraws).view hview).more hselects

/-- A call taken up. -/
theorem begun {rest : List Task} (h : Inv lib hs s) (hidle : s.running = none)
    (hpool : s.app.pool = task :: rest) (hs' : s' = { s with
      app := { s.app with pool := rest }
      running := some (task, task.wanted s.app) }) : Inv lib (hs ++ [⟨.begin, s, s'⟩]) s' := by
  have hitems : s.items = Owes.around s.replies (.queued task) rest := by
    unfold UiHost.items Owes.around
    rw [hidle, hpool]
    rfl
  have hitems' : s'.items = Owes.around s.replies (.running task (task.wanted s.app)) rest := by
    rw [hs']
    rfl
  have hsame : SameView s.app s'.app := by
    rw [hs']
    exact ⟨⟨rfl, rfl, rfl, rfl⟩, rfl⟩
  have howes := h.owes
  have hcount := h.inFlight
  have hanswered := h.answered
  rw [hitems] at howes hcount hanswered
  have hbegan : task.wanted s.app = true → Happened.began ⟨.begin, s, s'⟩ = some task := by
    intro hwanted
    unfold Happened.began
    dsimp only
    rw [hpool]
    exact if_pos hwanted
  have hbegun := howes.begun hbegan (Happened.selects_eq hsame.selection)
  have hlibrary : s'.library = s.library := by rw [hs']
  refine ⟨?_, ?_, ?_, ?_, ?_⟩
  · rw [hs']
    exact h.coreOpen
  · rw [hitems', hs']
    show s.app.inFlight = _
    rw [hcount]
    exact Owes.around_length
  · rw [hs']
    exact h.busy
  · rw [hitems']
    intro task' reply hmem
    exact hanswered task' reply (Owes.around_of_ne hmem (by simp))
  · rw [hitems', hlibrary]
    exact hbegun.view hsame

/-- A call that is over, on the worker. -/
theorem posts {answer : Option Reply} {wanted : Bool} (h : Inv lib hs s)
    (hrunning : s.running = some (task, wanted))
    (hs' : s' = { s with
      running := none
      replies := s.replies ++ [(task, answer)]
      library := s'.library })
    (hanswer : ∀ reply, answer = some reply →
      (task = .accounts ∨ ∃ address, task = .state address) → reply.ok = true)
    (howes : Owes lib s.library hs s.app
        (Owes.around s.replies (.running task wanted) s.app.pool) →
      Owes lib s'.library (hs ++ [⟨event, s, s'⟩]) s.app
        (Owes.around s.replies (.posted task answer) s.app.pool)) :
    Inv lib (hs ++ [⟨event, s, s'⟩]) s' := by
  have hitems : s.items = Owes.around s.replies (.running task wanted) s.app.pool := by
    unfold UiHost.items Owes.around
    rw [hrunning]
    rfl
  have hitems' : s'.items = Owes.around s.replies (.posted task answer) s.app.pool := by
    rw [hs']
    unfold UiHost.items Owes.around
    rw [List.map_append, List.append_assoc]
    rfl
  have happ : s'.app = s.app := by rw [hs']
  have hcount := h.inFlight
  have hanswered := h.answered
  have hinv := h.owes
  rw [hitems] at hcount hanswered hinv
  refine ⟨by rw [happ]; exact h.coreOpen, ?_, by rw [happ]; exact h.busy, ?_, ?_⟩
  · rw [hitems', happ, hcount]
    exact Owes.around_length
  · rw [hitems']
    intro task' reply hmem
    by_cases hsame : Item.posted task' (some reply) = .posted task answer
    · obtain ⟨rfl, hreply⟩ := Item.posted.inj hsame
      exact hanswer reply hreply.symm
    · exact hanswered task' reply (Owes.around_of_ne hmem hsame)
  · rw [hitems', happ]
    exact howes hinv

/-- One event. -/
theorem step (h : Inv lib hs s) (hlaws : lib.Laws) (hstep : UiHost.Step lib event s s')
    (hshown : Happened.shown ⟨event, s, s'⟩ = true) : Inv lib (hs ++ [⟨event, s, s'⟩]) s' := by
  cases hstep with
  | slot slot => exact h.slot slot rfl
  | begin hidle hpool => exact h.begun hidle hpool rfl
  | skip hrunning =>
    refine h.posts hrunning rfl (fun reply heq => by cases heq) fun howes => ?_
    exact howes.skipped.more (Happened.selects_eq rfl)
  | @finish _ task reply l hrunning hanswers =>
    have hran : Happened.ran ⟨.finish reply, s, { s with
        running := none, replies := s.replies ++ [(task, some reply)], library := l }⟩ =
        some task := by
      unfold Happened.ran
      dsimp only
      rw [hrunning]
    have hok : (task = .accounts ∨ ∃ address, task = .state address) → reply.ok = true := by
      rintro (rfl | ⟨address, rfl⟩)
      · unfold Happened.shown at hshown
        rwa [hran] at hshown
      · unfold Happened.shown at hshown
        rwa [hran] at hshown
    refine h.posts hrunning rfl (fun reply' heq => ?_) fun howes => ?_
    · obtain rfl := Option.some.inj heq
      exact hok
    · exact howes.finished hlaws hanswers hok hran (Happened.selects_eq rfl)
  | @land _ task reply rest clock hposted =>
    cases reply with
    | none => exact h.landNone hposted rfl
    | some reply => exact h.land hposted rfl

theorem start (vault : String) (l : L) : Inv lib [] (UiHost.start true vault l) where
  coreOpen := rfl
  inFlight := rfl
  busy h := by cases h
  answered task reply hmem := by
    obtain hmem := List.mem_singleton.mp hmem
    cases hmem
  owes := {
    listable := .inl (settles_of_accounts (List.mem_singleton_self _))
    selectable := .inr (.inl ⟨_, List.mem_singleton_self _, rfl⟩)
    drawable := Drawable.of_mem (List.mem_singleton_self _) (.inr (.inr rfl))
    readable := fun hready => by cases hready
    state_ne := fun item hmem address htask => by
      rw [List.mem_singleton.mp hmem] at htask
      cases htask }

theorem run {vault : String} {l : L} (hlaws : lib.Laws)
    (hrun : Played lib (UiHost.start true vault l) hs s) (hshown : ∀ h ∈ hs, h.shown = true) :
    Inv lib hs s := by
  induction hrun with
  | nil => exact .start vault l
  | @step hs s s' event _ hstep ih =>
    have hinv := ih fun h hmem => hshown h (List.mem_append_left _ hmem)
    exact hinv.step hlaws hstep (hshown _ (List.mem_append_right _ (List.mem_singleton_self _)))

end Inv

/-- What is drawn is what the library has, and nothing is still to come. -/
structure Coherent (lib : Library L) (hs : List (Happened L)) (s : UiHost L) : Prop where
  pool : s.app.pool = []
  running : s.running = none
  replies : s.replies = []
  accountsJson : s.app.accountsJson = lib.listing s.library
  selected : s.app.selectedAddress ∈ s.app.accountsJson.map (·.address) ∨
    s.app.selectedAddress = ""
  selected_iff : s.app.selectedAddress = "" ↔ s.app.accountsJson = []
  stateJson : s.app.stateJson =
    if s.app.selectedAddress = "" then none else lib.screen s.library s.app.selectedAddress
  read : s.app.contextReady = true → s.app.selectedAddress ≠ "" →
    ReadSince hs s.app.selectedAddress

/-- Whatever is asked for, in whatever order it comes back, what is drawn is what the library has
once the backend is not busy, as long as the library did not refuse to show it. -/
theorem screen_is_coherent {vault : String} {l : L} (hlaws : lib.Laws)
    (hrun : Played lib (UiHost.start true vault l) hs s) (hshown : ∀ h ∈ hs, h.shown = true)
    (hidle : s.app.busy = false) : Coherent lib hs s := by
  have hinv := Inv.run hlaws hrun hshown
  have hnone : s.items = [] := by
    rw [← List.length_eq_zero_iff, ← hinv.inFlight]
    exact hinv.busy hidle
  -- Nothing is in flight, so nothing is to come, and what was owed is there.
  have hparts := hnone
  unfold UiHost.items at hparts
  rw [List.append_eq_nil_iff, List.append_eq_nil_iff, List.map_eq_nil_iff, List.map_eq_nil_iff,
    List.map_eq_nil_iff] at hparts
  obtain ⟨hreplies, hrunning, hpool⟩ := hparts
  have howes := hinv.owes
  rw [hnone] at howes
  have hlisting : s.app.accountsJson = lib.listing s.library := by
    rcases howes.listable with hsettles | ⟨⟨address, hmem⟩, -⟩
    · exact hsettles
    · cases hmem
  have honlist : OnList s.app := by
    rcases howes.selectable with honlist | ⟨item, hmem, -⟩ | ⟨address, hmem⟩
    · exact honlist
    · cases hmem
    · cases hmem
  exact {
    pool := hpool
    running := by simpa using hrunning
    replies := hreplies
    accountsJson := hlisting
    selected := honlist.imp_right fun h => h.1
    selected_iff := by
      rcases honlist with hmem | ⟨hnone, hrows⟩
      · obtain ⟨row, hrow, haddress⟩ := List.mem_map.mp hmem
        have hnamed := hlaws.named s.library row (hlisting ▸ hrow)
        rw [haddress] at hnamed
        refine ⟨fun heq => absurd heq hnamed, fun hrows => ?_⟩
        rw [hrows] at hrow
        cases hrow
      · exact ⟨fun _ => hrows, fun _ => hnone⟩
    stateJson := howes.drawable
    read := by
      intro hready hne
      rcases howes.readable hready hne with hread | hmem | ⟨selection, hmem, -⟩
      · exact hread
      · cases hmem
      · cases hmem }

/-- What a library answers that observes one account, over a vault that cannot be written. -/
def answerReadOnly (row : AccountSummary) (state : AccountState) : Task → Reply
  | .accounts => { ok := true, accounts := [row] }
  | .state address =>
    if address = row.address then { ok := true, state := some state }
    else { error := "this app does not have the account" }
  | .refresh .. => { ok := true }
  | _ => { error := "the vault cannot be written" }

def Library.readOnly (row : AccountSummary) (state : AccountState) : Library Unit where
  Answers task _ reply _ := reply = answerReadOnly row state task
  listing _ := [row]
  screen _ address := if address = row.address then some state else none

theorem Library.readOnly_laws {row : AccountSummary} {state : AccountState}
    (hnamed : row.address ≠ "") : (Library.readOnly row state).Laws where
  named l row' hmem := by
    rw [List.mem_singleton.mp hmem]
    exact hnamed
  accounts h := by
    obtain rfl := h
    exact ⟨⟨rfl, rfl⟩, fun _ => rfl⟩
  state h := by
    obtain rfl := h
    refine ⟨⟨rfl, rfl⟩, fun hok => ?_⟩
    unfold answerReadOnly at hok ⊢
    dsimp only at hok ⊢
    split at hok
    · next heq =>
      rw [if_pos heq]
      exact (if_pos heq).symm
    · cases hok
  exportAccount _ := ⟨rfl, rfl⟩
  failed _ _ _ := ⟨rfl, rfl⟩

/-- The app, opened on a vault that observes one account, comes to rest with it on screen, its log
read. -/
theorem screen_is_coherent_opened :
    let addr : Reference.Addr := Reference.probeKey
    let row := Manager.summaryOf Crates.reference .new addr none
    let state := Manager.stateOf Crates.reference .new addr none
    let run := (Run.ask ([], UiHost.start true "/home/user/vault" ()) .contextReady).goOn
      (fun task _ => (answerReadOnly row state task, ())) "09:00:00" 20
    run.2.app.selectedAddress = row.address ∧ run.2.app.contextReady = true ∧
      Coherent (Library.readOnly row state) run.1 run.2 := by
  intro addr row state run
  have hplayed : Played (Library.readOnly row state) (UiHost.start true "/home/user/vault" ())
      run.1 run.2 :=
    ((Played.nil).ask .contextReady).goOn (fun task l => rfl) 20
  have hnamed : row.address ≠ "" := by decide +kernel
  exact ⟨by decide +kernel, by decide +kernel,
    screen_is_coherent (Library.readOnly_laws hnamed) hplayed (by decide +kernel)
      (by decide +kernel)⟩

end AccountLogUi
