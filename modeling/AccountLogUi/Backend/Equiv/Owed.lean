import AccountLogUi.Backend.Equiv.Turns
import AccountLogUi.Library.Settles

/-!
# What is still to come

The calls that are started and not handled, oldest first, are `UiHost.items`.  The listing drawn is
current once all of them are handled (`Listable`), and so is the state (`Drawable`): the last of
them to bear on it sees to that.  A read that is queued for the account on screen bears on them
too, unless the selection moves first; but who moves it has both read again.
-/

namespace AccountLogUi

open Backend UiHost

variable {L : Type} {lib : Library L} {l l' : L} {b b' : Backend}

/-! ### Calls to come -/

/-- A call that is not handled yet. -/
inductive Item
  | posted (task : Task) (reply : Option Reply)
  | running (task : Task) (wanted : Bool)
  | queued (task : Task)

def Item.task : Item → Task
  | posted task _ | running task _ | queued task => task

/-- The calls started and not handled, oldest first. -/
def UiHost.items (s : UiHost L) : List Item :=
  s.replies.map (fun posted => .posted posted.1 posted.2) ++
    (s.running.toList.map (fun taken => .running taken.1 taken.2) ++ s.app.pool.map .queued)

/-- The call lists the accounts, or has them listed once it lands. -/
def Task.returns : Task → Bool
  | .accounts | .refresh .. | .publish _ => true
  | _ => false

/-- The accounts will be listed for it, whatever is selected. -/
def Item.returns : Item → Bool
  | posted _ none => false
  | posted task (some reply) => task = .accounts || task.reloads reply
  | running task wanted => wanted && task.returns
  | queued .accounts | queued (.publish _) => true
  | queued _ => false

/-- What it makes of the listing that is drawn. -/
def Item.lists (lib : Library L) (l : L) : Item → Option Prop
  | posted .accounts (some reply) => some (reply.accounts = lib.listing l)
  | item => if item.returns then some True else none

/-- What it makes of the state that is drawn. -/
def Item.draws (lib : Library L) (l : L) (b : Backend) : Item → Option Prop
  | posted (.state address) (some reply) =>
    if address = b.selectedAddress then some (reply.state = lib.screen l address) else none
  | running (.state address) true | queued (.state address) =>
    if address = b.selectedAddress then some True else none
  | queued (.refresh _ selection) => if selection = b.selection then some True else none
  | item => if item.returns then some True else none

variable {item : Item} {items rest : List Item} {tasks : List Task}

theorem posted_returns (task : Task) (reply : Reply) :
    (Item.posted task (some reply)).returns =
      (decide (task = .accounts) || task.reloads reply) := rfl

theorem lists_eq_none : item.lists lib l = none ↔ item.returns = false := by
  unfold Item.lists
  split
  · simp [Item.returns]
  · split
    · next h => simp [h]
    · next h => simpa using h

theorem lists_eq_some (hposted : ∀ reply, item ≠ .posted .accounts (some reply))
    (hreturns : item.returns = true) : item.lists lib l = some True := by
  unfold Item.lists
  split
  · exact absurd rfl (hposted _)
  · rw [if_pos hreturns]

theorem draws_of_silent (hreturns : item.returns = false)
    (hstate : ¬∃ address, item.task = .state address)
    (hfresh : ∀ address, item ≠ .queued (.refresh address b.selection)) :
    item.draws lib l b = none := by
  unfold Item.draws
  split
  · exact absurd ⟨_, rfl⟩ hstate
  · exact absurd ⟨_, rfl⟩ hstate
  · exact absurd ⟨_, rfl⟩ hstate
  · next address selection =>
    rw [if_neg]
    rintro rfl
    exact hfresh address rfl
  · rw [if_neg (by rw [hreturns]; simp)]

theorem draws_of_returns (hreturns : item.returns = true)
    (hstate : ¬∃ address, item.task = .state address) : item.draws lib l b = some True := by
  unfold Item.draws
  split
  · exact absurd ⟨_, rfl⟩ hstate
  · exact absurd ⟨_, rfl⟩ hstate
  · exact absurd ⟨_, rfl⟩ hstate
  · cases hreturns
  · rw [if_pos hreturns]

theorem lists_same (hsame : lib.Same l l') : item.lists lib l' = item.lists lib l := by
  unfold Item.lists
  rw [hsame.1]

theorem draws_same (hsame : lib.Same l l') : item.draws lib l' b = item.draws lib l b := by
  unfold Item.draws
  rw [hsame.2]

/-- A call not taken up yet will bring what is current. -/
theorem queued_lists (tasks : List Task) :
    ∀ x ∈ tasks.map Item.queued, ∀ q ∈ x.lists lib l, q := by
  intro x hx q hq
  obtain ⟨task, -, rfl⟩ := List.mem_map.mp hx
  unfold Item.lists at hq
  split at hq
  · next heq => cases heq
  · split at hq
    · obtain rfl := Option.some.inj hq
      trivial
    · cases hq

theorem queued_draws (tasks : List Task) :
    ∀ x ∈ tasks.map Item.queued, ∀ q ∈ x.draws lib l b, q := by
  intro x hx q hq
  obtain ⟨task, -, rfl⟩ := List.mem_map.mp hx
  unfold Item.draws at hq
  split at hq
  · next heq => cases heq
  · next heq => cases heq
  · split at hq
    · obtain rfl := Option.some.inj hq
      trivial
    · cases hq
  · split at hq
    · obtain rfl := Option.some.inj hq
      trivial
    · cases hq
  · split at hq
    · obtain rfl := Option.some.inj hq
      trivial
    · cases hq

/-! ### The listing -/

/-- A read is queued for the account on screen. -/
def Fresh (selection : UInt64) (items : List Item) : Prop :=
  ∃ address, .queued (.refresh address selection) ∈ items

/-- The listing drawn will be current. -/
def Listable (lib : Library L) (l : L) (b : Backend) (items : List Item) : Prop :=
  Settles (Item.lists lib l) (b.accountsJson = lib.listing l) items ∨
    Fresh b.selection items ∧ ∀ item ∈ items, item.returns = false

theorem mem_queued {task : Task} (h : task ∈ tasks) :
    Item.queued task ∈ items ++ tasks.map .queued :=
  List.mem_append_right _ (List.mem_map_of_mem h)

theorem settles_queued {p : Prop} (h : Settles (Item.lists lib l) p items) (tasks : List Task) :
    Settles (Item.lists lib l) p (items ++ tasks.map .queued) :=
  Settles.append.mpr (Settles.of_true (queued_lists tasks) h)

theorem settles_of_accounts {p : Prop} (h : .accounts ∈ tasks) :
    Settles (Item.lists lib l) p (items ++ tasks.map .queued) := by
  rw [Settles.append]
  refine Settles.of_mem (queued_lists tasks) (List.mem_map_of_mem h) ?_
  rw [ne_eq, lists_eq_none]
  decide

theorem Listable.same (h : Listable lib l b items) (hsame : lib.Same l l') :
    Listable lib l' b items := by
  refine h.imp_left fun hsettles => ?_
  rw [hsame.1]
  exact Settles.imp (fun item _ => lists_same hsame) hsettles

/-- Calls started bring the listing no further from being current. -/
theorem Listable.queue (h : Listable lib l b items) (haccounts : b'.accountsJson = b.accountsJson)
    (hfresh : Fresh b'.selection (items ++ tasks.map .queued) ∨ .accounts ∈ tasks ∨
      b'.selection = b.selection) :
    Listable lib l b' (items ++ tasks.map .queued) := by
  by_cases hlist : .accounts ∈ tasks
  · exact .inl (settles_of_accounts hlist)
  unfold Listable at h ⊢
  rw [haccounts]
  rcases h with hsettles | ⟨hold, hsilent⟩
  · exact .inl (settles_queued hsettles tasks)
  have hfresh' : Fresh b'.selection (items ++ tasks.map .queued) := by
    rcases hfresh with hfresh | hmem | hsame
    · exact hfresh
    · exact absurd hmem hlist
    · obtain ⟨address, hmem⟩ := hold
      rw [hsame]
      exact ⟨address, List.mem_append_left _ hmem⟩
  by_cases hreturns : ∃ item ∈ tasks.map Item.queued, item.returns = true
  · obtain ⟨item, hmem, hyes⟩ := hreturns
    refine .inl (Settles.append.mpr (Settles.of_mem (queued_lists tasks) hmem ?_))
    rw [ne_eq, lists_eq_none, hyes]
    simp
  · refine .inr ⟨hfresh', fun item hmem => ?_⟩
    rcases List.mem_append.mp hmem with hmem | hmem
    · exact hsilent item hmem
    · by_contra hyes
      exact hreturns ⟨item, hmem, by simpa using hyes⟩

/-- What is handled, and tells nothing of the listing. -/
theorem Listable.drop {task : Task} {reply : Option Reply}
    (h : Listable lib l b (.posted task reply :: rest))
    (hsilent : (Item.posted task reply).returns = false) : Listable lib l b rest := by
  rcases h with hsettles | ⟨⟨address, hmem⟩, hall⟩
  · left
    rwa [Settles.cons, lists_eq_none.mpr hsilent] at hsettles
  · refine .inr ⟨⟨address, ?_⟩, fun item hmem => hall item (List.mem_cons_of_mem _ hmem)⟩
    rcases List.mem_cons.mp hmem with heq | hmem
    · cases heq
    · exact hmem

/-- What is handled, and has the accounts listed, or the log on screen read. -/
theorem Listable.reload {task : Task} {reply : Reply} (hne : task ≠ .accounts)
    (h : Listable lib l b (.posted task (some reply) :: rest))
    (hreloads : task.reloads reply = true)
    (htasks : .accounts ∈ tasks ∨ SameView b b' ∧ tasks = [b.refreshTask]) :
    Listable lib l b' (rest ++ tasks.map .queued) := by
  rcases htasks with hlist | ⟨hview, rfl⟩
  · exact .inl (settles_of_accounts hlist)
  have hreturns : (Item.posted task (some reply)).returns = true := by
    simp [Item.returns, hreloads]
  rcases h with hsettles | ⟨-, hall⟩
  · have htells : (Item.posted task (some reply)).lists lib l = some True :=
      lists_eq_some (fun reply' heq => hne (Item.posted.inj heq).1) hreturns
    rw [Settles.cons, htells] at hsettles
    -- The read asked for is all there is to have the accounts listed, or there is more.
    rcases Settles.or_silent hsettles (b'.accountsJson = lib.listing l) with hmore | hsilent
    · exact .inl (settles_queued hmore _)
    by_cases hnone : b.selectedAddress = ""
    · refine .inl (settles_of_accounts ?_)
      unfold refreshTask
      rw [if_pos hnone]
      exact List.mem_singleton_self _
    · have htask : b.refreshTask = .refresh b.selectedAddress b.selection := by
        unfold refreshTask
        rw [if_neg hnone]
      rw [htask]
      refine .inr ⟨⟨b.selectedAddress, ?_⟩, fun item hmem => ?_⟩
      · rw [hview.selection]
        exact mem_queued (List.mem_singleton_self _)
      · rcases List.mem_append.mp hmem with hmem | hmem
        · exact lists_eq_none.mp (hsilent item hmem)
        · obtain rfl := List.mem_singleton.mp hmem
          rfl
  · rw [hall _ List.mem_cons_self] at hreturns
    cases hreturns

/-! ### The selection -/

/-- The account on screen is one listed, or there is none. -/
def OnList (b : Backend) : Prop :=
  b.selectedAddress ∈ b.accountsJson.map (·.address) ∨
    b.selectedAddress = "" ∧ b.accountsJson = []

/-- The account on screen will be one listed. -/
def Selectable (b : Backend) (items : List Item) : Prop :=
  OnList b ∨ (∃ item ∈ items, item.returns = true) ∨ Fresh b.selection items

/-- The account on screen is the same, or its log is asked for. -/
def Asked (b b' : Backend) (tasks : List Task) : Prop :=
  b'.refreshTask ∈ tasks ∨
    b'.selectedAddress = b.selectedAddress ∧ b'.selection = b.selection

/-- A log asked for is read for the account on screen, or the accounts are listed. -/
theorem fresh_of_asked (h : b'.refreshTask ∈ tasks) : .accounts ∈ tasks ∨
    .refresh b'.selectedAddress b'.selection ∈ tasks := by
  unfold refreshTask at h
  split at h
  · exact .inl h
  · exact .inr h

theorem Asked.fresh (h : Asked b b' tasks) : Fresh b'.selection (items ++ tasks.map .queued) ∨
    .accounts ∈ tasks ∨ b'.selection = b.selection := by
  rcases h with hasks | ⟨-, hsame⟩
  · rcases fresh_of_asked hasks with hlist | hread
    · exact .inr (.inl hlist)
    · exact .inl ⟨_, mem_queued hread⟩
  · exact .inr (.inr hsame)

theorem Fresh.queue {selection : UInt64} (h : Fresh selection items) (tasks : List Task) :
    Fresh selection (items ++ tasks.map .queued) := by
  obtain ⟨address, hmem⟩ := h
  exact ⟨address, List.mem_append_left _ hmem⟩

theorem Selectable.queue (h : Selectable b items) (haccounts : b'.accountsJson = b.accountsJson)
    (hasked : Asked b b' tasks) : Selectable b' (items ++ tasks.map .queued) := by
  rcases hasked with hasks | ⟨haddress, hselection⟩
  · rcases fresh_of_asked hasks with hlist | hread
    · exact .inr (.inl ⟨_, mem_queued hlist, rfl⟩)
    · exact .inr (.inr ⟨_, mem_queued hread⟩)
  · rcases h with hlisted | ⟨item, hmem, hreturns⟩ | hfresh
    · left
      unfold OnList
      rwa [haddress, haccounts]
    · exact .inr (.inl ⟨item, List.mem_append_left _ hmem, hreturns⟩)
    · exact .inr (.inr (hselection ▸ hfresh.queue tasks))

theorem Selectable.drop {task : Task} {reply : Option Reply}
    (h : Selectable b (.posted task reply :: rest))
    (hsilent : (Item.posted task reply).returns = false) : Selectable b rest := by
  rcases h with hlisted | ⟨item, hmem, hreturns⟩ | ⟨address, hmem⟩
  · exact .inl hlisted
  · rcases List.mem_cons.mp hmem with rfl | hmem
    · rw [hsilent] at hreturns
      cases hreturns
    · exact .inr (.inl ⟨item, hmem, hreturns⟩)
  · rcases List.mem_cons.mp hmem with heq | hmem
    · cases heq
    · exact .inr (.inr ⟨address, hmem⟩)

/-! ### The state -/

/-- What is to be drawn of the account on screen. -/
def current (lib : Library L) (l : L) (b : Backend) : Option AccountState :=
  if b.selectedAddress = "" then none else lib.screen l b.selectedAddress

/-- The state drawn will be current. -/
def Drawable (lib : Library L) (l : L) (b : Backend) (items : List Item) : Prop :=
  Settles (Item.draws lib l b) (b.stateJson = current lib l b) items

theorem draws_queued {task : Task} (h : task = .state b.selectedAddress ∨
    task = .refresh b.selectedAddress b.selection ∨ task = .accounts) :
    (Item.queued task).draws lib l b = some True := by
  rcases h with rfl | rfl | rfl
  · exact if_pos rfl
  · exact if_pos rfl
  · rfl

theorem Drawable.of_mem {task : Task} (hmem : task ∈ tasks) (h : task = .state b.selectedAddress ∨
    task = .refresh b.selectedAddress b.selection ∨ task = .accounts) :
    Drawable lib l b (items ++ tasks.map .queued) := by
  unfold Drawable
  rw [Settles.append]
  refine Settles.of_mem (queued_draws tasks) (List.mem_map_of_mem hmem) ?_
  rw [draws_queued h]
  simp

theorem Drawable.asked (h : b'.refreshTask ∈ tasks) :
    Drawable lib l b' (items ++ tasks.map .queued) := by
  rcases fresh_of_asked h with hlist | hread
  · exact Drawable.of_mem hlist (.inr (.inr rfl))
  · exact Drawable.of_mem hread (.inr (.inl rfl))

theorem draws_congr (haddress : b'.selectedAddress = b.selectedAddress)
    (hselection : b'.selection = b.selection) : item.draws lib l b' = item.draws lib l b := by
  unfold Item.draws
  rw [haddress, hselection]

theorem Drawable.congr (h : Drawable lib l b items)
    (haddress : b'.selectedAddress = b.selectedAddress) (hselection : b'.selection = b.selection)
    (hstate : b'.stateJson = b.stateJson) : Drawable lib l b' items := by
  unfold Drawable at h ⊢
  have hcurrent : current lib l b' = current lib l b := by
    unfold current
    rw [haddress]
  rw [hstate, hcurrent]
  exact Settles.imp (fun item _ => draws_congr haddress hselection) h

theorem Drawable.same (h : Drawable lib l b items) (hsame : lib.Same l l') :
    Drawable lib l' b items := by
  unfold Drawable current at h ⊢
  rw [hsame.2]
  exact Settles.imp (fun item _ => draws_same hsame) h

theorem Drawable.queue (h : Drawable lib l b items) (tasks : List Task) :
    Drawable lib l b (items ++ tasks.map .queued) :=
  Settles.append.mpr (Settles.of_true (queued_draws tasks) h)

/-- Where no account is on screen nothing to come draws one. -/
theorem Drawable.of_none (hnone : b.selectedAddress = "") (hstate : b.stateJson = none)
    (hne : ∀ item ∈ items, ∀ address, item.task = .state address → address ≠ "") :
    Drawable lib l b items := by
  refine Settles.of_true (fun item hmem q hq => ?_) ?_
  · have hother : ∀ address, item.task = .state address → address ≠ b.selectedAddress := by
      rw [hnone]
      exact hne item hmem
    have hcond : ∀ {c : Prop} [Decidable c], q ∈ (if c then some True else none) → q := by
      intro c _ hq
      split at hq
      · obtain rfl := Option.some.inj hq
        trivial
      · cases hq
    unfold Item.draws at hq
    split at hq
    · rw [if_neg (hother _ rfl)] at hq
      cases hq
    · exact hcond hq
    · exact hcond hq
    · exact hcond hq
    · exact hcond hq
  · rw [hstate]
    unfold current
    rw [if_pos hnone]

/-! ### The log -/

/-- The log of the account on screen has been read, or will be. -/
def Readable (hs : List (Happened L)) (b : Backend) (items : List Item) : Prop :=
  b.contextReady = true → b.selectedAddress ≠ "" → ReadSince hs b.selectedAddress ∨
    .queued (.refresh b.selectedAddress b.selection) ∈ items ∨
      ∃ selection, .running (.refresh b.selectedAddress selection) true ∈ items ∧
        BegunSince hs (.refresh b.selectedAddress selection)

variable {hs : List (Happened L)} {h' : Happened L}

theorem selects_more {later : List (Happened L)} (h : ∀ h ∈ later, h.selects = false)
    (hsame : h'.selects = false) : ∀ h ∈ later ++ [h'], h.selects = false := by
  intro x hx
  rcases List.mem_append.mp hx with hx | hx
  · exact h x hx
  · rw [List.mem_singleton.mp hx]
    exact hsame

theorem UiHost.BegunSince.more {task : Task} (h : BegunSince hs task) (hsame : h'.selects = false) :
    BegunSince (hs ++ [h']) task := by
  obtain ⟨earlier, h, later, rfl, hbegan, hlater⟩ := h
  exact ⟨earlier, h, later ++ [h'], by simp, hbegan, selects_more hlater hsame⟩

theorem UiHost.ReadSince.more {address : String} (h : ReadSince hs address)
    (hsame : h'.selects = false) :
    ReadSince (hs ++ [h']) address := by
  obtain ⟨earlier, h, later, selection, rfl, hbegun, hran, hlater⟩ := h
  exact ⟨earlier, h, later ++ [h'], selection, by simp, hbegun, hran, selects_more hlater hsame⟩

theorem Readable.more (h : Readable hs b items) (hsame : h'.selects = false) :
    Readable (hs ++ [h']) b items := by
  intro hready hne
  rcases h hready hne with hread | hqueued | ⟨selection, hrunning, hbegun⟩
  · exact .inl (hread.more hsame)
  · exact .inr (.inl hqueued)
  · exact .inr (.inr ⟨selection, hrunning, hbegun.more hsame⟩)

theorem Readable.asked (h : b'.refreshTask ∈ tasks) :
    Readable hs b' (items ++ tasks.map .queued) := by
  intro _ hne
  unfold refreshTask at h
  rw [if_neg hne] at h
  exact .inr (.inl (mem_queued h))

theorem Readable.place (h : Readable hs b items) (hplace : SamePlace b b') :
    Readable hs b' items := by
  unfold Readable
  rw [hplace.contextReady, hplace.selectedAddress, hplace.selection]
  exact h

theorem Readable.queue (h : Readable hs b items) (tasks : List Task) :
    Readable hs b (items ++ tasks.map .queued) := by
  intro hready hne
  rcases h hready hne with hread | hqueued | ⟨selection, hrunning, hbegun⟩
  · exact .inl hread
  · exact .inr (.inl (List.mem_append_left _ hqueued))
  · exact .inr (.inr ⟨selection, List.mem_append_left _ hrunning, hbegun⟩)

theorem Readable.drop {task : Task} {reply : Option Reply}
    (h : Readable hs b (.posted task reply :: rest)) : Readable hs b rest := by
  intro hready hne
  rcases h hready hne with hread | hqueued | ⟨selection, hrunning, hbegun⟩
  · exact .inl hread
  · exact .inr (.inl ((List.mem_cons.mp hqueued).resolve_left fun heq => by cases heq))
  · have hrest := (List.mem_cons.mp hrunning).resolve_left fun heq => by cases heq
    exact .inr (.inr ⟨selection, hrest, hbegun⟩)

end AccountLogUi
