import AccountLogUi.Backend.Basic

/-!
# The backend at work

The view's thread runs slots and handlers to their end, one after another; one worker runs library
calls in the order they were started, and posts what comes of them to the view's thread, where they
are handled in that order.  A handler moves the selection before it starts anything, so that a
worker that looks at it meanwhile sees nothing it could not see before the handler, or after.
-/

namespace AccountLogUi

/-- The library as the backend sees it: what a call answers and leaves, and what can be read of a
state. -/
structure Library (L : Type) where
  Answers : Task → L → Reply → L → Prop
  /-- The listing `accounts` answers with. -/
  listing : L → List AccountSummary
  /-- What `state` answers with of an account. -/
  screen : L → String → Option AccountState

variable {L : Type}

/-- The call leaves the library as it was where it is refused. -/
def Task.allOrNothing : Task → Bool
  | .refresh .. | .publish _ => false
  | _ => true

namespace Library

variable (lib : Library L)

/-- The library shows the same of both. -/
def Same (l l' : L) : Prop := lib.listing l' = lib.listing l ∧ lib.screen l' = lib.screen l

/-- A library that lists and shows what it has, and that a failed call changes nothing of, but one
that reads the store. -/
structure Laws : Prop where
  named : ∀ l, ∀ row ∈ lib.listing l, row.address ≠ ""
  accounts : ∀ {l reply l'}, lib.Answers .accounts l reply l' →
    lib.Same l l' ∧ (reply.ok = true → reply.accounts = lib.listing l)
  state : ∀ {address l reply l'}, lib.Answers (.state address) l reply l' →
    lib.Same l l' ∧ (reply.ok = true → reply.state = lib.screen l address)
  exportAccount : ∀ {address password l reply l'},
    lib.Answers (.exportAccount address password) l reply l' → lib.Same l l'
  failed : ∀ {task l reply l'}, lib.Answers task l reply l' → task.allOrNothing = true →
    reply.ok = false → lib.Same l l'

end Library

structure UiHost (L : Type) where
  app : Backend
  /-- The call the worker has taken up, and whether it is still wanted. -/
  running : Option (Task × Bool)
  /-- What was posted of the calls that are over, oldest first. -/
  replies : List (Task × Option Reply)
  library : L

/-- A read queued for an account since left is not wanted. -/
def Task.wanted : Task → Backend → Bool
  | .refresh _ selection, b => b.selection = selection
  | _, _ => true

namespace UiHost

/-- What happens next. -/
inductive Event
  | slot (slot : Slot)
  /-- The worker takes a call up. -/
  | begin
  /-- It is not wanted, and ends without a word. -/
  | skip
  /-- The library answers. -/
  | finish (reply : Reply)
  /-- What came of the oldest call is handled, at a time of day. -/
  | land (clock : String)

/-- One event. -/
inductive Step (lib : Library L) : Event → UiHost L → UiHost L → Prop
  | slot (slot : Slot) (s : UiHost L) : Step lib (.slot slot) s { s with app := s.app.slot slot }
  | begin {s : UiHost L} {task : Task} {rest : List Task} (hidle : s.running = none)
      (hpool : s.app.pool = task :: rest) :
      Step lib .begin s { s with
        app := { s.app with pool := rest }
        running := some (task, task.wanted s.app) }
  | skip {s : UiHost L} {task : Task} (hrunning : s.running = some (task, false)) :
      Step lib .skip s { s with running := none, replies := s.replies ++ [(task, none)] }
  | finish {s : UiHost L} {task : Task} {reply : Reply} {l : L}
      (hrunning : s.running = some (task, true)) (h : lib.Answers task s.library reply l) :
      Step lib (.finish reply) s { s with
        running := none
        replies := s.replies ++ [(task, some reply)]
        library := l }
  | land {s : UiHost L} {task : Task} {reply : Option Reply} {rest : List (Task × Option Reply)}
      (clock : String) (hposted : s.replies = (task, reply) :: rest) :
      Step lib (.land clock) s { s with app := s.app.land task reply clock, replies := rest }

/-- The backend just made, over a library in some state. -/
def start (coreOpen : Bool) (vault : String) (library : L) : UiHost L where
  app := .start coreOpen vault
  running := none
  replies := []
  library := library

/-- An event that happened. -/
structure Happened (L : Type) where
  event : Event
  before : UiHost L
  after : UiHost L

/-- A run, with all that happened, oldest first. -/
inductive Played (lib : Library L) (start : UiHost L) : List (Happened L) → UiHost L → Prop
  | nil : Played lib start [] start
  | step {hs : List (Happened L)} {s s' : UiHost L} {event : Event} (h : Played lib start hs s)
      (hstep : Step lib event s s') : Played lib start (hs ++ [⟨event, s, s'⟩]) s'

/-- A run so far, with all that happened. -/
abbrev Run (L : Type) := List (Happened L) × UiHost L

/-- The next event of what is in flight, the oldest call first, where the library answers so. -/
def next (answer : Task → L → Reply × L) (clock : String) (s : UiHost L) : Option (Happened L) :=
  match s.replies, s.running, s.app.pool with
  | (task, reply) :: rest, _, _ =>
    some ⟨.land clock, s, { s with app := s.app.land task reply clock, replies := rest }⟩
  | [], some (task, true), _ =>
    some ⟨.finish (answer task s.library).1, s, { s with
      running := none
      replies := s.replies ++ [(task, some (answer task s.library).1)]
      library := (answer task s.library).2 }⟩
  | [], some (task, false), _ =>
    some ⟨.skip, s, { s with running := none, replies := s.replies ++ [(task, none)] }⟩
  | [], none, task :: rest =>
    some ⟨.begin, s, { s with
      app := { s.app with pool := rest }
      running := some (task, task.wanted s.app) }⟩
  | [], none, [] => none

/-- A slot is run. -/
def Run.ask (run : Run L) (slot : Slot) : Run L :=
  (run.1 ++ [⟨.slot slot, run.2, { run.2 with app := run.2.app.slot slot }⟩],
    { run.2 with app := run.2.app.slot slot })

/-- What is in flight goes on, for some events or until nothing is. -/
def Run.goOn (answer : Task → L → Reply × L) (clock : String) : ℕ → Run L → Run L
  | 0, run => run
  | n + 1, run =>
    match run.2.next answer clock with
    | none => run
    | some h => goOn answer clock n (run.1 ++ [h], h.after)

namespace Happened

variable (h : Happened L)

/-- The call whose reply was handled, with the reply. -/
def landed : Option (Task × Reply) :=
  match h.event, h.before.replies with
  | .land _, (task, some reply) :: _ => some (task, reply)
  | _, _ => none

/-- The call the worker took up, where it is still wanted. -/
def began : Option Task :=
  match h.event, h.before.app.pool with
  | .begin, task :: _ => if task.wanted h.before.app then some task else none
  | _, _ => none

/-- The call the library answered. -/
def ran : Option Task :=
  match h.event, h.before.running with
  | .finish _, some (task, _) => some task
  | _, _ => none

/-- The library did not refuse to list the accounts, or to show one. -/
def shown : Bool :=
  match h.event, h.ran with
  | .finish reply, some .accounts | .finish reply, some (.state _) => reply.ok
  | _, _ => true

/-- The selection changed. -/
def selects : Bool := h.before.app.selection ≠ h.after.app.selection

end Happened

/-- The worker took the call up, and the selection has not changed since. -/
def BegunSince (hs : List (Happened L)) (task : Task) : Prop :=
  ∃ earlier h later, hs = earlier ++ h :: later ∧ h.began = some task ∧
    ∀ h' ∈ later, h'.selects = false

/-- The library read the store for the account, and the selection has not changed since the read
was taken up. -/
def ReadSince (hs : List (Happened L)) (address : String) : Prop :=
  ∃ earlier h later selection, hs = earlier ++ h :: later ∧
    BegunSince earlier (.refresh address selection) ∧
      h.ran = some (.refresh address selection) ∧ ∀ h' ∈ h :: later, h'.selects = false

end UiHost

end AccountLogUi
