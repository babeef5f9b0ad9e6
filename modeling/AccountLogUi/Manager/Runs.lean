import AccountLogUi.Manager.Steps

/-!
# Runs, operation by operation

`Run` is a run of the app with everything it performed, and `Performed` one operation of it: what
was asked, in which world, what was answered and what it left.  What an operation did to the edits
staged for an account is read off there, as numbers: `added`, `settled`, `published`, `discarded`,
`replaced`, and the drops it `answered`.
-/

namespace AccountLogUi

variable {Addr : Type}

/-- One operation of a run. -/
structure Performed (Addr : Type) where
  op : CoreOp Addr
  before : World Addr
  answer : Except (CoreError Addr) (CoreAnswer Addr)
  after : World Addr

/-- A number read off each operation, summed up. -/
def total (ps : List (Performed Addr)) (f : Performed Addr → ℕ) : ℕ := (ps.map f).sum

@[simp] theorem total_nil (f : Performed Addr → ℕ) : total [] f = 0 := rfl

theorem total_append (ps qs : List (Performed Addr)) (f : Performed Addr → ℕ) :
    total (ps ++ qs) f = total ps f + total qs f := by
  unfold total
  rw [List.map_append, List.sum_append]

@[simp] theorem total_singleton (p : Performed Addr) (f : Performed Addr → ℕ) :
    total [p] f = f p := by
  simp [total]

variable [DecidableEq Addr]

/-- An operation, performed in a world. -/
def CoreOp.perform (C : Crates Addr) (op : CoreOp Addr) (w : World Addr) : Performed Addr where
  op := op
  before := w
  answer := (op.run C w).1
  after := (op.run C w).2

/-- Several operations, performed one after another. -/
def CoreOp.performs (C : Crates Addr) : List (CoreOp Addr) → World Addr → List (Performed Addr)
  | [], _ => []
  | op :: ops, w => op.perform C w :: performs C ops (op.run C w).2

/-- A run of the app, with the operations it performed, oldest first.  Between two of them anything
may happen to the directory, the store and the clock. -/
inductive Run (C : Crates Addr) (start : World Addr) : List (Performed Addr) → World Addr → Prop
  | nil : Run C start [] start
  | elsewhere {ps : List (Performed Addr)} {w w' : World Addr} (h : Run C start ps w)
      (hcore : w'.core = w.core) : Run C start ps w'
  | op {ps : List (Performed Addr)} {w : World Addr} (op : CoreOp Addr) (h : Run C start ps w) :
      Run C start (ps ++ [op.perform C w]) (op.run C w).2

/-- How many edits are staged for an account. -/
def World.waiting (w : World Addr) (addr : Addr) : ℕ := ((w.core.staged addr).getD []).length

/-- How many dropped edits of an account no answer has counted yet. -/
def World.uncounted (w : World Addr) (addr : Addr) : ℕ := (w.core.dropped addr).getD 0

namespace Performed

variable (C : Crates Addr) (addr : Addr) (p : Performed Addr)

/-- It answered. -/
def Answered : Prop := ∃ answer, p.answer = .ok answer

/-- It forgot the account. -/
def Forgets : Prop := p.op = .forgetAccount addr ∧ p.Answered

/-- It stopped observing the account. -/
def Stops : Prop := p.op = .stopObserving addr ∧ p.Answered

/-- The dropped edits it counted in its answer. -/
def answered : ℕ :=
  match p.op, p.answer with
  | .refresh addr', .ok (.refreshed n) => if addr' = addr then n else 0
  | .publish addr', .ok (.published published) => if addr' = addr then published.dropped else 0
  | _, _ => 0

/-- It read the store for the account. -/
def reads : Bool :=
  (p.op = .refresh addr || p.op = .publish addr) && p.after.asked ≠ p.before.asked

/-- The staged edits that settling removed from the account's list, in its read of the store. -/
def settled : ℕ :=
  if p.reads addr then
    p.before.waiting addr - (p.before.readStore C addr).2.waiting addr
  else 0

/-- The staged edits it published: all that its read left, where it wrote. -/
def published : ℕ :=
  match p.op, p.answer with
  | .publish addr', .ok (.published ⟨some _, _⟩) =>
    if addr' = addr then (p.before.readStore C addr).2.waiting addr else 0
  | _, _ => 0

/-- The staged edits it discarded. -/
def discarded : ℕ :=
  match p.op, p.answer with
  | .discardPending addr', .ok _ => if addr' = addr then p.before.waiting addr else 0
  | _, _ => 0

/-- The edits it staged.  The name in force is not staged. -/
def added : ℕ :=
  match p.op, p.answer with
  | .stageAddInstallation addr' _, .ok _ => if addr' = addr then 1 else 0
  | .stageRevoke addr' _, .ok _ => if addr' = addr then 1 else 0
  | .stageSetDisplayName addr' name, .ok _ =>
    if addr' = addr ∧ (Manager.displayName name : Except (CoreError Addr) String).toOption ≠
        p.before.core.liveName C addr then 1 else 0
  | _, _ => 0

/-- The staged names it replaced or withdrew. -/
def replaced : ℕ :=
  match p.op, p.answer with
  | .stageSetDisplayName addr' _, .ok _ =>
    if addr' = addr then (((p.before.core.staged addr).getD []).filter Manager.isRename).length
    else 0
  | _, _ => 0

end Performed

/-- What a run performed since one of `ops` last went through, or since a fresh start: none of them
went through again. -/
structure Since (C : Crates Addr) (ops : List (CoreOp Addr)) (start : World Addr)
    (ps : List (Performed Addr)) : Prop where
  begins : start.core = .new ∨ ∃ op ∈ ops, ∃ w, Reachable C w ∧ (op.perform C w).Answered ∧
    start = (op.perform C w).after
  none : ∀ p ∈ ps, p.op ∈ ops → ¬p.Answered

end AccountLogUi
