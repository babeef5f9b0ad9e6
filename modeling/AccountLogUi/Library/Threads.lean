import AccountLogUi.Library.Prog
import Mathlib.Logic.Function.Basic
import Mathlib.Logic.Relation

/-!
# Programs interleaved over shared state

A `Threads S σ γ Op Res ι` is a system in which each process `i : ι` runs operations one after
another, every operation a program over the calls `S`, and the processes' calls interleave in any
order over one shared state `σ`.  The state of the system carries, beside what the machine has,
the protocol state of each running operation and the trace of everything that happened, newest
first; neither is read by any program.

`Threads.invariant` is the one induction over runs: an invariant that starting, calling (only what
the protocol allows) and returning preserve holds in every reachable state, where moreover every
running program keeps to the protocol from where it stands.
-/

namespace AccountLogUi

/-- What happened: a call and its answer, or an operation's return. -/
inductive Event (S : Sig) (Op Res ι : Type)
  | called (i : ι) (op : Op) (c : S.Call) (r : S.Answer c)
  | returned (i : ι) (op : Op) (res : Res)

/-- A running operation: what it is, what is left of it, and its protocol state. -/
structure Thread (S : Sig) (γ Op Res : Type) where
  op : Op
  prog : Prog S Res
  ghost : γ

/-- A system of processes. -/
structure Threads (S : Sig) (σ γ Op Res ι : Type) where
  /-- What a call of process `i` can be answered, and the shared state it leaves. -/
  exec : ι → σ → (c : S.Call) → S.Answer c → σ → Prop
  /-- The program of each operation. -/
  body : Op → Prog S Res
  /-- The protocol every operation is held to. -/
  protocol : Protocol S γ
  /-- The protocol state each operation starts in. -/
  enter : Op → γ

namespace Threads

variable {S : Sig} {σ γ Op Res ι : Type} [DecidableEq ι]

/-- The state of a system: the shared state, what each process is running, and the trace. -/
structure State (S : Sig) (σ γ Op Res ι : Type) where
  shared : σ
  running : ι → Option (Thread S γ Op Res)
  trace : List (Event S Op Res ι)

namespace State

/-- No process is running and nothing has happened. -/
def idle (s : σ) : State S σ γ Op Res ι := ⟨s, fun _ => none, []⟩

/-- Process `i` starts the operation `t`. -/
def start (s : State S σ γ Op Res ι) (i : ι) (t : Thread S γ Op Res) : State S σ γ Op Res ι :=
  { s with running := Function.update s.running i (some t) }

/-- Process `i`, running `op`, made the call `c`, was answered `r`, and goes on as `t`. -/
def called (s : State S σ γ Op Res ι) (i : ι) (op : Op) (c : S.Call) (r : S.Answer c) (s' : σ)
    (t : Thread S γ Op Res) : State S σ γ Op Res ι where
  shared := s'
  running := Function.update s.running i (some t)
  trace := .called i op c r :: s.trace

/-- Process `i` returned `res` from `op`. -/
def returned (s : State S σ γ Op Res ι) (i : ι) (op : Op) (res : Res) : State S σ γ Op Res ι where
  shared := s.shared
  running := Function.update s.running i none
  trace := .returned i op res :: s.trace

end State

variable (T : Threads S σ γ Op Res ι)

/-- The thread an operation starts as. -/
def thread (op : Op) : Thread S γ Op Res := ⟨op, T.body op, T.enter op⟩

/-- One step of one process, where `guard` says which calls may be made in which states. -/
inductive Step (guard : State S σ γ Op Res ι → ι → S.Call → Prop) :
    State S σ γ Op Res ι → State S σ γ Op Res ι → Prop
  | start (s : State S σ γ Op Res ι) (i : ι) (op : Op) (hidle : s.running i = none) :
      Step guard s (s.start i (T.thread op))
  | call (s : State S σ γ Op Res ι) (i : ι) (op : Op) (g : γ) (c : S.Call)
      (k : S.Answer c → Prog S Res) (r : S.Answer c) (s' : σ)
      (hrun : s.running i = some ⟨op, .call c k, g⟩) (hguard : guard s i c)
      (hexec : T.exec i s.shared c r s') :
      Step guard s (s.called i op c r s' ⟨op, k r, T.protocol.next g c r⟩)
  | ret (s : State S σ γ Op Res ι) (i : ι) (op : Op) (g : γ) (res : Res)
      (hrun : s.running i = some ⟨op, .ret res, g⟩) : Step guard s (s.returned i op res)

/-- Reached from `s` by any number of steps. -/
def Reaches (guard : State S σ γ Op Res ι → ι → S.Call → Prop) :
    State S σ γ Op Res ι → State S σ γ Op Res ι → Prop :=
  Relation.ReflTransGen (T.Step guard)

/-- Every step is allowed. -/
def unguarded : State S σ γ Op Res ι → ι → S.Call → Prop := fun _ _ _ => True

/-- Every running program keeps to the protocol from where it stands. -/
def Kept (post : Op → Res → γ → Prop) (s : State S σ γ Op Res ι) : Prop :=
  ∀ i t, s.running i = some t → t.prog.Keeps T.protocol (post t.op) t.ghost

variable {T} {guard : State S σ γ Op Res ι → ι → S.Call → Prop} {post : Op → Res → γ → Prop}
  {I : State S σ γ Op Res ι → Prop}

/-- A step leaves every running program keeping to the protocol. -/
theorem Kept.step (hbody : ∀ op, (T.body op).Keeps T.protocol (post op) (T.enter op))
    {s s' : State S σ γ Op Res ι} (hs : T.Kept post s) (h : T.Step guard s s') :
    T.Kept post s' := by
  intro j t hj
  cases h with
  | start i op hidle =>
    rcases eq_or_ne j i with rfl | hne
    · simp only [State.start, Function.update_self, Option.some.injEq] at hj
      subst hj
      exact hbody op
    · exact hs j t (by simpa [State.start, hne] using hj)
  | call i op g c k r s' hrun hguard hexec =>
    rcases eq_or_ne j i with rfl | hne
    · simp only [State.called, Function.update_self, Option.some.injEq] at hj
      subst hj
      exact (hs j _ hrun).2 r
    · exact hs j t (by simpa [State.called, hne] using hj)
  | ret i op g res hrun =>
    rcases eq_or_ne j i with rfl | hne
    · simp [State.returned] at hj
    · exact hs j t (by simpa [State.returned, hne] using hj)

/-- The induction over runs.  An invariant preserved by starting an operation, by every call the
protocol allows, and by returning, holds in every reachable state. -/
theorem invariant (hbody : ∀ op, (T.body op).Keeps T.protocol (post op) (T.enter op))
    (hstart : ∀ s i op, I s → s.running i = none → I (s.start i (T.thread op)))
    (hcall : ∀ s i op g c k r s', I s → s.running i = some ⟨op, .call c k, g⟩ →
      T.protocol.allowed g c → guard s i c → T.exec i s.shared c r s' →
      I (s.called i op c r s' ⟨op, k r, T.protocol.next g c r⟩))
    (hret : ∀ s i op g res, I s → s.running i = some ⟨op, .ret res, g⟩ → post op res g →
      I (s.returned i op res))
    {s s' : State S σ γ Op Res ι} (h : T.Reaches guard s s') (hs : T.Kept post s) (hI : I s) :
    T.Kept post s' ∧ I s' := by
  induction h with
  | refl => exact ⟨hs, hI⟩
  | tail _ hstep ih =>
    obtain ⟨hk, hi⟩ := ih
    refine ⟨hk.step hbody hstep, ?_⟩
    cases hstep with
    | start i op hidle => exact hstart _ i op hi hidle
    | call i op g c k r s' hrun hguard hexec =>
      exact hcall _ i op g c k r s' hi hrun (hk i _ hrun).1 hguard hexec
    | ret i op g res hrun => exact hret _ i op g res hi hrun (hk i _ hrun)

omit [DecidableEq ι] in
theorem kept_idle (s : σ) : T.Kept post (State.idle s) := by
  intro i t h
  simp [State.idle] at h

/-! ### Playing a schedule -/

variable (T) in
/-- The next step of process `i`, which starts `ops i` when it runs nothing, where calls are
answered by `answer`. -/
def stepBy (answer : ι → σ → (c : S.Call) → S.Answer c × σ) (ops : ι → Op)
    (s : State S σ γ Op Res ι) (i : ι) : State S σ γ Op Res ι :=
  match s.running i with
  | none => s.start i (T.thread (ops i))
  | some ⟨op, .call c k, g⟩ =>
    s.called i op c (answer i s.shared c).1 (answer i s.shared c).2
      ⟨op, k (answer i s.shared c).1, T.protocol.next g c (answer i s.shared c).1⟩
  | some ⟨op, .ret res, _⟩ => s.returned i op res

variable {answer : ι → σ → (c : S.Call) → S.Answer c × σ} {ops : ι → Op}

theorem step_stepBy
    (hanswer : ∀ i s c, T.exec i s c (answer i s c).1 (answer i s c).2)
    {s : State S σ γ Op Res ι} {i : ι}
    (hguard : ∀ op c k g, s.running i = some ⟨op, .call c k, g⟩ → guard s i c) :
    T.Step guard s (T.stepBy answer ops s i) := by
  unfold stepBy
  split
  · next h => exact .start s i _ h
  · next op c k g h => exact .call s i op g c k _ _ h (hguard op c k g h) (hanswer _ _ _)
  · next op res g h => exact .ret s i op g res h

variable (T answer ops) in
/-- The schedule, played from a state. -/
def play (schedule : List ι) (s : State S σ γ Op Res ι) : State S σ γ Op Res ι :=
  schedule.foldl (T.stepBy answer ops) s

variable (T answer ops) in
/-- Every call a schedule comes to is one `check` lets through. -/
def checked (check : State S σ γ Op Res ι → ι → S.Call → Bool) :
    List ι → State S σ γ Op Res ι → Bool
  | [], _ => true
  | i :: schedule, s =>
    (match s.running i with
      | some ⟨_, .call c _, _⟩ => check s i c
      | _ => true) && checked check schedule (T.stepBy answer ops s i)

theorem checked_of_all {check : State S σ γ Op Res ι → ι → S.Call → Bool}
    (h : ∀ s i c, check s i c = true) (schedule : List ι) (s : State S σ γ Op Res ι) :
    T.checked answer ops check schedule s = true := by
  induction schedule generalizing s with
  | nil => rfl
  | cons i schedule ih =>
    unfold checked
    rw [ih, Bool.and_true]
    split
    · exact h ..
    · rfl

/-- A schedule leads to a state reached from the one it is played from, where every call it comes to
is checked, in states of a kind `P` for which the check decides the guard. -/
theorem reaches_play (hanswer : ∀ i s c, T.exec i s c (answer i s c).1 (answer i s c).2)
    {check : State S σ γ Op Res ι → ι → S.Call → Bool} (P : State S σ γ Op Res ι → Prop)
    (hguard : ∀ s, P s → ∀ i c, check s i c = true → guard s i c) (schedule : List ι)
    (hkeep : ∀ s, P s → ∀ i ∈ schedule, P (T.stepBy answer ops s i)) {s : State S σ γ Op Res ι}
    (hs : P s) (hchecked : T.checked answer ops check schedule s = true) :
    T.Reaches guard s (T.play answer ops schedule s) := by
  induction schedule generalizing s with
  | nil => exact .refl
  | cons i schedule ih =>
    unfold checked at hchecked
    obtain ⟨hnow, hlater⟩ := Bool.and_eq_true_iff.mp hchecked
    have hstep : T.Step guard s (T.stepBy answer ops s i) := by
      refine step_stepBy hanswer fun op c k g hrun => hguard s hs i c ?_
      rw [hrun] at hnow
      exact hnow
    exact Relation.ReflTransGen.head hstep (ih (fun s hs j hj =>
      hkeep s hs j (List.mem_cons_of_mem i hj)) (hkeep s hs i List.mem_cons_self) hlater)

/-- A process that is not scheduled starts nothing. -/
theorem stepBy_idle {s : State S σ γ Op Res ι} {i j : ι} (hne : j ≠ i) (hs : s.running j = none) :
    (T.stepBy answer ops s i).running j = none := by
  unfold stepBy
  split
  · simpa [State.start, hne] using hs
  · simpa [State.called, hne] using hs
  · simpa [State.returned, hne] using hs

end Threads

end AccountLogUi
