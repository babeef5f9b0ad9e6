import Mathlib.Tactic.Common

/-!
# Programs that make calls

A `Prog S α` is a computation that makes calls of the signature `S` to something outside it and
goes on with whatever each call answers.  A program says which calls are made and in which order,
and nothing of what they do, so the same program can be run alone, cut short anywhere, or
interleaved with others.

A `Protocol` is what a program is held to while it runs: which calls it may make in which of the
protocol's states, and where each answer takes it.  `Prog.Keeps` says a program keeps to a
protocol whatever is answered, and ends in a state the postcondition accepts; `keeps_bind` is its
sequencing rule.  `Prog.Keeps.run` and `Prog.Keeps.partway` carry an invariant over a run to the
end and over a run cut short.
-/

namespace AccountLogUi

/-- The calls a program can make, and what each is answered with. -/
structure Sig where
  Call : Type
  Answer : Call → Type

/-- A program: done, or a call and what to do with its answer. -/
inductive Prog (S : Sig) (α : Type) : Type
  | ret (a : α)
  | call (c : S.Call) (k : S.Answer c → Prog S α)

namespace Prog

variable {S : Sig} {α β : Type}

/-- Run `p`, then go on as `f` says with what it returned. -/
def bind : Prog S α → (α → Prog S β) → Prog S β
  | .ret a, f => f a
  | .call c k, f => .call c fun r => (k r).bind f

instance : Monad (Prog S) where
  pure := .ret
  bind := bind

@[simp] theorem pure_eq_ret (a : α) : (pure a : Prog S α) = .ret a := rfl

@[simp] theorem bind_eq (p : Prog S α) (f : α → Prog S β) : p >>= f = p.bind f := rfl

@[simp] theorem ret_bind (a : α) (f : α → Prog S β) : (ret a : Prog S α).bind f = f a := rfl

@[simp] theorem call_bind (c : S.Call) (k : S.Answer c → Prog S α) (f : α → Prog S β) :
    (call c k).bind f = call c fun r => (k r).bind f := rfl

@[simp] theorem map_eq (f : α → β) (p : Prog S α) : f <$> p = p.bind fun a => .ret (f a) := rfl

end Prog

/-! ### Protocols -/

/-- What a program is held to: the calls allowed in each state `γ`, and the state each answer
leads to. -/
structure Protocol (S : Sig) (γ : Type) where
  allowed : γ → S.Call → Prop
  next : γ → (c : S.Call) → S.Answer c → γ

namespace Prog

variable {S : Sig} {α β γ σ : Type}

/-- From state `g`, the program makes only calls the protocol allows, whatever they are answered,
and what it returns satisfies `post` in the state it ends in. -/
def Keeps (π : Protocol S γ) (post : α → γ → Prop) : Prog S α → γ → Prop
  | .ret a, g => post a g
  | .call c k, g => π.allowed g c ∧ ∀ r, (k r).Keeps π post (π.next g c r)

variable {π : Protocol S γ} {post : α → γ → Prop}

@[simp] theorem keeps_ret (a : α) (g : γ) : (ret a : Prog S α).Keeps π post g ↔ post a g := Iff.rfl

@[simp] theorem keeps_call (c : S.Call) (k : S.Answer c → Prog S α) (g : γ) :
    (call c k).Keeps π post g ↔ π.allowed g c ∧ ∀ r, (k r).Keeps π post (π.next g c r) := Iff.rfl

/-- The sequencing rule. -/
@[simp] theorem keeps_bind (p : Prog S α) (f : α → Prog S β) (post : β → γ → Prop) (g : γ) :
    (p.bind f).Keeps π post g ↔ p.Keeps π (fun a g' => (f a).Keeps π post g') g := by
  induction p generalizing g with
  | ret a => rfl
  | call c k ih =>
    simp only [call_bind, keeps_call]
    exact and_congr_right fun _ => forall_congr' fun r => ih r _

/-- The postcondition can be weakened. -/
theorem Keeps.mono {post' : α → γ → Prop} (hpost : ∀ a g, post a g → post' a g) {p : Prog S α}
    {g : γ} (h : p.Keeps π post g) : p.Keeps π post' g := by
  induction p generalizing g with
  | ret a => exact hpost a g h
  | call c k ih => exact ⟨h.1, fun r => ih r (h.2 r)⟩

/-- A program held to `π` is held to `π'` as well, and stays in `g'`, where every call `π` allows is
one `π'` allows in `g'` and leaves there. -/
theorem Keeps.stay {δ : Type} {π' : Protocol S δ} {g' : δ}
    (hstay : ∀ g c, π.allowed g c → π'.allowed g' c ∧ ∀ r, π'.next g' c r = g') {p : Prog S α}
    {g : γ} (h : p.Keeps π post g) : p.Keeps π' (fun _ d => d = g') g' := by
  induction p generalizing g with
  | ret a => rfl
  | call c k ih =>
    obtain ⟨hallowed, hnext⟩ := hstay g c h.1
    refine ⟨hallowed, fun r => ?_⟩
    rw [hnext r]
    exact ih r (h.2 r)

/-! ### Running a program alone -/

/-- Run a program to its end against `exec`, which answers each call and moves the state on. -/
def run (exec : σ → (c : S.Call) → S.Answer c × σ) : Prog S α → σ → α × σ
  | .ret a, s => (a, s)
  | .call c k, s => (k (exec s c).1).run exec (exec s c).2

section Run

variable (exec : σ → (c : S.Call) → S.Answer c × σ)

@[simp] theorem run_ret (a : α) (s : σ) : (ret a : Prog S α).run exec s = (a, s) := rfl

@[simp] theorem run_call (c : S.Call) (k : S.Answer c → Prog S α) (s : σ) :
    (call c k).run exec s = (k (exec s c).1).run exec (exec s c).2 := rfl

@[simp] theorem run_bind (p : Prog S α) (f : α → Prog S β) (s : σ) :
    (p.bind f).run exec s = (f (p.run exec s).1).run exec (p.run exec s).2 := by
  induction p generalizing s with
  | ret a => rfl
  | call c k ih => simp only [call_bind, run_call, ih]

/-- An invariant of state and protocol state that every allowed call preserves holds at the end of
a run, together with the postcondition. -/
theorem Keeps.run {J : σ → γ → Prop}
    (hcall : ∀ s g c, J s g → π.allowed g c → J (exec s c).2 (π.next g c (exec s c).1))
    {p : Prog S α} {s : σ} {g : γ} (h : p.Keeps π post g) (hJ : J s g) :
    ∃ g', J (p.run exec s).2 g' ∧ post (p.run exec s).1 g' := by
  induction p generalizing s g with
  | ret a => exact ⟨g, hJ, h⟩
  | call c k ih => exact ih _ (h.2 _) (hcall s g c hJ h.1)

end Run

/-! ### Running a program part of the way -/

/-- `s'` is a state in which the program, started in `s`, can have stopped: after any number of
its calls, the last of them included. -/
inductive Partway (exec : σ → (c : S.Call) → S.Answer c → σ → Prop) : Prog S α → σ → σ → Prop
  | here (p : Prog S α) (s : σ) : Partway exec p s s
  | call {c : S.Call} {k : S.Answer c → Prog S α} {s s₁ s' : σ} {r : S.Answer c}
      (hexec : exec s c r s₁) (hrest : Partway exec (k r) s₁ s') : Partway exec (.call c k) s s'

/-- Making something of what a program returns adds no place to stop. -/
theorem Partway.of_bind_ret {exec : σ → (c : S.Call) → S.Answer c → σ → Prop} {p : Prog S α}
    {f : α → β} {s s' : σ} (h : (p.bind fun a => .ret (f a)).Partway exec s s') :
    p.Partway exec s s' := by
  induction p generalizing s with
  | ret a =>
    cases h
    exact .here _ _
  | call c k ih =>
    cases h with
    | here => exact .here _ _
    | call hexec hrest => exact .call hexec (ih _ hrest)

/-- An invariant of state and protocol state that every allowed call preserves holds wherever the
program can have stopped. -/
theorem Keeps.partway {exec : σ → (c : S.Call) → S.Answer c → σ → Prop} {J : σ → γ → Prop}
    (hcall : ∀ s g c r s', J s g → π.allowed g c → exec s c r s' → J s' (π.next g c r))
    {p : Prog S α} {s s' : σ} (hp : p.Partway exec s s') {g : γ} (h : p.Keeps π post g)
    (hJ : J s g) : ∃ g', J s' g' := by
  induction hp generalizing g with
  | here p s => exact ⟨g, hJ⟩
  | call hexec _ ih => exact ih (h.2 _) (hcall _ _ _ _ _ hJ h.1 hexec)

end Prog

end AccountLogUi
