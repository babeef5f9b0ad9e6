import Mathlib.Tactic.Common

/-!
# Actions that change a state and can fail

An `Action σ ε α` is what a method taking `&mut self` and answering `Result<α, ε>` is modelled in:
what it changed before it failed stays changed.  `Action.on` runs one.

A chain of actions is taken apart by `on_bind_ok` and `on_bind_error`: it answers where every link
does, and fails where some link does after the ones before it answered.  Each primitive says when
it answers, when it fails and what it leaves, alone and at the head of a chain.
-/

namespace AccountLogUi

/-- A computation over a state that can fail, and keeps its changes when it does. -/
abbrev Action (σ ε α : Type) := ExceptT ε (StateM σ) α

namespace Action

variable {σ ε α β : Type}

/-- Run an action on a state. -/
def on (x : Action σ ε α) (s : σ) : Except ε α × σ := x.run.run s

/-- Read something off the state. -/
def look (f : σ → α) : Action σ ε α := fun s => (.ok (f s), s)

/-- Change the state. -/
def change (f : σ → σ) : Action σ ε Unit := fun s => (.ok (), f s)

/-- Go on with a result computed already. -/
def orFail (r : Except ε α) : Action σ ε α := fun s => (r, s)

/-- Fail where the condition holds. -/
def refuse (c : Prop) [Decidable c] (e : ε) : Action σ ε Unit :=
  if c then throw e else pure ()

/-- Make a call of some part of the state, failing as the call does. -/
def calling {δ : Type} (wrap : δ → ε) (call : σ → Except δ α × σ) : Action σ ε α :=
  fun s => ((call s).1.mapError wrap, (call s).2)

variable {s s' : σ} {a : α} {b : β} {e : ε}

/-! ### Chains -/

theorem on_bind (x : Action σ ε α) (f : α → Action σ ε β) (s : σ) :
    (x >>= f).on s = match x.on s with
      | (.ok a, s') => (f a).on s'
      | (.error e, s') => (.error e, s') := by
  have h : (x >>= f).on s = ExceptT.bindCont f (x.on s).1 (x.on s).2 := rfl
  rw [h]
  rcases x.on s with ⟨r, s'⟩
  cases r <;> rfl

/-- A chain answers where both parts do. -/
@[simp] theorem on_bind_ok {x : Action σ ε α} {f : α → Action σ ε β} :
    (x >>= f).on s = (.ok b, s') ↔ ∃ a s₁, x.on s = (.ok a, s₁) ∧ (f a).on s₁ = (.ok b, s') := by
  rw [on_bind]
  rcases x.on s with ⟨r, s₁⟩
  cases r with
  | error e => simp
  | ok a => simp

/-- A chain fails where its first part does, or its second part after the first answered. -/
@[simp] theorem on_bind_error {x : Action σ ε α} {f : α → Action σ ε β} :
    (x >>= f).on s = (.error e, s') ↔
      x.on s = (.error e, s') ∨ ∃ a s₁, x.on s = (.ok a, s₁) ∧ (f a).on s₁ = (.error e, s') := by
  rw [on_bind]
  rcases x.on s with ⟨r, s₁⟩
  cases r with
  | error e' => simp
  | ok a => simp

/-- A chain stops at a first part that fails, and otherwise goes on. -/
theorem on_bind_cases {x : Action σ ε α} {f : α → Action σ ε β} {r : Except ε β}
    (h : (x >>= f).on s = (r, s')) :
    (∃ e, x.on s = (.error e, s') ∧ r = .error e) ∨
      ∃ a s₁, x.on s = (.ok a, s₁) ∧ (f a).on s₁ = (r, s') := by
  rcases r with e | b
  · exact (on_bind_error.mp h).imp_left fun hx => ⟨e, hx, rfl⟩
  · exact .inr (on_bind_ok.mp h)

/-- An action that answers with what another answered. -/
theorem on_map_cases {x : Action σ ε α} {f : α → β} {r : Except ε β}
    (h : (do return f (← x) : Action σ ε β).on s = (r, s')) :
    ∃ r', x.on s = (r', s') ∧ r = r'.map f := by
  rcases on_bind_cases h with ⟨e, hx, rfl⟩ | ⟨a, s₁, hx, h⟩
  · exact ⟨.error e, hx, rfl⟩
  · obtain ⟨rfl, rfl⟩ := Prod.mk.inj h
    exact ⟨.ok a, hx, rfl⟩

theorem on_map_fst {x : Action σ ε α} {f : α → β} (h : (x.on s).1 = .ok a) :
    ((do return f (← x) : Action σ ε β).on s).1 = .ok (f a) := by
  have hx : x.on s = (.ok a, (x.on s).2) := Prod.ext h rfl
  exact congrArg Prod.fst (on_bind_ok.mpr ⟨a, _, hx, rfl⟩)

theorem on_map_error {x : Action σ ε α} {f : α → β}
    (h : (do return f (← x) : Action σ ε β).on s = (.error e, s')) : x.on s = (.error e, s') := by
  rcases on_bind_error.mp h with hx | ⟨a, s₁, -, h⟩
  · exact hx
  · cases (Prod.mk.inj h).1

/-- What it answered, it answered with the state it left. -/
theorem on_of_toOption {x : Action σ ε α} (h : (x.on s).1.toOption = some a) :
    x.on s = (.ok a, (x.on s).2) := by
  rcases hx : x.on s with ⟨e | b, s'⟩
  · rw [hx] at h
    cases h
  · rw [hx] at h
    rw [Option.some.inj h]

theorem on_of_isSome {x : Action σ ε α} (h : (x.on s).1.toOption.isSome = true) :
    ∃ a s', x.on s = (.ok a, s') := by
  obtain ⟨a, ha⟩ := Option.isSome_iff_exists.mp h
  exact ⟨a, _, on_of_toOption ha⟩

theorem on_map_ok {x : Action σ ε α} {f : α → β}
    (h : (do return f (← x) : Action σ ε β).on s = (.ok b, s')) :
    ∃ a, x.on s = (.ok a, s') ∧ b = f a := by
  obtain ⟨a, s₁, hx, h⟩ := on_bind_ok.mp h
  obtain ⟨hb, rfl⟩ := Prod.mk.inj h
  exact ⟨a, hx, (Except.ok.inj hb).symm⟩

/-! ### Failures caught -/

theorem on_tryCatch_ok {x : Action σ ε α} {handle : ε → Action σ ε α}
    (h : x.on s = (.ok a, s')) : (tryCatch x handle : Action σ ε α).on s = (.ok a, s') := by
  have hx : x s = (.ok a, s') := h
  simp only [on, tryCatch, tryCatchThe, MonadExceptOf.tryCatch, ExceptT.tryCatch, ExceptT.run,
    ExceptT.mk, StateT.run, bind, StateT.bind, hx]
  rfl

/-- What was changed before the failure stays changed. -/
theorem on_tryCatch_error {x : Action σ ε α} {handle : ε → Action σ ε α}
    (h : x.on s = (.error e, s')) :
    (tryCatch x handle : Action σ ε α).on s = (handle e).on s' := by
  have hx : x s = (.error e, s') := h
  simp only [on, tryCatch, tryCatchThe, MonadExceptOf.tryCatch, ExceptT.tryCatch, ExceptT.run,
    ExceptT.mk, StateT.run, bind, StateT.bind, hx]

/-! ### Single actions -/

@[simp] theorem on_pure : (pure a : Action σ ε α).on s = (.ok a, s) := rfl

@[simp] theorem on_throw : (throw e : Action σ ε α).on s = (.error e, s) := rfl

@[simp] theorem on_look {f : σ → α} : (look f : Action σ ε α).on s = (.ok (f s), s) := rfl

@[simp] theorem on_change {f : σ → σ} : (change f : Action σ ε Unit).on s = (.ok (), f s) := rfl

@[simp] theorem on_orFail {r : Except ε α} : (orFail r : Action σ ε α).on s = (r, s) := rfl

@[simp] theorem on_calling {δ : Type} {wrap : δ → ε} {call : σ → Except δ α × σ} :
    (calling wrap call).on s = ((call s).1.mapError wrap, (call s).2) := rfl

@[simp] theorem on_refuse_ok {c : Prop} [Decidable c] {u : Unit} :
    (refuse c e : Action σ ε Unit).on s = (.ok u, s') ↔ ¬c ∧ s' = s := by
  unfold refuse
  split
  · next h => simp [h]
  · next h => simp [h, eq_comm]

@[simp] theorem on_refuse_error {c : Prop} [Decidable c] {e' : ε} :
    (refuse c e : Action σ ε Unit).on s = (.error e', s') ↔ c ∧ e' = e ∧ s' = s := by
  unfold refuse
  split
  · next h => simp [h, eq_comm]
  · next h => simp [h]

/-! ### Single actions at the head of a chain -/

@[simp] theorem on_look_bind {g : σ → α} {f : α → Action σ ε β} :
    (look g >>= f).on s = (f (g s)).on s := by
  rw [on_bind, on_look]

@[simp] theorem on_change_bind {g : σ → σ} {f : Unit → Action σ ε β} :
    (change g >>= f).on s = (f ()).on (g s) := by
  rw [on_bind, on_change]

theorem on_orFail_bind_ok {r : Except ε α} {f : α → Action σ ε β} :
    (orFail r >>= f).on s = (.ok b, s') ↔ ∃ a, r = .ok a ∧ (f a).on s = (.ok b, s') := by
  rw [on_bind, on_orFail]
  cases r <;> simp

theorem on_orFail_bind_error {r : Except ε α} {f : α → Action σ ε β} :
    (orFail r >>= f).on s = (.error e, s') ↔
      r = .error e ∧ s' = s ∨ ∃ a, r = .ok a ∧ (f a).on s = (.error e, s') := by
  rw [on_bind, on_orFail]
  cases r <;> simp [eq_comm]

theorem on_orFail_bind_cases {x : Except ε α} {f : α → Action σ ε β} {r : Except ε β}
    (h : (orFail x >>= f).on s = (r, s')) :
    (∃ e, x = .error e ∧ r = .error e ∧ s' = s) ∨ ∃ a, x = .ok a ∧ (f a).on s = (r, s') := by
  rcases r with e | b
  · exact (on_orFail_bind_error.mp h).imp_left fun hx => ⟨e, hx.1, rfl, hx.2⟩
  · exact .inr (on_orFail_bind_ok.mp h)

theorem on_refuse_bind_ok {c : Prop} [Decidable c] {f : Unit → Action σ ε β} :
    (refuse c e >>= f).on s = (.ok b, s') ↔ ¬c ∧ (f ()).on s = (.ok b, s') := by
  rw [on_bind]
  by_cases hc : c
  · simp [refuse, hc]
  · simp [refuse, hc]

theorem on_refuse_bind_error {c : Prop} [Decidable c] {e' : ε} {f : Unit → Action σ ε β} :
    (refuse c e >>= f).on s = (.error e', s') ↔
      c ∧ e' = e ∧ s' = s ∨ ¬c ∧ (f ()).on s = (.error e', s') := by
  rw [on_bind]
  by_cases hc : c
  · simp [refuse, hc, eq_comm]
  · simp [refuse, hc]

theorem on_refuse_bind_cases {c : Prop} [Decidable c] {f : Unit → Action σ ε β} {r : Except ε β}
    (h : (refuse c e >>= f).on s = (r, s')) :
    c ∧ r = .error e ∧ s' = s ∨ ¬c ∧ (f ()).on s = (r, s') := by
  rcases r with e' | b
  · exact (on_refuse_bind_error.mp h).imp_left fun hx => ⟨hx.1, congrArg _ hx.2.1, hx.2.2⟩
  · exact .inr (on_refuse_bind_ok.mp h)

/-! ### What an action keeps -/

/-- Started where `I` holds, the action leaves `I` holding whatever it answers, and what it answers
satisfies `Q`. -/
def Keeps (I : σ → Prop) (Q : α → Prop) (x : Action σ ε α) : Prop :=
  ∀ s, I s → I (x.on s).2 ∧ ∀ a, (x.on s).1 = .ok a → Q a

variable {I : σ → Prop} {Q : α → Prop} {Q' : β → Prop}

theorem Keeps.mono {Q' : α → Prop} {x : Action σ ε α} (h : Keeps I Q x) (hQ : ∀ a, Q a → Q' a) :
    Keeps I Q' x :=
  fun s hs => ⟨(h s hs).1, fun a ha => hQ a ((h s hs).2 a ha)⟩

/-- The sequencing rule. -/
theorem Keeps.bind {x : Action σ ε α} {f : α → Action σ ε β} (h : Keeps I Q x)
    (hnext : ∀ a, Q a → Keeps I Q' (f a)) : Keeps I Q' (x >>= f) := by
  intro s hs
  obtain ⟨hI, hQ⟩ := h s hs
  rw [on_bind]
  generalize x.on s = y at hI hQ ⊢
  obtain ⟨e | a, s'⟩ := y
  · exact ⟨hI, fun _ hok => by cases hok⟩
  · exact hnext a (hQ a rfl) s' hI

theorem Keeps.map {x : Action σ ε α} (f : α → β) (h : Keeps I Q x) :
    Keeps I (fun _ => True) (do return f (← x) : Action σ ε β) :=
  h.bind fun _ _ _ hs => ⟨hs, fun _ _ => trivial⟩

theorem keeps_pure (h : Q a) : Keeps I Q (pure a : Action σ ε α) := by
  refine fun s hs => ⟨hs, fun b hb => ?_⟩
  rw [← Except.ok.inj hb]
  exact h

theorem keeps_throw : Keeps I Q (throw e : Action σ ε α) :=
  fun _ hs => ⟨hs, fun _ hok => by cases hok⟩

theorem keeps_look {f : σ → α} (h : ∀ s, I s → Q (f s)) : Keeps I Q (look f : Action σ ε α) := by
  refine fun s hs => ⟨hs, fun b hb => ?_⟩
  rw [← Except.ok.inj hb]
  exact h s hs

theorem keeps_change {f : σ → σ} (h : ∀ s, I s → I (f s)) :
    Keeps I (fun _ => True) (change f : Action σ ε Unit) :=
  fun s hs => ⟨h s hs, fun _ _ => trivial⟩

theorem keeps_orFail {r : Except ε α} (h : ∀ a, r = .ok a → Q a) :
    Keeps I Q (orFail r : Action σ ε α) :=
  fun _ hs => ⟨hs, h⟩

theorem keeps_refuse {c : Prop} [Decidable c] :
    Keeps I (fun _ => ¬c) (refuse c e : Action σ ε Unit) := by
  unfold refuse
  split
  · exact keeps_throw
  · next h => exact keeps_pure h

theorem keeps_calling {δ : Type} {wrap : δ → ε} {call : σ → Except δ α × σ}
    (h : ∀ s, I s → I (call s).2 ∧ ∀ a, (call s).1 = .ok a → Q a) :
    Keeps I Q (calling wrap call : Action σ ε α) := by
  intro s hs
  obtain ⟨hI, hQ⟩ := h s hs
  rw [on_calling]
  refine ⟨hI, fun a ha => hQ a ?_⟩
  rcases hres : (call s).1 with e | b
  · rw [hres] at ha
    cases ha
  · rw [hres] at ha
    exact congrArg Except.ok (Except.ok.inj ha)

end Action

end AccountLogUi
