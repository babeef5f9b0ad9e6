import AccountLogUi.Library.Action

/-!
# Two runs compared

`Matched E Q` relates how two runs of actions ended: both answered, with answers and states `Q`
relates, or both failed with one error, in states `E` relates.  A chain of actions is matched link
by link (`Matched.bind`), each primitive has its rule, and a call of a part of the state is matched
where the part's own call is (`Matched.calling`).

`Matched.fst_eq` is what such a comparison is for: where `Q` makes the answers equal, the two runs
cannot be told apart by what they answered.
-/

namespace AccountLogUi

/-- Two runs ended alike. -/
inductive Matched {ε α β σ τ : Type} (E : σ → τ → Prop) (Q : α → β → σ → τ → Prop) :
    Except ε α × σ → Except ε β × τ → Prop
  | ok {a : α} {b : β} {s : σ} {t : τ} (h : Q a b s t) : Matched E Q (.ok a, s) (.ok b, t)
  | error {e : ε} {s : σ} {t : τ} (h : E s t) : Matched E Q (.error e, s) (.error e, t)

/-- The same answer, in states `R` relates. -/
def Same {α σ τ : Type} (R : σ → τ → Prop) (a b : α) (s : σ) (t : τ) : Prop := b = a ∧ R s t

namespace Matched

variable {ε α β α' β' σ τ : Type} {E E' : σ → τ → Prop} {Q Q' : α → β → σ → τ → Prop}
  {x : Except ε α × σ} {y : Except ε β × τ}

theorem mono (h : Matched E Q x y) (hE : ∀ s t, E s t → E' s t)
    (hQ : ∀ a b s t, Q a b s t → Q' a b s t) : Matched E' Q' x y := by
  rcases h with h | h
  · exact .ok (hQ _ _ _ _ h)
  · exact .error (hE _ _ h)

/-- Runs that answered alike answered the same. -/
theorem fst_eq {R : σ → τ → Prop} {x : Except ε α × σ} {y : Except ε α × τ}
    (h : Matched E (Same R) x y) : y.1 = x.1 := by
  rcases h with ⟨rfl, -⟩ | h <;> rfl

/-- The same answer, and states related as it was. -/
theorem same {R : σ → τ → Prop} {x : Except ε α × σ} {y : Except ε α × τ} (hanswer : y.1 = x.1)
    (herror : ∀ e, x.1 = .error e → E x.2 y.2) (hok : ∀ a, x.1 = .ok a → R x.2 y.2) :
    Matched E (Same R) x y := by
  obtain ⟨r, s⟩ := x
  obtain ⟨r', t⟩ := y
  obtain rfl : r' = r := hanswer
  rcases r' with e | a
  · exact .error (herror e rfl)
  · exact .ok ⟨rfl, hok a rfl⟩

/-- What holds of the states however the runs ended. -/
theorem snd {R : σ → τ → Prop} (h : Matched E Q x y) (hE : ∀ s t, E s t → R s t)
    (hQ : ∀ a b s t, Q a b s t → R s t) : R x.2 y.2 := by
  rcases h with h | h
  · exact hQ _ _ _ _ h
  · exact hE _ _ h

/-- What is known of the states besides. -/
theorem also {R : σ → τ → Prop} (h : Matched E Q x y) (hR : R x.2 y.2) :
    Matched (fun s t => E s t ∧ R s t) (fun a b s t => Q a b s t ∧ R s t) x y := by
  rcases h with h | h
  · exact .ok ⟨h, hR⟩
  · exact .error ⟨h, hR⟩

/-- What is known of the answers besides. -/
theorem answers {P : α → Prop} {P' : β → Prop} (h : Matched E Q x y) (hP : ∀ a, x.1 = .ok a → P a)
    (hP' : ∀ b, y.1 = .ok b → P' b) :
    Matched E (fun a b s t => Q a b s t ∧ P a ∧ P' b) x y := by
  rcases h with h | h
  · exact .ok ⟨h, hP _ rfl, hP' _ rfl⟩
  · exact .error h

/-! ### Chains -/

/-- The sequencing rule. -/
theorem bind {u : Action σ ε α} {v : Action τ ε β} {f : α → Action σ ε α'} {g : β → Action τ ε β'}
    {Q' : α' → β' → σ → τ → Prop} {s : σ} {t : τ} (h : Matched E Q (u.on s) (v.on t))
    (hnext : ∀ a b s' t', Q a b s' t' → Matched E Q' ((f a).on s') ((g b).on t')) :
    Matched E Q' ((u >>= f).on s) ((v >>= g).on t) := by
  rw [Action.on_bind, Action.on_bind]
  generalize u.on s = x at h
  generalize v.on t = y at h
  rcases h with h | h
  · exact hnext _ _ _ _ h
  · exact .error h

/-- An action that answers with what another answered. -/
theorem map {u : Action σ ε α} {v : Action τ ε β} {f : α → α'} {g : β → β'} {s : σ} {t : τ}
    {Q' : α' → β' → σ → τ → Prop} (h : Matched E Q (u.on s) (v.on t))
    (hmap : ∀ a b s' t', Q a b s' t' → Q' (f a) (g b) s' t') :
    Matched E Q' ((do return f (← u) : Action σ ε α').on s)
      ((do return g (← v) : Action τ ε β').on t) :=
  h.bind fun a b s' t' h => .ok (hmap a b s' t' h)

variable {s : σ} {t : τ}

/-! ### Single actions -/

theorem pure {a : α} {b : β} (h : Q a b s t) :
    Matched E Q ((Pure.pure a : Action σ ε α).on s) ((Pure.pure b : Action τ ε β).on t) := .ok h

theorem throw {e : ε} (h : E s t) :
    Matched E Q ((MonadExcept.throw e : Action σ ε α).on s)
      ((MonadExcept.throw e : Action τ ε β).on t) := .error h

theorem change {Q : Unit → Unit → σ → τ → Prop} {f : σ → σ} {g : τ → τ}
    (h : Q () () (f s) (g t)) : Matched E Q ((Action.change f : Action σ ε Unit).on s)
      ((Action.change g : Action τ ε Unit).on t) := .ok h

/-- A result computed already, the same in both. -/
theorem orFail {r : Except ε α} {Q : α → α → σ → τ → Prop} (hE : E s t)
    (hQ : ∀ a, r = .ok a → Q a a s t) :
    Matched E Q ((Action.orFail r : Action σ ε α).on s)
      ((Action.orFail r : Action τ ε α).on t) := by
  rcases r with e | a
  · exact .error hE
  · exact .ok (hQ a rfl)

/-- A refusal on the same condition. -/
theorem refuse {c c' : Prop} [Decidable c] [Decidable c'] {e : ε}
    {Q : Unit → Unit → σ → τ → Prop} (hc : c' ↔ c) (hE : c → E s t) (hQ : ¬c → Q () () s t) :
    Matched E Q ((Action.refuse c e : Action σ ε Unit).on s)
      ((Action.refuse c' e : Action τ ε Unit).on t) := by
  unfold Action.refuse
  by_cases h : c
  · rw [if_pos h, if_pos (hc.mpr h)]
    exact .error (hE h)
  · rw [if_neg h, if_neg fun h' => h (hc.mp h')]
    exact .ok (hQ h)

/-- A chain that starts with a result computed already. -/
theorem orFail_bind {r : Except ε α} {f : α → Action σ ε α'} {g : α → Action τ ε β'}
    {Q : α' → β' → σ → τ → Prop} (hE : E s t)
    (hnext : ∀ a, r = .ok a → Matched E Q ((f a).on s) ((g a).on t)) :
    Matched E Q ((Action.orFail r >>= f).on s) ((Action.orFail r >>= g).on t) := by
  refine (orFail (Q := fun a b s' t' => r = .ok a ∧ b = a ∧ s' = s ∧ t' = t) hE
    fun a ha => ⟨ha, rfl, rfl, rfl⟩).bind ?_
  rintro a b s' t' ⟨ha, rfl, rfl, rfl⟩
  exact hnext _ ha

/-- A chain that starts with a refusal on the same condition. -/
theorem refuse_bind {c c' : Prop} [Decidable c] [Decidable c'] {e : ε}
    {f : Unit → Action σ ε α'} {g : Unit → Action τ ε β'} {Q : α' → β' → σ → τ → Prop}
    (hc : c' ↔ c) (hE : E s t) (hnext : ¬c → Matched E Q ((f ()).on s) ((g ()).on t)) :
    Matched E Q ((Action.refuse c e >>= f).on s) ((Action.refuse c' e >>= g).on t) := by
  refine (refuse (Q := fun _ _ s' t' => ¬c ∧ s' = s ∧ t' = t) hc (fun _ => hE)
    fun h => ⟨h, rfl, rfl⟩).bind ?_
  rintro ⟨⟩ ⟨⟩ s' t' ⟨h, rfl, rfl⟩
  exact hnext h

/-- A call of a part of each state. -/
theorem calling {δ : Type} {wrap : δ → ε} {call : σ → Except δ α × σ} {call' : τ → Except δ β × τ}
    (h : Matched E Q (call s) (call' t)) :
    Matched E Q ((Action.calling wrap call : Action σ ε α).on s)
      ((Action.calling wrap call' : Action τ ε β).on t) := by
  rw [Action.on_calling, Action.on_calling]
  generalize call s = x at h ⊢
  generalize call' t = y at h ⊢
  rcases h with h | h
  · exact .ok h
  · exact .error h

end Matched

end AccountLogUi
