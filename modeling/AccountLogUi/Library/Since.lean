import Mathlib.Tactic.Common

/-!
# What has held since

`HeldSince starts ends l` says of events, oldest first, that one of them started something which no
event after it ended.  `heldSince_concat` reads it off the last event: it is the step of an
induction over a run, where what each event leaves was started by it, or was there before and not
ended by it.
-/

namespace AccountLogUi

variable {α : Type} {starts ends : α → Prop} {l : List α} {a : α}

/-- Something was started, and not ended since. -/
def HeldSince (starts ends : α → Prop) (l : List α) : Prop :=
  ∃ before a after, l = before ++ a :: after ∧ starts a ∧ ∀ b ∈ after, ¬ends b

/-- It was started last, or held before and was not ended last. -/
theorem heldSince_concat : HeldSince starts ends (l ++ [a]) ↔
    starts a ∨ HeldSince starts ends l ∧ ¬ends a := by
  constructor
  · rintro ⟨before, b, after, hl, hstarts, hkept⟩
    rcases List.eq_nil_or_concat after with rfl | ⟨after, c, rfl⟩
    · obtain ⟨-, hlast⟩ := List.append_inj' hl rfl
      obtain rfl : a = b := by simpa using hlast
      exact .inl hstarts
    · -- The last event came after the start.
      rw [List.concat_eq_append, ← List.cons_append, ← List.append_assoc] at hl
      obtain ⟨rfl, hlast⟩ := List.append_inj' hl rfl
      obtain rfl : a = c := by simpa using hlast
      refine .inr ⟨⟨before, b, after, rfl, hstarts, fun e he => hkept e ?_⟩, hkept a ?_⟩
      · simp [he]
      · simp
  · rintro (hstarts | ⟨⟨before, b, after, rfl, hstarts, hkept⟩, hends⟩)
    · exact ⟨l, a, [], rfl, hstarts, by simp⟩
    · refine ⟨before, b, after ++ [a], by simp, hstarts, fun e he => ?_⟩
      rcases List.mem_append.mp he with he | he
      · exact hkept e he
      · obtain rfl : e = a := by simpa using he
        exact hends

end AccountLogUi
