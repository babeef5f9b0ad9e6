import Mathlib.Data.List.Basic

/-!
# What the last to speak decides

`Settles tells p xs` holds where the last of `xs` that tells anything tells the truth, or where
none does and `p` holds: of things still to come, oldest first, what holds in the end.
-/

namespace AccountLogUi

variable {α : Type} {tells : α → Option Prop} {p : Prop} {xs ys : List α} {x : α}

def Settles (tells : α → Option Prop) (p : Prop) (xs : List α) : Prop :=
  xs.foldl (fun p x => (tells x).getD p) p

namespace Settles

@[simp] theorem nil : Settles tells p [] ↔ p := Iff.rfl

@[simp] theorem cons : Settles tells p (x :: xs) ↔ Settles tells ((tells x).getD p) xs := Iff.rfl

theorem append : Settles tells p (xs ++ ys) ↔ Settles tells (Settles tells p xs) ys := by
  unfold Settles
  rw [List.foldl_append]

/-- Where none tells anything but what is true, what held holds. -/
theorem of_true (h : ∀ x ∈ xs, ∀ q ∈ tells x, q) (hp : p) : Settles tells p xs := by
  induction xs generalizing p with
  | nil => exact hp
  | cons x xs ih =>
    obtain ⟨hx, hxs⟩ := List.forall_mem_cons.mp h
    rw [cons]
    refine ih hxs ?_
    cases htells : tells x with
    | none => exact hp
    | some q => exact hx q htells

/-- What holds in the end holds whatever was before, unless none tells anything. -/
theorem or_silent (h : Settles tells p xs) (q : Prop) :
    Settles tells q xs ∨ ∀ x ∈ xs, tells x = none := by
  induction xs generalizing p q with
  | nil => exact .inr fun x hx => by cases hx
  | cons x xs ih =>
    rw [cons] at h
    cases htells : tells x with
    | none =>
      rw [htells] at h
      rcases ih h q with hq | hsilent
      · left
        rw [cons, htells]
        exact hq
      · exact .inr (List.forall_mem_cons.mpr ⟨htells, hsilent⟩)
    | some r =>
      left
      rw [htells] at h
      rw [cons, htells]
      exact h

/-- Where one tells something, and none tells anything but what is true. -/
theorem of_mem (h : ∀ x ∈ xs, ∀ q ∈ tells x, q) (hx : x ∈ xs) (htells : tells x ≠ none) :
    Settles tells p xs := by
  rcases or_silent (of_true h trivial) p with hp | hsilent
  · exact hp
  · exact absurd (hsilent x hx) htells

/-- What each tells may change, as long as nothing true is taken back. -/
theorem imp {tells' : α → Option Prop}
    (h : ∀ x ∈ xs, tells' x = tells x) (hs : Settles tells p xs) : Settles tells' p xs := by
  induction xs generalizing p with
  | nil => exact hs
  | cons x xs ih =>
    obtain ⟨hx, hxs⟩ := List.forall_mem_cons.mp h
    rw [cons] at hs ⊢
    rw [hx]
    exact ih hxs hs

/-- One that tells the truth, and nothing after it that does not. -/
theorem of_truth {r : Prop} (htells : tells x = some r) (hr : r)
    (h : ∀ y ∈ ys, ∀ q ∈ tells y, q) : Settles tells p (xs ++ x :: ys) := by
  rw [append, cons, htells]
  exact of_true h hr

/-- One may tell the truth in place of what it told. -/
theorem replace {x' : α} (hs : Settles tells p (xs ++ x :: ys))
    (hx : tells x' = tells x ∨ ∃ r, tells x' = some r ∧ r) (h : ∀ y ∈ ys, ∀ q ∈ tells y, q) :
    Settles tells p (xs ++ x' :: ys) := by
  rcases hx with hsame | ⟨r, htells, hr⟩
  · rw [append, cons, hsame]
    rwa [append, cons] at hs
  · exact of_truth htells hr h

end Settles

end AccountLogUi
