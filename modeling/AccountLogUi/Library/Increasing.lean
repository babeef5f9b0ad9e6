import Mathlib.Data.List.Sort

/-!
# Lists that increase

A list that increases all the way along a key is known by its members.
-/

namespace AccountLogUi

variable {α β : Type} [LinearOrder β] {f : α → β} {l l' : List α}

/-- Each element's key is above those of the ones before it. -/
def Increasing (f : α → β) (l : List α) : Prop := l.Pairwise fun a b => f a < f b

namespace Increasing

theorem nodup (h : Increasing f l) : l.Nodup := by
  refine List.Pairwise.imp ?_ h
  rintro a b hlt rfl
  exact lt_irrefl _ hlt

theorem nodup_map (h : Increasing f l) : (l.map f).Nodup := by
  rw [List.nodup_iff_pairwise_ne, List.pairwise_map]
  exact List.Pairwise.imp (fun hlt => hlt.ne) h

/-- Two lists that increase along one key and have the same members are one list. -/
theorem ext (h : Increasing f l) (h' : Increasing f l') (hmem : ∀ a, a ∈ l ↔ a ∈ l') : l = l' := by
  have hperm : l.Perm l' := (List.perm_ext_iff_of_nodup h.nodup h'.nodup).mpr hmem
  refine hperm.eq_of_pairwise ?_ h h'
  intro a b _ _ hab hba
  exact absurd (hab.trans hba) (lt_irrefl _)

/-- Sorted along a key no two of its elements share, a list increases. -/
theorem of_sorted (h : l.Pairwise fun a b => f a ≤ f b) (hnd : (l.map f).Nodup) :
    Increasing f l := by
  rw [List.nodup_iff_pairwise_ne, List.pairwise_map] at hnd
  refine (h.and hnd).imp ?_
  rintro a b ⟨hle, hne⟩
  exact lt_of_le_of_ne hle hne

theorem filter (h : Increasing f l) (p : α → Bool) : Increasing f (l.filter p) :=
  List.Pairwise.sublist List.filter_sublist h

end Increasing

end AccountLogUi
