import AccountLogUi.Devices.Equiv.Shared

/-!
# A store that has moved on

Between the read of a publish and its write the other devices may have made the log longer.  What
the store compares is the payload it holds with the one it is handed, so what counts is whether
what they wrote starts what this device planned: `Write.Clear` says it does not.  Where it does, as
for two devices that planned the same, the store takes the update a second time and both publishes
answer with the same index.

`OnTop` is what a run would be like if no update was taken but on top of the log it was planned
for, and `on_top_iff` says it is so just where every write is clear.
-/

namespace AccountLogUi.Devices

open Manager

variable {ι Addr : Type} [DecidableEq Addr] {C : Crates Addr} {start s : Devices ι Addr}
  {ps : List (Write ι Addr)}

namespace Write

variable (C : Crates Addr) (p : Write ι Addr)

/-- The log the store held, when the device wrote. -/
def held : List AccountEntry := p.before.store.entries C p.inFlight.addr

/-- The log was made longer since it was read. -/
def MovedOn : Prop := p.inFlight.read.length < (p.held C).length

/-- The write was refused as diverged, and left the store and the edits staged. -/
structure Unwritten : Prop where
  answer : p.answer = .error (.account (.provider .diverged))
  store : p.after.store = p.before.store
  staged : (p.after.device p.device).core.staged p.inFlight.addr =
    (p.before.device p.device).core.staged p.inFlight.addr

/-- What others wrote since the read is nothing, or not what the edits staged start with as they are
written. -/
def Clear : Prop :=
  (p.held C).drop p.inFlight.read.length = [] ∨
    ¬(p.held C).drop p.inFlight.read.length <+: plan p.staged

instance : Decidable (p.Clear C) := inferInstanceAs (Decidable (_ ∨ _))

/-- One publish reports none of the entries a later one does. -/
def Apart (p q : Write ι Addr) : Prop :=
  p.inFlight.addr = q.inFlight.addr → ∀ first dropped first' dropped',
    p.answer = .ok ⟨some first, dropped⟩ → q.answer = .ok ⟨some first', dropped'⟩ →
      first + p.inFlight.update.entries.length ≤ first'

end Write

/-- No update was taken but on top of the log it was planned for. -/
structure OnTop (C : Crates Addr) (ps : List (Write ι Addr)) : Prop where
  refused : ∀ p ∈ ps, p.MovedOn C → p.Unwritten
  taken : ∀ p ∈ ps, ∀ first dropped, p.answer = .ok ⟨some first, dropped⟩ →
    p.held C = p.inFlight.read
  apart : ps.Pairwise Write.Apart

variable [DecidableEq ι] {p q : Write ι Addr}

namespace Write

omit [DecidableEq ι] in
theorem Refused.unwritten (h : p.Refused C) : p.Unwritten :=
  ⟨h.answer, h.store, by rw [h.core]⟩

/-- What was held is what was read, with what others wrote since. -/
theorem Performed.held_eq (h : p.Performed C s) :
    p.held C = p.inFlight.read ++ (p.held C).drop p.inFlight.read.length := by
  have hprefix : p.inFlight.read <+: p.held C := h.shared.read_prefix h.flight
  obtain ⟨more, hmore⟩ := hprefix
  rw [← hmore, List.drop_left]

/-- The store takes a write just where what others wrote starts what was planned. -/
theorem Performed.taken_iff (hL : C.LogLaws) (hA : C.AccountLaws) (h : p.Performed C s) :
    p.Taken C ↔ (p.held C).drop p.inFlight.read.length <+: plan p.staged := by
  have hentries : p.inFlight.update.entries = plan p.staged := h.shared.entries_eq h.flight
  have hprefix : p.held C <+: p.inFlight.read ++ p.inFlight.update.entries ↔
      (p.held C).drop p.inFlight.read.length <+: plan p.staged := by
    rw [h.held_eq, hentries, List.prefix_append_right_inj, List.drop_left]
  rw [← hprefix]
  constructor
  · exact Taken.before
  · intro hfits
    rcases h.refused_or_taken hL hA with hrefused | htaken
    · exact absurd hfits hrefused.past
    · exact htaken

omit [DecidableEq ι] in
theorem movedOn_iff : p.MovedOn C ↔ (p.held C).drop p.inFlight.read.length ≠ [] := by
  unfold MovedOn
  rw [Ne, List.drop_eq_nil_iff, not_le]

/-- A write that answers with an index was taken, with the length of what was read. -/
theorem Performed.taken_of_answer (hL : C.LogLaws) (hA : C.AccountLaws) (h : p.Performed C s)
    {first dropped : ℕ} (hanswer : p.answer = .ok ⟨some first, dropped⟩) :
    p.Taken C ∧ p.inFlight.read.length = first := by
  rcases h.refused_or_taken hL hA with hrefused | htaken
  · rw [hrefused.answer] at hanswer
    cases hanswer
  · obtain ⟨dropped', hanswer'⟩ := htaken.answer
    rw [hanswer'] at hanswer
    exact ⟨htaken, Option.some.inj (Published.mk.inj (Except.ok.inj hanswer)).1⟩

/-- A clear write is taken on top of what was read only. -/
theorem Performed.held_of_clear (hL : C.LogLaws) (hA : C.AccountLaws) (h : p.Performed C s)
    (hclear : p.Clear C) (htaken : p.Taken C) : p.held C = p.inFlight.read := by
  rcases hclear with hnone | hpast
  · have hheld := h.held_eq
    rwa [hnone, List.append_nil] at hheld
  · exact absurd ((h.taken_iff hL hA).mp htaken) hpast

/-- A clear write is refused where the store has moved on. -/
theorem Performed.unwritten_of_clear (hL : C.LogLaws) (hA : C.AccountLaws) (h : p.Performed C s)
    (hclear : p.Clear C) (hmoved : p.MovedOn C) : p.Unwritten := by
  rcases h.refused_or_taken hL hA with hrefused | htaken
  · exact hrefused.unwritten
  · have hheld := h.held_of_clear hL hA hclear htaken
    unfold MovedOn at hmoved
    rw [hheld] at hmoved
    omega

/-- One that is not clear is taken though the store has moved on. -/
theorem Performed.clear_of_unwritten (hL : C.LogLaws) (hA : C.AccountLaws) (h : p.Performed C s)
    (hrefuses : p.MovedOn C → p.Unwritten) : p.Clear C := by
  by_contra hclear
  unfold Clear at hclear
  rw [not_or, not_not] at hclear
  obtain ⟨dropped, hanswer⟩ := ((h.taken_iff hL hA).mpr hclear.2).answer
  have hunwritten := hrefuses (movedOn_iff.mpr hclear.1)
  rw [hunwritten.answer] at hanswer
  cases hanswer

end Write

/-- Where every write is clear, what one publish reports, no later one does. -/
theorem Run.apart (hV : C.VaultLaws) (hL : C.LogLaws) (hA : C.AccountLaws)
    (hstart : Shared C start) (h : Run C start ps s) (hclear : ∀ p ∈ ps, p.Clear C) :
    ps.Pairwise Write.Apart := by
  induction h with
  | nil => exact .nil
  | act i op _ _ ih => exact ih hclear
  | @write ps s i inFlight h hflight ih =>
    refine List.pairwise_append.mpr ⟨ih fun p hp => hclear p (List.mem_append_left _ hp),
      List.pairwise_singleton .., fun p hp q hq => ?_⟩
    intro haddr first dropped first' dropped' hanswer hanswer'
    have hperformed := (h.write hflight).performed hV hL hA hstart q (List.mem_append_right _ hq)
    obtain ⟨htaken, rfl⟩ := (h.performed hV hL hA hstart p hp).taken_of_answer hL hA hanswer
    obtain ⟨htaken', rfl⟩ := hperformed.taken_of_answer hL hA hanswer'
    have hread := hperformed.held_of_clear hL hA (hclear q (List.mem_append_right _ hq)) htaken'
    -- What the first one left in the store is still there when the second one reads.
    have hsince := (h.performed hV hL hA hstart p hp).since p.inFlight.addr
    have hbefore : q.before = s := by
      rw [List.mem_singleton.mp hq]
      rfl
    unfold Write.held at hread
    rw [hbefore, ← haddr] at hread
    rw [htaken.after, hread] at hsince
    have hlength := hsince.length_le
    rwa [List.length_append] at hlength
  | elsewhere i disk now _ ih => exact ih hclear

/-- Any number of devices write to one store in memory, in whatever order.  A store that has moved
on refuses the update, what it holds and the edits staged are left, and no two publishes report one
entry, just where what others wrote since a read is never what this device goes on to write. -/
theorem on_top_iff (hV : C.VaultLaws) (hL : C.LogLaws) (hA : C.AccountLaws)
    (hstart : start.Fresh C) (h : Run C start ps s) :
    OnTop C ps ↔ ∀ p ∈ ps, p.Clear C := by
  have hperformed := h.performed hV hL hA hstart.shared
  constructor
  · intro htop p hp
    exact (hperformed p hp).clear_of_unwritten hL hA (htop.refused p hp)
  · intro hclear
    refine ⟨fun p hp => (hperformed p hp).unwritten_of_clear hL hA (hclear p hp),
      fun p hp first dropped hanswer => ?_, h.apart hV hL hA hstart.shared hclear⟩
    have htaken := ((hperformed p hp).taken_of_answer hL hA hanswer).1
    exact (hperformed p hp).held_of_clear hL hA (hclear p hp) htaken

/-- Two devices planned a name each, and wrote it, one after the other. -/
theorem twoPlanned_writes (name name' : String) {P : Write Bool Reference.Addr → Prop}
    {Q : Write Bool Reference.Addr → Write Bool Reference.Addr → Prop}
    (h : ∃ hsome, P ((twoPlanned name name').write Crates.reference false
        (((twoPlanned name name').device false).inFlight.get hsome)) ∧
      ∃ hsome', Q ((twoPlanned name name').write Crates.reference false
          (((twoPlanned name name').device false).inFlight.get hsome))
        (((twoPlanned name name').write Crates.reference false
          (((twoPlanned name name').device false).inFlight.get hsome)).after.write
            Crates.reference true
          ((((twoPlanned name name').write Crates.reference false
            (((twoPlanned name name').device false).inFlight.get hsome)).after.device
              true).inFlight.get hsome'))) :
    ∃ p q, Run Crates.reference twoFresh [p, q] q.after ∧ P p ∧ Q p q := by
  obtain ⟨hsome, hP, hsome', hQ⟩ := h
  have hrun := (twoPlanned_run name name').write (Option.some_get hsome).symm
  exact ⟨_, _, hrun.write (Option.some_get hsome').symm, hP, hQ⟩

/-- Two devices that planned different names. -/
theorem on_top_of_two_names : ∃ p q, Run Crates.reference twoFresh [p, q] q.after ∧
    OnTop Crates.reference [p, q] := by
  obtain ⟨p, q, hrun, hp, hq⟩ := twoPlanned_writes "Saro" "Raya"
    (P := fun p => p.Clear Crates.reference) (Q := fun _ q => q.Clear Crates.reference)
    (by decide +kernel)
  refine ⟨p, q, hrun, (on_top_iff Reference.vaultLaws Reference.logLaws Reference.accountLaws
    twoFresh_fresh hrun).mpr ?_⟩
  intro r hr
  rcases List.mem_pair.mp hr with rfl | rfl
  · exact hp
  · exact hq

/-- Two devices that planned one name: the store has moved on when the second one writes, takes its
update all the same, and both answer with the same index. -/
theorem taken_after_moved_on : ∃ p q, Run Crates.reference twoFresh [p, q] q.after ∧
    p.answer = .ok ⟨some 0, 0⟩ ∧ q.answer = .ok ⟨some 0, 0⟩ ∧
    q.MovedOn Crates.reference ∧ ¬OnTop Crates.reference [p, q] := by
  obtain ⟨p, q, hrun, hp, hq, hmoved⟩ := twoPlanned_writes "Saro" "Saro"
    (P := fun p => p.answer = .ok ⟨some 0, 0⟩)
    (Q := fun _ q => q.answer = .ok ⟨some 0, 0⟩ ∧
      q.inFlight.read.length < (q.held Crates.reference).length) (by decide +kernel)
  refine ⟨p, q, hrun, hp, hq, hmoved, fun htop => ?_⟩
  have hunwritten := htop.refused q (by simp) hmoved
  rw [hunwritten.answer] at hq
  cases hq

end AccountLogUi.Devices
