import AccountLogUi.Backend.Equiv.Coherent

/-!
# What is said of dropped edits

A read counts the staged edits it dropped.  The banner says so where the account is on screen, and
otherwise the count is kept until it is.  `owed` follows each count through a run: it is struck out
once a turn of the view's thread ends with the account on screen and the banner naming all that is
owed of it, or once the app no longer has the account.

`Tallies` is what a turn does to the counts, and `tallies_land` says every reply does that, but for
one (`Task.Overwrites`): an account the app had already is put on screen, and the banner that says
so is set over the one that named its dropped edits.
-/

namespace AccountLogUi

open UiHost

/-- The banner names the edits dropped, on its own or after something else. -/
def Notice.Names (notice : Notice) (count : ℕ) : Prop :=
  notice.body = Backend.droppedText count ∨
    (" " ++ Backend.droppedText count).toList <:+ notice.body.toList

instance (notice : Notice) (count : ℕ) : Decidable (notice.Names count) :=
  inferInstanceAs (Decidable (_ ∨ _))

namespace Task

/-- The edits dropped of the account that the reply counts. -/
def drops : Task → Reply → String → ℕ
  | .refresh address _, reply, address' | .publish address, reply, address' =>
    if reply.ok = true ∧ address' = address then reply.dropped else 0
  | _, _, _ => 0

/-- The app no longer has the account. -/
def leaves : Task → Reply → String → Bool
  | .forgetAccount address, reply, address' | .stopObserving address, reply, address' =>
    reply.ok && address' = address
  | _, _, _ => false

/-- The reply says that the app had the account already, and edits dropped of it are kept. -/
def Overwrites : Task → Reply → Backend → Prop
  | .importAccount .., reply, b =>
    reply.ok = true ∧ reply.alreadyHeld = true ∧ 0 < b.dropped reply.address
  | .observeAccount address, reply, b =>
    reply.ok = true ∧ reply.alreadyObserved = true ∧ 0 < b.dropped address
  | _, _, _ => False

instance (task : Task) (reply : Reply) (b : Backend) : Decidable (task.Overwrites reply b) := by
  cases task
  case importAccount => exact inferInstanceAs (Decidable (_ ∧ _ ∧ _))
  case observeAccount => exact inferInstanceAs (Decidable (_ ∧ _ ∧ _))
  all_goals exact inferInstanceAs (Decidable False)

end Task

namespace Backend

/-! ### What a turn does -/

variable {b b' b'' : Backend} {received : String → ℕ} {left : String → Bool}

/-- The counts kept, and what the banner says of the account on screen. -/
structure SameBanner (b b' : Backend) : Prop where
  selectedAddress : b'.selectedAddress = b.selectedAddress
  dropped : b'.dropped = b.dropped
  notice : b'.notice = b.notice

theorem SameBanner.trans (h : SameBanner b b') (h' : SameBanner b' b'') : SameBanner b b'' :=
  ⟨h'.selectedAddress.trans h.selectedAddress, h'.dropped.trans h.dropped,
    h'.notice.trans h.notice⟩

/-- What is kept of an account off screen goes up by what is received, and of the one on screen it
is all named. -/
structure Tallies (b b' : Backend) (received : String → ℕ) (left : String → Bool) : Prop where
  kept : ∀ address, left address = false → address ≠ b'.selectedAddress →
    b'.dropped address = b.dropped address + received address
  named : left b'.selectedAddress = false →
    0 < b.dropped b'.selectedAddress + received b'.selectedAddress →
      b'.notice.Names (b.dropped b'.selectedAddress + received b'.selectedAddress)
  shown : b'.dropped b'.selectedAddress = 0
  left : ∀ address, left address = true → b'.dropped address = 0

/-- A turn that does nothing to the banner can follow. -/
theorem Tallies.banner (h : Tallies b b' received left) (hsame : SameBanner b' b'') :
    Tallies b b'' received left := by
  obtain ⟨hselected, hdropped, hnotice⟩ := hsame
  refine ⟨?_, ?_, ?_, ?_⟩
  · rw [hselected, hdropped]
    exact h.kept
  · rw [hselected, hnotice]
    exact h.named
  · rw [hselected, hdropped]
    exact h.shown
  · rw [hdropped]
    exact h.left

/-- What leaves the selection and the counts has nothing to say. -/
theorem Tallies.quiet (hshown : b.dropped b.selectedAddress = 0)
    (hselected : b'.selectedAddress = b.selectedAddress) (hdropped : b'.dropped = b.dropped) :
    Tallies b b' (fun _ => 0) (fun _ => false) where
  kept _ _ _ := by rw [hdropped, Nat.add_zero]
  named _ hpos := by
    rw [hselected, hshown] at hpos
    omega
  shown := by rw [hselected, hdropped, hshown]
  left _ h := by cases h

theorem Tallies.of_same (hshown : b.dropped b.selectedAddress = 0) (h : SameBanner b b') :
    Tallies b b' (fun _ => 0) (fun _ => false) :=
  .quiet hshown h.selectedAddress h.dropped

theorem report_selected (what message : String) :
    (b.report what message).selectedAddress = b.selectedAddress ∧
      (b.report what message).dropped = b.dropped := by
  unfold report emit setNotice
  dsimp only
  split_ifs <;> exact ⟨rfl, rfl⟩

theorem call_selected (task : Task) : (b.call task).selectedAddress = b.selectedAddress ∧
    (b.call task).dropped = b.dropped := by
  unfold call
  split
  · exact report_selected ..
  · exact ⟨rfl, rfl⟩

/-- The calls that have a notice of their own for a failure. -/
theorem report_banner {what : String} (message : String) (hrevoke : what ≠ "stageRevoke")
    (hdiscard : what ≠ "discardPending") (hstop : what ≠ "stopObserving") :
    SameBanner b (b.report what message) := by
  unfold report emit
  dsimp only
  rw [if_neg hrevoke, if_neg hdiscard, if_neg hstop]
  exact ⟨rfl, rfl, rfl⟩

theorem call_banner {task : Task} (hrevoke : task.what ≠ "stageRevoke")
    (hdiscard : task.what ≠ "discardPending") (hstop : task.what ≠ "stopObserving") :
    SameBanner b (b.call task) := by
  unfold call
  split
  · exact report_banner _ hrevoke hdiscard hstop
  · exact ⟨rfl, rfl, rfl⟩

theorem reloadAccounts_banner : SameBanner b b.reloadAccounts :=
  call_banner (by decide) (by decide) (by decide)

theorem reloadState_banner : SameBanner b b.reloadState := by
  unfold reloadState
  split
  · exact ⟨rfl, rfl, rfl⟩
  · exact call_banner (by simp [Task.what]) (by simp [Task.what]) (by simp [Task.what])

theorem refresh_banner : SameBanner b b.refresh := by
  unfold refresh
  split
  · exact reloadAccounts_banner
  · have hcall : SameBanner { b with statusText := "Reading the store" }
        ({ b with statusText := "Reading the store" }.call
          (.refresh b.selectedAddress b.selection)) :=
      call_banner (by simp [Task.what]) (by simp [Task.what]) (by simp [Task.what])
    exact ⟨hcall.selectedAddress, hcall.dropped, hcall.notice⟩

/-- An account put on screen has what is kept of it named. -/
theorem setSelection_tallies (address : String) :
    Tallies b (b.setSelection address) (fun _ => 0) (fun _ => false) := by
  have hselected : (b.setSelection address).selectedAddress = address :=
    (setSelection_selected address).selectedAddress
  have hdropped : (b.setSelection address).dropped = Function.update b.dropped address 0 := by
    unfold setSelection dismissNotice setNotice
    dsimp only
    split <;> rfl
  refine ⟨fun address' _ hne => ?_, fun _ hpos => .inl ?_, ?_, fun _ h => by cases h⟩
  · rw [hselected] at hne
    rw [hdropped, Function.update_of_ne hne, Nat.add_zero]
  · rw [hselected, Nat.add_zero] at hpos ⊢
    unfold setSelection dismissNotice setNotice
    dsimp only
    rw [if_pos hpos]
  · rw [hselected, hdropped, Function.update_self]

/-- The count of one account. -/
def only (address : String) (count : ℕ) (address' : String) : ℕ :=
  if address' = address then count else 0

theorem keepDropped_tallies (hshown : b.dropped b.selectedAddress = 0) {address : String}
    {count : ℕ} (hoff : 0 < count → address ≠ b.selectedAddress) :
    Tallies b (b.keepDropped address count) (only address count) (fun _ => false) := by
  unfold keepDropped
  split
  · next hpos =>
    have hne := (hoff hpos).symm
    refine ⟨fun address' _ _ => ?_, fun _ hnamed => ?_, ?_, fun _ h => by cases h⟩
    · by_cases haddress : address' = address
      · subst haddress
        simp [only]
      · simp [only, haddress]
    · dsimp only at hnamed
      rw [hshown, only, if_neg hne] at hnamed
      omega
    · dsimp only
      rw [Function.update_of_ne hne, hshown]
  · next hnone =>
    have hreceived : only address count = fun _ => 0 := by
      ext address'
      unfold only
      split <;> omega
    rw [hreceived]
    exact .quiet hshown rfl rfl

/-- What is received of the account on screen is named. -/
theorem Tallies.tells (hshown : b.dropped b.selectedAddress = 0) {address : String} {count : ℕ}
    (hon : address = b.selectedAddress) (hselected : b'.selectedAddress = b.selectedAddress)
    (hdropped : b'.dropped = b.dropped) (hnames : 0 < count → b'.notice.Names count) :
    Tallies b b' (only address count) (fun _ => false) where
  kept address' _ hne := by
    rw [hselected, ← hon] at hne
    rw [hdropped, only, if_neg hne, Nat.add_zero]
  named _ hpos := by
    rw [hselected, hshown, Nat.zero_add, only, if_pos hon.symm] at hpos ⊢
    exact hnames hpos
  shown := by rw [hselected, hdropped, hshown]
  left _ h := by cases h

theorem refreshLanded_tallies (hshown : b.dropped b.selectedAddress = 0) (address : String)
    (selection : UInt64) (reply : Reply) : Tallies b (b.refreshLanded address selection reply)
      (only address reply.dropped) (fun _ => false) := by
  unfold refreshLanded
  dsimp only
  refine Tallies.banner ?_ reloadAccounts_banner
  generalize hsaid : (if reply.dropped > 0 ∧ address = b.selectedAddress then _ else _) = b₁
  have htallies : Tallies b b₁ (only address reply.dropped) (fun _ => false) := by
    subst hsaid
    split
    · next h => exact .tells hshown h.2 rfl rfl fun _ => .inl rfl
    · next h => exact keepDropped_tallies hshown fun hpos haddress => h ⟨hpos, haddress⟩
  split
  · exact htallies.banner ⟨rfl, rfl, rfl⟩
  · exact htallies

theorem publishLanded_tallies (hshown : b.dropped b.selectedAddress = 0) (address : String)
    (reply : Reply) : Tallies b (b.publishLanded address reply)
      (only address reply.dropped) (fun _ => false) := by
  unfold publishLanded
  dsimp only
  refine Tallies.banner ?_ reloadAccounts_banner
  generalize hsaid : (if address ≠ b.selectedAddress then _ else _ : Backend) = b₁
  have htallies : Tallies b b₁ (only address reply.dropped) (fun _ => false) := by
    subst hsaid
    split
    · next hne =>
      have hkeep := @keepDropped_tallies { b with statusText := "Ready", storeProblem := "" } hshown
        address reply.dropped fun _ => hne
      exact ⟨hkeep.kept, hkeep.named, hkeep.shown, hkeep.left⟩
    · next hon =>
      split
      · exact .tells hshown (not_not.mp hon) rfl rfl fun _ => .inl rfl
      · refine .tells hshown (not_not.mp hon) rfl rfl fun hpos => .inr ?_
        dsimp only [setNotice]
        rw [if_pos hpos, String.append_assoc]
        exact ⟨_, String.toList_append.symm⟩
  split
  · exact htallies.banner ⟨rfl, rfl, rfl⟩
  · exact htallies

theorem leaveAccount_tallies (hshown : b.dropped b.selectedAddress = 0) (address : String) :
    Tallies b (b.leaveAccount address) (fun _ => 0) (fun address' => address' = address) := by
  unfold leaveAccount
  dsimp only
  refine Tallies.banner ?_ reloadAccounts_banner
  have hother : ∀ {address'}, decide (address' = address) = false →
      Function.update b.dropped address 0 address' = b.dropped address' := by
    intro address' hleft
    exact Function.update_of_ne (by simpa using hleft) ..
  split
  -- Its account leaves the screen, and nothing takes its place there.
  · have hselect :=
      @setSelection_tallies { b with dropped := Function.update b.dropped address 0 } ""
    refine ⟨fun address' hleft hne => ?_, fun hleft hpos => ?_, hselect.shown, fun address' h => ?_⟩
    · rw [hselect.kept address' rfl hne]
      exact congrArg (· + 0) (hother hleft)
    · have hnames := hselect.named rfl
      dsimp only at hnames
      rw [hother hleft] at hnames
      exact hnames hpos
    · obtain rfl : address' = address := by simpa using h
      by_cases hshow : address' =
          (setSelection ""
            { b with dropped := Function.update b.dropped address' 0 }).selectedAddress
      · have hshown' := hselect.shown
        rwa [← hshow] at hshown'
      · rw [hselect.kept address' rfl hshow]
        exact Function.update_self ..
  -- The account on screen stays.
  · next hne =>
    refine ⟨fun address' hleft _ => ?_, fun _ hpos => ?_, ?_, fun address' h => ?_⟩
    · exact hother hleft
    · dsimp only at hpos
      rw [hshown] at hpos
      omega
    · exact (Function.update_of_ne (Ne.symm hne) ..).trans hshown
    · obtain rfl : address' = address := by simpa using h
      exact Function.update_self ..

/-- An account put on screen, with nothing said over what is named of it. -/
theorem showTaken_tallies (address : String) {already : Bool} (title body : String)
    (hclear : already = true → b.dropped address = 0) :
    Tallies b (b.showTaken address already title body) (fun _ => 0) (fun _ => false) := by
  unfold showTaken
  dsimp only
  refine Tallies.banner ?_ ((reloadAccounts_banner.trans reloadState_banner).trans refresh_banner)
  have hselect := @setSelection_tallies b address
  split
  · next halready =>
    refine ⟨hselect.kept, fun _ hpos => ?_, hselect.shown, hselect.left⟩
    have haddress : ((b.setSelection address).setNotice "info" title body).selectedAddress =
        address := (setSelection_selected address).selectedAddress
    rw [haddress, hclear halready] at hpos
    omega
  · exact hselect

theorem accountsLanded_tallies (hshown : b.dropped b.selectedAddress = 0) (reply : Reply) :
    Tallies b (b.accountsLanded reply) (fun _ => 0) (fun _ => false) := by
  have hselect : ∀ address, Tallies b
      (setSelection address { b with vaultProblem := "", accountsJson := reply.accounts })
      (fun _ => 0) (fun _ => false) := by
    intro address
    have h := @setSelection_tallies { b with vaultProblem := "", accountsJson := reply.accounts }
      address
    exact ⟨h.kept, h.named, h.shown, h.left⟩
  unfold accountsLanded
  dsimp only
  split
  · exact (hselect "").banner ⟨rfl, rfl, rfl⟩
  · have hquiet : Tallies b { b with vaultProblem := "", accountsJson := reply.accounts }
        (fun _ => 0) (fun _ => false) := .quiet hshown rfl rfl
    split
    · exact hquiet.banner reloadState_banner
    · split
      · exact (hselect _).banner (reloadState_banner.trans refresh_banner)
      · exact (hselect _).banner reloadState_banner

/-- A reply handled. -/
theorem landed_tallies (hshown : b.dropped b.selectedAddress = 0) {task : Task} {reply : Reply}
    (hok : reply.ok = true) (hclear : ¬task.Overwrites reply b) :
    Tallies b (b.landed task reply) (task.drops reply) (task.leaves reply) := by
  have hdismissed : Tallies b b.dismissNotice (fun _ => 0) (fun _ => false) := .quiet hshown rfl rfl
  have hedited : Tallies b b.edited (fun _ => 0) (fun _ => false) :=
    hdismissed.banner reloadAccounts_banner
  have hcounts : ∀ address, (fun address' =>
      if reply.ok = true ∧ address' = address then reply.dropped else 0) =
        only address reply.dropped := by
    intro address
    ext address'
    simp [only, hok]
  have hleaves : ∀ address, (fun address' : String => reply.ok && decide (address' = address)) =
      fun address' => decide (address' = address) := by
    intro address
    ext address'
    rw [hok, Bool.true_and]
  cases task with
  | accounts => exact accountsLanded_tallies hshown reply
  | state address =>
    show Tallies b (b.stateLanded address reply) _ _
    unfold stateLanded
    split <;> exact .quiet hshown rfl rfl
  | refresh address selection =>
    show Tallies b _ (fun address' => if reply.ok = true ∧ _ then _ else _) _
    rw [hcounts]
    exact refreshLanded_tallies hshown address selection reply
  | createAccount password => exact showTaken_tallies reply.address "" "" (by simp)
  | importAccount secretHex password =>
    -- The banner of an account already held is set over the one naming its count, if any.
    refine showTaken_tallies reply.address _ _ fun halready => ?_
    by_contra hne
    exact hclear ⟨hok, halready, Nat.pos_of_ne_zero hne⟩
  | exportAccount address password => exact .quiet hshown rfl rfl
  | unlock address password => exact .of_same hshown reloadAccounts_banner
  | forgetAccount address =>
    show Tallies b _ _ (fun address' => reply.ok && decide (address' = address))
    rw [hleaves]
    exact leaveAccount_tallies hshown address
  | observeAccount address =>
    refine showTaken_tallies address _ _ fun halready => ?_
    by_contra hne
    exact hclear ⟨hok, halready, Nat.pos_of_ne_zero hne⟩
  | stopObserving address =>
    show Tallies b _ _ (fun address' => reply.ok && decide (address' = address))
    rw [hleaves]
    exact leaveAccount_tallies hshown address
  | publish address =>
    show Tallies b _ (fun address' => if reply.ok = true ∧ _ then _ else _) _
    rw [hcounts]
    exact publishLanded_tallies hshown address reply
  | _ => exact hedited

theorem refused_selected (task : Task) (message clock : String) :
    (b.refused task message clock).selectedAddress = b.selectedAddress ∧
      (b.refused task message clock).dropped = b.dropped := by
  have hreload : b.reloadAccounts.selectedAddress = b.selectedAddress ∧
      b.reloadAccounts.dropped = b.dropped := call_selected .accounts
  cases task with
  | refresh address selection =>
    unfold refused
    dsimp only
    split
    · exact ⟨reloadAccounts_banner.selectedAddress, reloadAccounts_banner.dropped⟩
    · exact hreload
  | publish address =>
    unfold refused
    dsimp only
    split
    · exact hreload
    · exact ⟨refresh_banner.selectedAddress, refresh_banner.dropped⟩
  | state address =>
    unfold refused
    dsimp only
    split <;> exact ⟨rfl, rfl⟩
  | _ => exact ⟨rfl, rfl⟩

theorem ended_banner : SameBanner b b.ended := by
  rw [ended_eq]
  exact ⟨rfl, rfl, rfl⟩

/-- What comes back of a call, handled. -/
theorem land_tallies (hshown : b.dropped b.selectedAddress = 0) {task : Task} {reply : Reply}
    (clock : String) (hclear : ¬task.Overwrites reply b) :
    Tallies b (b.land task (some reply) clock) (task.drops reply) (task.leaves reply) := by
  unfold land
  dsimp only
  split
  · next hrefused =>
    have hdrops : task.drops reply = fun _ => 0 := by
      ext address
      cases task <;> simp [Task.drops, hrefused]
    have hleaves : task.leaves reply = fun _ => false := by
      ext address
      cases task <;> simp [Task.leaves, hrefused]
    rw [hdrops, hleaves]
    have hreport := report_selected (b := b) task.what reply.error
    have hrefuses := refused_selected (b := b.report task.what reply.error) task reply.error clock
    exact (Tallies.quiet hshown (hrefuses.1.trans hreport.1) (hrefuses.2.trans hreport.2)).banner
      ended_banner
  · next hok =>
    have hlanded := landed_tallies hshown (by simpa using hok) hclear
    have hemitted : SameBanner (b.landed task reply)
        ((b.landed task reply).emit (.succeeded task.what)) := ⟨rfl, rfl, rfl⟩
    exact hlanded.banner (hemitted.trans ended_banner)

/-- A slot run. -/
theorem slot_tallies (hshown : b.dropped b.selectedAddress = 0) (slot : Slot) :
    Tallies b (b.slot slot) (fun _ => 0) (fun _ => false) := by
  have hcall : ∀ task, Tallies b (b.call task) (fun _ => 0) (fun _ => false) :=
    fun task => .quiet hshown (call_selected task).1 (call_selected task).2
  cases slot with
  | refresh => exact .of_same hshown refresh_banner
  | selectAccount address =>
    show Tallies b (b.selectAccount address) _ _
    unfold selectAccount
    split
    · exact .quiet hshown rfl rfl
    · exact (setSelection_tallies address).banner (reloadState_banner.trans refresh_banner)
  | stageRevoke index =>
    show Tallies b (b.stageRevoke index) _ _
    unfold stageRevoke
    split
    · exact .quiet hshown (report_selected ..).1 (report_selected ..).2
    · exact hcall _
  | publish =>
    have hpublish := call_selected (b := { b with statusText := "Publishing" })
      (.publish b.selectedAddress)
    exact .quiet hshown hpublish.1 hpublish.2
  | dismissNotice => exact .quiet hshown rfl rfl
  | contextReady =>
    show Tallies b b.onContextReady _ _
    unfold onContextReady
    dsimp only
    split
    · have hrefresh := refresh_banner (b := { b with contextReady := true })
      exact .quiet hshown hrefresh.selectedAddress hrefresh.dropped
    · exact .quiet hshown rfl rfl
  | _ => exact hcall _

end Backend

/-! ### What is owed -/

namespace UiHost

variable {L : Type} {lib : Library L} {hs : List (Happened L)} {s s' : UiHost L} {event : Event}

namespace Happened

variable (h : Happened L) (address : String)

/-- The edits dropped of the account that a reply handled counts. -/
def drops : ℕ :=
  match h.landed with
  | some (task, reply) => task.drops reply address
  | none => 0

/-- The app was told that it no longer has the account. -/
def leaves : Bool :=
  match h.landed with
  | some (task, reply) => task.leaves reply address
  | none => false

/-- The account is on screen, and the banner names so many edits dropped of it. -/
def Says (count : ℕ) : Prop :=
  h.after.app.selectedAddress = address ∧ h.after.app.notice.Names count

instance (count : ℕ) : Decidable (h.Says address count) := inferInstanceAs (Decidable (_ ∧ _))

/-- The counts owed, with the one a reply brings; none, where they are named at the end, or the app
no longer has the account. -/
def owes (owed : List ℕ) : List ℕ :=
  if h.leaves address = true ∨ h.Says address (owed.sum + h.drops address) then []
  else if h.drops address > 0 then owed ++ [h.drops address] else owed

/-- A banner is set over the one that named what was kept. -/
def Overwrites : Prop := ∃ p ∈ h.landed, p.1.Overwrites p.2 h.before.app

instance : Decidable h.Overwrites := inferInstanceAs (Decidable (∃ p ∈ h.landed, _))

end Happened

/-- The counts of edits dropped of an account that are not named yet, oldest first. -/
def owed (hs : List (Happened L)) (address : String) : List ℕ :=
  hs.foldl (fun owed h => h.owes address owed) []

/-- No count of dropped edits goes without a word: what is owed is kept, and what is no longer kept
was named, or the app no longer has the account. -/
structure Said (hs : List (Happened L)) (s : UiHost L) : Prop where
  kept : ∀ address, (owed hs address).sum = s.app.dropped address
  named : ∀ h ∈ hs, ∀ address, 0 < h.before.app.dropped address →
    h.after.app.dropped address = 0 →
      h.leaves address = true ∨ h.Says address (h.before.app.dropped address + h.drops address)

/-- What happens, happens to the counts as `Tallies` says. -/
theorem Step.tallies (hstep : Step lib event s s')
    (hshown : s.app.dropped s.app.selectedAddress = 0)
    (hclear : ¬Happened.Overwrites (⟨event, s, s'⟩ : Happened L)) :
    s.app.Tallies s'.app (Happened.drops ⟨event, s, s'⟩) (Happened.leaves ⟨event, s, s'⟩) := by
  cases hstep with
  | slot slot => exact Backend.slot_tallies hshown slot
  | begin hidle hpool => exact .quiet hshown rfl rfl
  | skip hrunning => exact .quiet hshown rfl rfl
  | finish hrunning h => exact .quiet hshown rfl rfl
  | @land _ task reply rest clock hposted =>
    cases reply with
    | none =>
      have hnone : Happened.landed (⟨.land clock, s, { s with
          app := s.app.land task none clock, replies := rest }⟩ : Happened L) = none := by
        unfold Happened.landed
        rw [hposted]
      unfold Happened.drops Happened.leaves
      rw [hnone]
      exact .of_same hshown Backend.ended_banner
    | some reply =>
      have hlanded : Happened.landed (⟨.land clock, s, { s with
          app := s.app.land task (some reply) clock, replies := rest }⟩ : Happened L) =
            some (task, reply) := by
        unfold Happened.landed
        rw [hposted]
      unfold Happened.drops Happened.leaves
      rw [hlanded]
      exact Backend.land_tallies hshown clock fun hover => hclear ⟨_, hlanded, hover⟩

/-- What is kept is what is owed, after as before. -/
theorem owes_sum {h : Happened L} (htallies : h.before.app.Tallies h.after.app h.drops h.leaves)
    {address : String} {owed : List ℕ} (howed : owed.sum = h.before.app.dropped address) :
    (h.owes address owed).sum = h.after.app.dropped address := by
  unfold Happened.owes
  rw [howed]
  by_cases hleaves : h.leaves address = true
  · rw [if_pos (.inl hleaves), htallies.left address hleaves, List.sum_nil]
  have hstays : h.leaves address = false := by simpa using hleaves
  by_cases hsays : h.Says address (h.before.app.dropped address + h.drops address)
  · rw [if_pos (.inr hsays), ← hsays.1, htallies.shown, List.sum_nil]
  rw [if_neg (not_or.mpr ⟨hleaves, hsays⟩)]
  have hsum : (if h.drops address > 0 then owed ++ [h.drops address] else owed).sum =
      h.before.app.dropped address + h.drops address := by
    split
    · rw [List.sum_append, howed, List.sum_singleton]
    · omega
  rw [hsum]
  by_cases hon : address = h.after.app.selectedAddress
  · -- On screen with nothing named, there is nothing owed.
    subst hon
    rw [htallies.shown]
    by_contra hne
    exact hsays ⟨rfl, htallies.named hstays (Nat.pos_of_ne_zero hne)⟩
  · exact (htallies.kept address hstays hon).symm

theorem Played.tallied {coreOpen : Bool} {vault : String} {l : L}
    (hplayed : Played lib (start coreOpen vault l) hs s) (hclear : ∀ h ∈ hs, ¬h.Overwrites) :
    s.app.dropped s.app.selectedAddress = 0 ∧
      (∀ address, (owed hs address).sum = s.app.dropped address) ∧
      ∀ h ∈ hs, h.before.app.Tallies h.after.app h.drops h.leaves := by
  induction hplayed with
  | nil =>
    have hdropped : ∀ address, (start coreOpen vault l).app.dropped address = 0 := by
      intro address
      cases coreOpen <;> rfl
    exact ⟨hdropped _, fun address => (hdropped address).symm, by simp⟩
  | @step hs s s' event h hstep ih =>
    obtain ⟨hshown, hkept, htallied⟩ := ih fun h hmem => hclear h (List.mem_append_left _ hmem)
    have htallies := hstep.tallies hshown
      (hclear _ (List.mem_append_right _ (List.mem_singleton_self _)))
    refine ⟨htallies.shown, fun address => ?_, fun h hmem => ?_⟩
    · unfold owed
      rw [List.foldl_append]
      exact owes_sum (h := ⟨event, s, s'⟩) htallies (hkept address)
    · rcases List.mem_append.mp hmem with hmem | hmem
      · exact htallied h hmem
      · obtain rfl := List.mem_singleton.mp hmem
        exact htallies

/-! ### The banner set over another -/

/-- What a banner ends in that names dropped edits. -/
theorem names_suffix {notice : Notice} {count : ℕ} (h : notice.Names count) :
    "dropped.".toList <:+ notice.body.toList := by
  have htext : "dropped.".toList <:+ (Backend.droppedText count).toList := by
    unfold Backend.droppedText
    split
    · decide +kernel
    · rw [String.toList_append]
      exact List.IsSuffix.trans (by decide +kernel) (List.suffix_append _ _)
  rcases h with hbody | hbody
  · rwa [hbody]
  · rw [String.toList_append] at hbody
    exact (htext.trans (List.suffix_append _ _)).trans hbody

theorem showTaken_overwrites {b : Backend} (address title : String) {body : String}
    (hbody : ¬"dropped.".toList <:+ body.toList) :
    (b.showTaken address true title body).dropped address = 0 ∧
      ∀ count, ¬(b.showTaken address true title body).notice.Names count := by
  have hselected := (Backend.setSelection_selected (b := b) address).selectedAddress
  have hshown := (@Backend.setSelection_tallies b address).shown
  rw [hselected] at hshown
  have hbanner : ((b.setSelection address).setNotice "info" title body).SameBanner
      (b.showTaken address true title body) :=
    (Backend.reloadAccounts_banner.trans Backend.reloadState_banner).trans Backend.refresh_banner
  rw [hbanner.dropped, hbanner.notice]
  exact ⟨hshown, fun count hnames => hbody (names_suffix hnames)⟩

/-- The banner is set over the one that named what was kept, which goes without a word. -/
theorem Step.overwrites (hstep : Step lib event s s')
    (h : Happened.Overwrites (⟨event, s, s'⟩ : Happened L)) : ∃ address,
      0 < s.app.dropped address ∧ s'.app.dropped address = 0 ∧
      Happened.leaves (⟨event, s, s'⟩ : Happened L) address = false ∧
      ∀ count, ¬s'.app.notice.Names count := by
  cases hstep with
  | @land _ task reply rest clock hposted =>
    cases reply with
    | none =>
      unfold Happened.Overwrites Happened.landed at h
      rw [hposted] at h
      obtain ⟨p, hmem, -⟩ := h
      cases hmem
    | some reply =>
      have hlanded : Happened.landed (⟨.land clock, s, { s with
          app := s.app.land task (some reply) clock, replies := rest }⟩ : Happened L) =
            some (task, reply) := by
        unfold Happened.landed
        rw [hposted]
      unfold Happened.Overwrites at h
      rw [hlanded] at h
      obtain ⟨p, hmem, h⟩ := h
      obtain rfl := Option.some.inj hmem
      unfold Happened.leaves
      rw [hlanded]
      have hover : ∀ {address title body : String}, reply.ok = true →
          s.app.landed task reply = s.app.showTaken address true title body →
          ¬"dropped.".toList <:+ body.toList →
          (s.app.land task (some reply) clock).dropped address = 0 ∧
            ∀ count, ¬(s.app.land task (some reply) clock).notice.Names count := by
        intro address title body hok hshow hbody
        have hland : s.app.land task (some reply) clock =
            ((s.app.landed task reply).emit (.succeeded task.what)).ended := by
          unfold Backend.land
          dsimp only
          rw [if_neg (by rw [hok]; simp)]
        have hbanner := Backend.ended_banner
          (b := (s.app.landed task reply).emit (.succeeded task.what))
        rw [hland, hbanner.dropped, hbanner.notice, hshow]
        exact showTaken_overwrites address title hbody
      -- Only these two show an account that may have been there before.
      cases task with
      | importAccount secretHex password =>
        obtain ⟨hok, halready, hpos⟩ := h
        have hafter := hover hok (by
          show s.app.showTaken reply.address reply.alreadyHeld _ _ = _
          rw [halready]) (by decide +kernel)
        exact ⟨reply.address, hpos, hafter.1, rfl, hafter.2⟩
      | observeAccount address =>
        obtain ⟨hok, halready, hpos⟩ := h
        have hafter := hover hok (by
          show s.app.showTaken address reply.alreadyObserved _ _ = _
          rw [halready]) (by decide +kernel)
        exact ⟨address, hpos, hafter.1, rfl, hafter.2⟩
      | _ => exact h.elim
  | _ =>
    obtain ⟨p, hmem, -⟩ := h
    cases hmem

theorem Played.step_of_mem {start : UiHost L} (hplayed : Played lib start hs s) {h : Happened L}
    (hmem : h ∈ hs) : Step lib h.event h.before h.after := by
  induction hplayed with
  | nil => cases hmem
  | step _ hstep ih =>
    rcases List.mem_append.mp hmem with hmem | hmem
    · exact ih hmem
    · obtain rfl := List.mem_singleton.mp hmem
      exact hstep

/-- In every run, no count of dropped edits goes without a word, just where no account the app had
already is taken in while a count of it is kept. -/
theorem dropped_edits_said_iff {coreOpen : Bool} {vault : String} {l : L}
    (hplayed : Played lib (start coreOpen vault l) hs s) :
    Said hs s ↔ ∀ h ∈ hs, ¬h.Overwrites := by
  constructor
  · intro hsaid h hmem hover
    obtain ⟨address, hpos, hnone, hstays, hnames⟩ :=
      (hplayed.step_of_mem hmem).overwrites hover
    rcases hsaid.named h hmem address hpos hnone with hleaves | hsays
    · rw [hstays] at hleaves
      cases hleaves
    · exact hnames _ hsays.2
  · intro hclear
    obtain ⟨-, hkept, htallied⟩ := hplayed.tallied hclear
    refine ⟨hkept, fun h hmem address hpos hnone => ?_⟩
    have htallies := htallied h hmem
    by_cases hleaves : h.leaves address = true
    · exact .inl hleaves
    have hstays : h.leaves address = false := by simpa using hleaves
    by_cases hon : address = h.after.app.selectedAddress
    · subst hon
      exact .inr ⟨rfl, htallies.named hstays (by omega)⟩
    · have hkeeps := htallies.kept address hstays hon
      omega

/-! ### A count kept off screen -/

/-- What a library answers that holds one account, with so many edits of it waiting that its log
holds already, and observes another. -/
def answerCovered (held observed : AccountSummary) (shown : String → AccountState) :
    Task → ℕ → Reply × ℕ
  | .accounts, waiting => ({ ok := true, accounts := [held, observed] }, waiting)
  | .state address, waiting => ({ ok := true, state := some (shown address) }, waiting)
  | .refresh address _, waiting =>
    if address = held.address then ({ ok := true, dropped := waiting }, 0)
    else ({ ok := true }, waiting)
  -- The key is the one held.
  | .importAccount .., waiting =>
    ({ ok := true, address := held.address, alreadyHeld := true }, waiting)
  | _, waiting => ({ error := "the vault cannot be written" }, waiting)

def covered (held observed : AccountSummary) (shown : String → AccountState) : Library ℕ where
  Answers task waiting reply waiting' :=
    answerCovered held observed shown task waiting = (reply, waiting')
  listing _ := [held, observed]
  screen _ address := some (shown address)

/-- The second account is put on screen while the first one's log is read, which has an edit
dropped off screen. -/
def movedOff (held observed : AccountSummary) (shown : String → AccountState) : Run ℕ :=
  let read := (Run.ask ([], start true "/home/user/vault" 1) .contextReady).goOn
    (answerCovered held observed shown) "09:00:00" 7
  (read.ask (.selectAccount observed.address)).goOn (answerCovered held observed shown)
    "09:00:00" 30

/-- A slot run after that, with what it starts. -/
def movedBack (held observed : AccountSummary) (shown : String → AccountState) (slot : Slot) :
    Run ℕ :=
  ((movedOff held observed shown).ask slot).goOn (answerCovered held observed shown) "09:00:00" 30

theorem movedBack_played (held observed : AccountSummary) (shown : String → AccountState)
    (slot : Slot) : Played (covered held observed shown) (start true "/home/user/vault" 1)
      (movedBack held observed shown slot).1 (movedBack held observed shown slot).2 := by
  have hanswer : ∀ task waiting, (covered held observed shown).Answers task waiting
      (answerCovered held observed shown task waiting).1
      (answerCovered held observed shown task waiting).2 := fun task waiting => rfl
  have hstart : Played (covered held observed shown) (start true "/home/user/vault" 1)
      (([], start true "/home/user/vault" 1) : Run ℕ).1 (start true "/home/user/vault" 1) := .nil
  have hoff : Played (covered held observed shown) (start true "/home/user/vault" 1)
      (movedOff held observed shown).1 (movedOff held observed shown).2 :=
    ((hstart.ask .contextReady).goOn hanswer 7).ask _ |>.goOn hanswer 30
  exact (hoff.ask slot).goOn hanswer 30

/-- An account held, and one observed. -/
def heldRow : AccountSummary :=
  Manager.summaryOf Crates.reference .new Reference.probeKey (some ⟨Reference.probeKey, false⟩)

def observedRow : AccountSummary :=
  Manager.summaryOf Crates.reference .new ⟨⟨List.replicate 32 8, List.length_replicate⟩⟩ none

def drawn (address : String) : AccountState :=
  { Manager.stateOf Crates.reference .new Reference.probeKey none with address := address }

/-- Put back on screen from the list, it has its dropped edit named. -/
theorem dropped_edits_said_selected :
    let run := movedBack heldRow observedRow drawn (.selectAccount heldRow.address)
    run.2.app.notice.body = Backend.droppedText 1 ∧ Said run.1 run.2 := by
  intro run
  have hplayed : Played (covered heldRow observedRow drawn) (start true "/home/user/vault" 1)
      run.1 run.2 := movedBack_played _ _ _ _
  have hclear : run.2.app.notice.body = Backend.droppedText 1 ∧ ∀ h ∈ run.1, ¬h.Overwrites := by
    decide +kernel
  exact ⟨hclear.1, (dropped_edits_said_iff hplayed).mpr hclear.2⟩

/-- Put back on screen by its key, typed in again, it has its dropped edit named and the banner
that names it replaced, in one turn. -/
theorem dropped_edit_replaced :
    let run := movedBack heldRow observedRow drawn (.importAccount "00" "")
    Played (covered heldRow observedRow drawn) (start true "/home/user/vault" 1) run.1 run.2 ∧
      ¬Said run.1 run.2 := by
  intro run
  have hplayed : Played (covered heldRow observedRow drawn) (start true "/home/user/vault" 1)
      run.1 run.2 := movedBack_played _ _ _ _
  have hlost : ∃ h ∈ run.1, 0 < h.before.app.dropped heldRow.address ∧
      h.after.app.dropped heldRow.address = 0 ∧ h.leaves heldRow.address = false ∧
      ¬h.Says heldRow.address
        (h.before.app.dropped heldRow.address + h.drops heldRow.address) := by
    decide +kernel
  refine ⟨hplayed, fun hsaid => ?_⟩
  obtain ⟨h, hmem, hpos, hnone, hstays, hsilent⟩ := hlost
  rcases hsaid.named h hmem _ hpos hnone with hleaves | hsays
  · rw [hstays] at hleaves
    cases hleaves
  · exact hsilent hsays

end UiHost

end AccountLogUi
