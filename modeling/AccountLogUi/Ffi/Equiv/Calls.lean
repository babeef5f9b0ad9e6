import AccountLogUi.Ffi.Basic
import AccountLogUi.Manager.Steps

/-!
# A call of the C ABI is an operation of the core

`Task.op` is the operation of the core that a task of the backend asks for, and `Task.reply` what
its answer is told as.  `work_eq` says that the call the task makes comes to just that, through the
C strings its arguments are handed over as: a text reaches the core as it is, up to its first NUL.
-/

namespace AccountLogUi

open Manager

variable {Addr : Type} [DecidableEq Addr] (C : Crates Addr)

/-! ### What is asked for -/

/-- The password a text from the view chooses, where an empty one chooses none. -/
def chosenPassword (password : String) : Option String :=
  if password = "" then none else some (beforeNul password)

/-- The operation a task asks for, refused where its address is none. -/
def Task.op (generated : Ed25519SigningKey) (seed : ℕ) :
    Task → Except (CoreError Addr) (CoreOp Addr)
  | .accounts => .ok .accounts
  | .state address => do return .state (← parseAddress C (beforeNul address))
  | .refresh address _ => do return .refresh (← parseAddress C (beforeNul address))
  | .createAccount password => .ok (.createAccount generated (chosenPassword password) seed)
  | .importAccount secretHex password =>
    .ok (.importAccount (beforeNul secretHex) (chosenPassword password) seed)
  | .exportAccount address password => do
    return .exportAccount (← parseAddress C (beforeNul address)) (chosenPassword password)
  | .unlock address password => do
    return .unlock (← parseAddress C (beforeNul address)) (beforeNul password)
  | .forgetAccount address => do return .forgetAccount (← parseAddress C (beforeNul address))
  | .observeAccount address => do return .observe (← parseAddress C (beforeNul address))
  | .stopObserving address => do return .stopObserving (← parseAddress C (beforeNul address))
  | .stageAddInstallation address keyHex => do
    return .stageAddInstallation (← parseAddress C (beforeNul address)) (beforeNul keyHex)
  | .stageSetDisplayName address name => do
    return .stageSetDisplayName (← parseAddress C (beforeNul address)) (beforeNul name)
  | .stageRevoke address index => do
    return .stageRevoke (← parseAddress C (beforeNul address)) index
  | .discardPending address => do return .discardPending (← parseAddress C (beforeNul address))
  | .publish address => do return .publish (← parseAddress C (beforeNul address))

/-! ### What is told of it -/

/-- An answer of the core, as a reply. -/
def CoreAnswer.reply : CoreAnswer Addr → Reply
  | .done => { ok := true }
  | .taken addr => { ok := true, address := String.ofList (C.addrText addr) }
  | .secret hex => { ok := true, key := hex }
  | .observed fresh => { ok := true, alreadyObserved := !fresh }
  | .refreshed dropped => { ok := true, dropped := dropped }
  | .published ⟨firstNewIndex, dropped⟩ => {
      ok := true
      firstNewIndex := firstNewIndex.elim (-1) fun index => index
      dropped := dropped }
  | .listed rows => { ok := true, accounts := rows }
  | .shown screen => { ok := true, state := some screen }

/-- What a task is told of the operation it asked for.  An import of a key held already found it. -/
def Task.reply (text : CoreError Addr → String) (task : Task)
    (answer : Except (CoreError Addr) (CoreAnswer Addr)) : Reply :=
  match task, answer with
  | .importAccount .., .error (.vault (.accountExists addr)) =>
    { ok := true, address := String.ofList (C.addrText addr), alreadyHeld := true }
  | _, .error e => { error := text e }
  | _, .ok answer => answer.reply C

variable {C} {text : CoreError Addr → String} {w : World Addr}

/-! ### Arguments -/

omit [DecidableEq Addr] in
@[simp] theorem requiredArg_utf8 (arg : String) :
    Ffi.requiredArg (Backend.utf8 arg) = (.ok (beforeNul arg) : Except (CoreError Addr) _) := by
  simp [Ffi.requiredArg, Ffi.strArg, Backend.utf8]

omit [DecidableEq Addr] in
@[simp] theorem optionalArg_passwordArg (password : String) :
    Ffi.optionalArg (Backend.passwordArg password) =
      (.ok (chosenPassword password) : Except (CoreError Addr) _) := by
  unfold Backend.passwordArg chosenPassword
  split
  · rfl
  · show (Ffi.requiredArg (Backend.utf8 password)).map some = _
    rw [requiredArg_utf8]
    rfl

omit [DecidableEq Addr] in
@[simp] theorem addressArg_utf8 (address : String) :
    Ffi.addressArg C (Backend.utf8 address) = parseAddress C (beforeNul address) := by
  unfold Ffi.addressArg
  rw [requiredArg_utf8]
  rfl

/-! ### Calls -/

omit [DecidableEq Addr] in
/-- An argument that is not what it should be refuses the call, and the core is left alone. -/
theorem reply_orFail {α : Type} (arg : Except (CoreError Addr) α) (f : α → CoreM Addr Reply) :
    Ffi.reply text (Action.orFail arg >>= f) w = match arg with
      | .error e => ({ error := text e }, w)
      | .ok a => Ffi.reply text (f a) w := by
  unfold Ffi.reply
  rw [Action.on_bind, Action.on_orFail]
  cases arg <;> rfl

/-- A call on the core is answered by what the operation answers. -/
theorem reply_map {α : Type} {op : CoreOp Addr} {x : CoreM Addr α} {f : α → CoreAnswer Addr}
    {g : α → Reply} (hop : op.body C = do return f (← x))
    (hreply : ∀ a, (f a).reply C = { g a with ok := true }) {task : Task}
    (htask : ∀ secretHex password, task ≠ .importAccount secretHex password) :
    Ffi.reply text (do return g (← x)) w =
      (task.reply C text (op.run C w).1, (op.run C w).2) := by
  have hrefused : ∀ e, task.reply C text (.error e) = { error := text e } := by
    intro e
    cases task with
    | importAccount secretHex password => exact absurd rfl (htask secretHex password)
    | _ => rfl
  have hok : ∀ answer, task.reply C text (.ok answer) = answer.reply C := fun _ => by
    cases task <;> rfl
  unfold Ffi.reply CoreOp.run
  rw [hop, Action.on_bind, Action.on_bind]
  generalize x.on w = ran
  obtain ⟨e | a, w'⟩ := ran
  · rw [hrefused]
  · show ({ g a with ok := true }, w') = (task.reply C text (.ok (f a)), w')
    rw [hok, hreply]

/-- A call that names an account is refused where the address is none. -/
theorem reply_addressed {address : String} {f : Addr → CoreM Addr Reply} {op : Addr → CoreOp Addr}
    {task : Task} (hcall : ∀ addr, Ffi.reply text (f addr) w =
      (task.reply C text ((op addr).run C w).1, ((op addr).run C w).2)) :
    Ffi.reply text (Action.orFail (Ffi.addressArg C (Backend.utf8 address)) >>= f) w =
      match (do return op (← parseAddress C (beforeNul address)) :
        Except (CoreError Addr) (CoreOp Addr)) with
      | .error e => ({ error := text e }, w)
      | .ok op => (task.reply C text (op.run C w).1, (op.run C w).2) := by
  rw [reply_orFail, addressArg_utf8]
  cases parseAddress C (beforeNul address) with
  | error e => rfl
  | ok addr => exact hcall addr

/-- An import's failure is told, but where the key is held already. -/
theorem reply_import (secretHex password : String) (seed : ℕ) :
    Ffi.reply text (Ffi.importAccount C seed (Backend.utf8 secretHex)
        (Backend.passwordArg password)) w =
      ((Task.importAccount secretHex password).reply C text
          ((CoreOp.importAccount (beforeNul secretHex) (chosenPassword password) seed).run C w).1,
        ((CoreOp.importAccount (beforeNul secretHex)
          (chosenPassword password) seed).run C w).2) := by
  unfold Ffi.importAccount
  rw [reply_orFail, requiredArg_utf8]
  dsimp only
  rw [reply_orFail, optionalArg_passwordArg]
  dsimp only
  unfold CoreOp.run CoreOp.body
  rw [Action.on_bind]
  generalize himport : (importAccount C (beforeNul secretHex) (chosenPassword password) seed).on w =
    ran
  obtain ⟨e | addr, w'⟩ := ran
  · have hcaught : (do
        return (← importAccount C (beforeNul secretHex) (chosenPassword password) seed, false) :
          CoreM Addr (Addr × Bool)).on w = (.error e, w') :=
      Action.on_bind_error.mpr (.inl himport)
    unfold Ffi.reply
    rw [Action.on_bind, Action.on_tryCatch_error hcaught]
    cases e with
    | vault e => cases e <;> rfl
    | _ => rfl
  · have htaken : (do
        return (← importAccount C (beforeNul secretHex) (chosenPassword password) seed, false) :
          CoreM Addr (Addr × Bool)).on w = (.ok (addr, false), w') :=
      Action.on_bind_ok.mpr ⟨addr, w', himport, rfl⟩
    unfold Ffi.reply
    rw [Action.on_bind, Action.on_tryCatch_ok htaken]
    rfl

/-- A task's call comes to the operation it asks for, told as its answer is. -/
theorem work_eq (generated : Ed25519SigningKey) (seed : ℕ) (task : Task) (w : World Addr) :
    Ffi.reply text (task.work C generated seed) w = match task.op C generated seed with
      | .error e => ({ error := text e }, w)
      | .ok op => (task.reply C text (op.run C w).1, (op.run C w).2) := by
  unfold Task.work Task.op
  cases task with
  | accounts => exact reply_map rfl (fun _ => rfl) (fun _ _ h => by cases h)
  | state address =>
    exact reply_addressed fun addr => reply_map rfl (fun _ => rfl) (fun _ _ h => by cases h)
  | refresh address selection =>
    exact reply_addressed fun addr => reply_map rfl (fun _ => rfl) (fun _ _ h => by cases h)
  | createAccount password =>
    dsimp only
    unfold Ffi.createAccount
    rw [reply_orFail, optionalArg_passwordArg]
    exact reply_map rfl (fun _ => rfl) (fun _ _ h => by cases h)
  | importAccount secretHex password => exact reply_import secretHex password seed
  | exportAccount address password =>
    refine reply_addressed fun addr => ?_
    rw [reply_orFail, optionalArg_passwordArg]
    exact reply_map rfl (fun _ => rfl) (fun _ _ h => by cases h)
  | unlock address password =>
    refine reply_addressed fun addr => ?_
    rw [reply_orFail, requiredArg_utf8]
    exact reply_map rfl (fun _ => rfl) (fun _ _ h => by cases h)
  | forgetAccount address =>
    exact reply_addressed fun addr => reply_map rfl (fun _ => rfl) (fun _ _ h => by cases h)
  | observeAccount address =>
    exact reply_addressed fun addr => reply_map rfl (fun _ => rfl) (fun _ _ h => by cases h)
  | stopObserving address =>
    exact reply_addressed fun addr => reply_map rfl (fun _ => rfl) (fun _ _ h => by cases h)
  | stageAddInstallation address keyHex =>
    refine reply_addressed fun addr => ?_
    rw [reply_orFail, requiredArg_utf8]
    exact reply_map rfl (fun _ => rfl) (fun _ _ h => by cases h)
  | stageSetDisplayName address name =>
    refine reply_addressed fun addr => ?_
    rw [reply_orFail, requiredArg_utf8]
    exact reply_map rfl (fun _ => rfl) (fun _ _ h => by cases h)
  | stageRevoke address index =>
    exact reply_addressed fun addr => reply_map rfl (fun _ => rfl) (fun _ _ h => by cases h)
  | discardPending address =>
    exact reply_addressed fun addr => reply_map rfl (fun _ => rfl) (fun _ _ h => by cases h)
  | publish address =>
    exact reply_addressed fun addr => reply_map rfl (fun _ => rfl) (fun _ _ h => by cases h)

end AccountLogUi
