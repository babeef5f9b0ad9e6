import AccountLogUi.Backend.Host
import AccountLogUi.Ffi.Basic
import AccountLogUi.Manager.Equiv.Agreeing

/-!
# The backend over the library itself

`Library.core` is the library the backend is linked with: a task makes its call of the C ABI on an
`AccountCore`, over a directory that no one else writes to.  Between two calls the store, the clock
and the calls of the filesystem about to fail may be any.
-/

namespace AccountLogUi

variable {Addr : Type} [DecidableEq Addr]

/-- The core at work, on a directory of its own. -/
structure Session (C : Crates Addr) where
  world : World Addr
  alone : Alone C world

/-- The world, where no call of the filesystem fails. -/
def World.calm (w : World Addr) : World Addr := { w with disk := ⟨w.disk.fs, []⟩ }

/-- The library, with errors in the given words. -/
def Library.core (C : Crates Addr) (text : CoreError Addr → String) : Library (Session C) where
  Answers task l reply l' := ∃ generated seed w, w.core = l.world.core ∧
    w.disk.fs = l.world.disk.fs ∧ Ffi.reply text (task.work C generated seed) w = (reply, l'.world)
  listing l := ((Manager.accounts C).on l.world.calm).1.toOption.getD []
  screen l address :=
    ((Ffi.state C (Backend.utf8 address)).on l.world.calm).1.toOption.bind (·.state)

/-- An import failed after the vault had stored its account. -/
def UiHost.Happened.Halfway {C : Crates Addr} (h : UiHost.Happened (Session C)) : Prop :=
  ∃ secretHex password reply, h.ran = some (.importAccount secretHex password) ∧
    h.event = .finish reply ∧ reply.ok = false ∧
    ¬Vault.SameFiles C h.before.library.world.disk.fs h.after.library.world.disk.fs

end AccountLogUi
