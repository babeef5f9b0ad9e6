import AccountLogUi.View.Basic

/-!
# What the screens read of the state

`Store` is the whole of the view's contact with the host.  The functions here are the ones it
derives from the state on screen, so that no two screens derive them apart: what the pending
entries add to the log, what they will remove, and the names there are.
-/

namespace AccountLogUi.View

variable (state : AccountState)

/-- What the pending entries add to the log. -/
def pendingBytes : ℕ := state.pending.foldl (fun total row => total + row.bytes) 0

/-- Indices a staged revocation points at. -/
def revoking : List ℕ := state.pending.filterMap (·.target)

def willBeRevoked (index : ℕ) : Bool := (revoking state).contains index

/-- The pending entry that will retire this one, or -1. -/
def willBeRevokedBy (index : ℕ) : ℤ :=
  (state.pending.find? (·.target = some index)).elim (-1) fun row => row.index

/-- The revocation that already retired this entry, or -1. -/
def removedBy (index : ℕ) : ℤ :=
  (state.entries.find? fun row => row.kind = "revocation" && row.target = some index).elim (-1)
    fun row => row.index

/-- `InstallationList`'s keys to come, which it lists before the ones there are. -/
def arriving : List EntryRow := state.pending.filter (·.kind = "installation")

end AccountLogUi.View
