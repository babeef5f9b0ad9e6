import AccountLogUi.Manager.Equiv.Log
import AccountLogUi.Manager.Steps

/-!
# An account by itself

What editing an account comes to where nobody else writes to its log: the log published, the edits
waiting to be, and the count of those dropped that no answer has told.  `Edit` is what can be asked
of it, and `Account.apply` what that answers and makes of it, in terms of what is live in the log.
Nothing here reads a store, holds a copy of a log or looks for a key.
-/

namespace AccountLogUi

open Manager

variable {Addr : Type}

structure Account where
  published : List AccountEntry
  staged : List StagedEdit
  uncounted : ℕ

/-- What can be asked of one account. -/
inductive Edit
  | refresh
  | stageAddInstallation (keyHex : String)
  | stageSetDisplayName (name : String)
  | stageRevoke (index : ℕ)
  | discardPending
  | publish
deriving DecidableEq

/-- The call of the app that asks it. -/
def Edit.op (addr : Addr) : Edit → CoreOp Addr
  | refresh => .refresh addr
  | stageAddInstallation keyHex => .stageAddInstallation addr keyHex
  | stageSetDisplayName name => .stageSetDisplayName addr name
  | stageRevoke index => .stageRevoke addr index
  | discardPending => .discardPending addr
  | publish => .publish addr

/-- The name in force is the highest-indexed live one. -/
def InForce (entries : List AccountEntry) (name : String) : Prop :=
  ∃ index, NameLive entries index name ∧ ∀ index' name', NameLive entries index' name' →
    index' ≤ index

/-- The log does what the edit is for. -/
def Done (entries : List AccountEntry) : StagedEdit → Prop
  | .revoke index => isLive entries index = false
  | .addInstallation key => KeyLive entries key.bytes
  | .setDisplayName name => InForce entries name

namespace Account

variable (C : Crates Addr) (a : Account)

/-- The log takes the entries within its budget. -/
def Fits (staged : List StagedEdit) : Prop :=
  (C.payloadOf (a.published ++ plan staged)).length ≤ C.maxPayloadBytes

open Classical in
/-- The edits the log does are dropped, and counted. -/
noncomputable def settled : Account :=
  if C.Readable a.published then
    { a with
      staged := a.staged.filter fun edit => ¬Done a.published edit
      uncounted := a.uncounted + a.staged.countP fun edit => Done a.published edit }
  else a

@[simp] theorem settled_published : (a.settled C).published = a.published := by
  unfold settled
  split <;> rfl

theorem settled_of_unreadable (h : ¬C.Readable a.published) : a.settled C = a := if_neg h

/-- What an edit answers, and what it makes of the account. -/
abbrev Answer (Addr : Type) := Except (CoreError Addr) (CoreAnswer Addr) × Account

open Classical in
/-- The edits staged are to be these. -/
noncomputable def restage (staged : List StagedEdit) : Answer Addr :=
  if a.Fits C staged then (.ok .done, { a with staged := staged }) else (.error .overBudget, a)

open Classical in
noncomputable def addInstallation (key : Ed25519VerifyingKey) : Answer Addr :=
  if ¬C.Readable a.published then (.error .unreadable, a)
  else if KeyLive a.published key.bytes then (.error .installationLive, a)
  else if .addInstallation key ∈ a.staged then (.error .alreadyStaged, a)
  else a.restage C (a.staged ++ [.addInstallation key])

open Classical in
/-- A name takes the place of the one staged, and the name in force only takes that one away. -/
noncomputable def setDisplayName (name : String) : Answer Addr :=
  if ¬C.Readable a.published then (.error .unreadable, a)
  else if ¬InForce a.published name then
    a.restage C (a.staged.filter (!isRename ·) ++ [.setDisplayName name])
  else if ∃ name, .setDisplayName name ∈ a.staged then a.restage C (a.staged.filter (!isRename ·))
  else (.error .nameUnchanged, a)

open Classical in
noncomputable def revoke (index : ℕ) : Answer Addr :=
  if ¬C.Readable a.published then (.error .unreadable, a)
  else if isLive a.published index = false then (.error (.notRevocable index), a)
  else if .revoke index ∈ a.staged then (.error .alreadyStaged, a)
  else a.restage C (a.staged ++ [.revoke index])

/-- Every drop is told. -/
def collected : Account := { a with uncounted := 0 }

open Classical in
/-- What the log does already is dropped, and the rest of what is staged is appended to it. -/
noncomputable def publish : Answer Addr :=
  if a.staged = [] then (.error .nothingStaged, a)
  else
    let a := a.settled C
    if ¬C.Readable a.published then (.error .unreadable, a)
    else if a.staged = [] then (.ok (.published ⟨none, a.uncounted⟩), a.collected)
    else if a.Fits C a.staged then
      (.ok (.published ⟨some a.published.length, a.uncounted⟩),
        ⟨a.published ++ plan a.staged, [], 0⟩)
    else (.error .overBudget, a)

noncomputable def apply : Edit → Answer Addr
  | .refresh => (.ok (.refreshed (a.settled C).uncounted), (a.settled C).collected)
  | .stageAddInstallation keyHex =>
    match parseInstallationKey C keyHex with
    | .error e => (.error e, a)
    | .ok key => a.addInstallation C key
  | .stageSetDisplayName name =>
    match (displayName name : Except (CoreError Addr) String) with
    | .error e => (.error e, a)
    | .ok name => a.setDisplayName C name
  | .stageRevoke index => a.revoke C index
  | .discardPending => (.ok .done, { a with staged := [] })
  | .publish => a.publish C

end Account

end AccountLogUi
