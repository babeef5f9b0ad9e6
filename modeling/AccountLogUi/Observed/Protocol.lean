import AccountLogUi.Observed.Basic

/-!
# How the observed list is rewritten

`Rewriting` is what is known of a running change to the list: what it read, and how far the
document replacing it has come.  `protocol` holds a change to writing, beside the list, the
document of the list it read with the change made to it, and to renaming it over the list only
once it is synced.
-/

namespace AccountLogUi.Observed

variable {Addr : Type} [DecidableEq Addr]

/-- The changes to the list. -/
inductive Change (Addr : Type)
  | add (addr : Addr)
  | remove (addr : Addr)
deriving DecidableEq

namespace Change

/-- The account it is about. -/
def addr : Change Addr → Addr
  | .add addr | .remove addr => addr

/-- The program of a change. -/
def body (C : Crates Addr) : Change Addr → FsM ObservedError Bool
  | .add addr => Observed.add C addr
  | .remove addr => Observed.remove C addr

/-- The change is one to that list. -/
def needed : Change Addr → List Addr → Bool
  | .add addr, observed => !observed.contains addr
  | .remove addr, observed => observed.contains addr

/-- The list with the change made. -/
def apply : Change Addr → List Addr → List Addr
  | .add addr, observed => observed ++ [addr]
  | .remove addr, observed => observed.filter (· ≠ addr)

end Change

/-- How far a change has come. -/
structure Rewriting (Addr : Type) where
  change : Change Addr
  /-- The list it read. -/
  read : Option (List Addr) := none
  /-- Its document is beside the list. -/
  staged : Bool := false
  /-- And was synced there. -/
  synced : Bool := false
  /-- It took the list's name. -/
  renamed : Bool := false

/-- A document of the list, as a file's content. -/
def contentOf (C : Crates Addr) (observed : List Addr) : Content :=
  .text (.json (documentOf C observed))

namespace Rewriting

variable (C : Crates Addr)

/-- The content a change writes, of the list it read. -/
def Writes (g : Rewriting Addr) (content : Content) : Prop :=
  ∃ observed, g.read = some observed ∧ g.change.needed observed = true ∧
    content = contentOf C (g.change.apply observed)

/-- The calls a change makes, and when. -/
def allowed (g : Rewriting Addr) : FsCall → Prop
  | .readToString name => name = observedFile
  | .write path content => path = .top stagedFile ∧ g.renamed = false ∧ g.Writes C content
  | .syncAll path => path = .top stagedFile
  | .rename src dest => src = .top stagedFile ∧ dest = observedFile ∧ g.staged = true ∧
      g.synced = true
  | .createDirAll | .setMode _ _ | .syncDir => True
  | _ => False

/-- How far a change has come once a call was answered. -/
def next (g : Rewriting Addr) : (c : FsCall) → Except IoError c.Value → Rewriting Addr
  | .readToString _, r =>
    match r with
    | .ok text => { g with read := (ofText C text).toOption }
    | .error .notFound => { g with read := some [] }
    | .error _ => g
  | .write _ _, r => { g with staged := r.isOk, synced := false }
  | .syncAll _, r => { g with synced := g.synced || r.isOk }
  | .rename _ _, r => if r.isOk then { g with staged := false, renamed := true } else g
  | _, _ => g

end Rewriting

/-- What a change is held to. -/
def protocol (C : Crates Addr) : Protocol fsSig (Rewriting Addr) where
  allowed := Rewriting.allowed C
  next := Rewriting.next C

/-- Where a change leaves off: answering `true` exactly when the list was replaced, and `false`
only where there was nothing to change. -/
def Finished (g : Rewriting Addr) (res : Except ObservedError Bool) : Prop :=
  match res with
  | .ok true => g.renamed = true
  | .ok false => g.renamed = false ∧ ∃ observed, g.read = some observed ∧
      g.change.needed observed = false
  | .error _ => g.renamed = false

end AccountLogUi.Observed
