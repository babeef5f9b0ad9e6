import Mathlib.Data.List.Basic
import Mathlib.Tactic.Common

/-!
# Account logs

The data the account-log crate hands the app: entries, logs, drafts, signed logs and records, with
the two contexts the app edits.  A log is the list of its entries, and an entry's index is its
place in that list.

`isLive` says which entries are live: the additions no removal targets.  It depends on the whole
log, and `isLive_append` says what appending entries does to it.
-/

namespace AccountLogUi

/-- Thirty-two bytes: a key, or a secret. -/
structure Bytes32 where
  toList : List UInt8
  length_eq : toList.length = 32
deriving DecidableEq

/-- What an addition is filed under, such as `profile.displayname`. -/
abbrev Context := String

/-- `SIGNER_CONTEXT`, where logos-chat installation keys are endorsed. -/
def signerContext : Context := "chat.signer"

/-- `DISPLAY_NAME_CONTEXT`, under the profile specification's namespace. -/
def displayNameContext : Context := "profile.displayname"

/-- What an addition holds. -/
inductive EntryData
  | ed25519Key (key : Bytes32)
  | text (value : String)
  | other (tag : UInt8) (body : List UInt8)
deriving DecidableEq

/-- One entry of a log.  `unknown` is an opcode a newer build wrote. -/
inductive AccountEntry
  | add (context : Context) (data : EntryData)
  | remove (index : ℕ)
  | unknown (opcode : UInt8) (body : List UInt8)
deriving DecidableEq

/-- An entry with its place in the log. -/
structure IndexedEntry where
  index : ℕ
  entry : AccountEntry
deriving DecidableEq

/-- A log, as decoded: it may hold entries this build cannot read. -/
structure AccountLog where
  entries : List AccountEntry
deriving DecidableEq

/-- A log this build can extend. -/
structure AccountLogDraft where
  entries : List AccountEntry
deriving DecidableEq

/-- The log a draft holds so far. -/
def AccountLogDraft.log (draft : AccountLogDraft) : AccountLog := ⟨draft.entries⟩

/-- A draft of nothing. -/
def AccountLogDraft.new : AccountLogDraft := ⟨[]⟩

/-- A log as it is transmitted and stored. -/
structure SignedAccountLog where
  payload : List UInt8
  signature : List UInt8
deriving DecidableEq

/-- What a resolver holds for an account: the log and what it was read from. -/
structure AccountRecord where
  log : AccountLog
  signedLog : SignedAccountLog
deriving DecidableEq

/-- An Ed25519 secret. -/
structure Ed25519SigningKey where
  bytes : Bytes32
deriving DecidableEq

/-- An Ed25519 public key. -/
structure Ed25519VerifyingKey where
  bytes : Bytes32
deriving DecidableEq

/-- Why the account-log crate refused. -/
inductive AccountLogError
  | tooLarge (size : ℕ)
  | other (message : String)
deriving DecidableEq

/-- Why a store did not do what it was asked. -/
inductive StoreError
  | transport (message : String)
  | diverged
  | noRoute
  | status (code : ℕ) (reason : Option String)
  | malformed (message : String)
deriving DecidableEq

/-- Why the account crate refused. -/
inductive AccountError
  | log (error : AccountLogError)
  | forked
  | provider (error : StoreError)
deriving DecidableEq

/-! ### Indices and liveness -/

/-- The entries with their indices, in log order. -/
def indexed (entries : List AccountEntry) : List IndexedEntry := entries.mapIdx IndexedEntry.mk

/-- The entry at an index is an addition, and no removal in the log targets it. -/
def isLive (entries : List AccountEntry) (index : ℕ) : Bool :=
  match entries[index]? with
  | some (.add _ _) => !entries.contains (.remove index)
  | _ => false

theorem mem_indexed {entries : List AccountEntry} {e : IndexedEntry} :
    e ∈ indexed entries ↔ entries[e.index]? = some e.entry := by
  rw [indexed, List.mem_mapIdx]
  constructor
  · rintro ⟨i, hi, rfl⟩
    exact List.getElem?_eq_getElem hi
  · intro h
    obtain ⟨hi, he⟩ := List.getElem?_eq_some_iff.mp h
    exact ⟨e.index, hi, by rw [he]⟩

theorem isLive_iff {entries : List AccountEntry} {index : ℕ} :
    isLive entries index = true ↔
      (∃ context data, entries[index]? = some (.add context data)) ∧
        AccountEntry.remove index ∉ entries := by
  unfold isLive
  split
  · next context data h => simp [h]
  · next h =>
    simp only [Bool.false_eq_true, false_iff, not_and]
    rintro ⟨context, data, hadd⟩
    exact absurd hadd (h context data)

theorem isLive_lt {entries : List AccountEntry} {index : ℕ} (h : isLive entries index = true) :
    index < entries.length := by
  obtain ⟨⟨context, data, hadd⟩, -⟩ := isLive_iff.mp h
  exact (List.getElem?_eq_some_iff.mp hadd).1

/-- Below the end of a log, what is appended decides liveness by its removals alone. -/
theorem isLive_append {entries more : List AccountEntry} {index : ℕ}
    (h : index < entries.length) :
    isLive (entries ++ more) index = true ↔
      isLive entries index = true ∧ AccountEntry.remove index ∉ more := by
  simp only [isLive_iff, List.getElem?_append_left h, List.mem_append, not_or, and_assoc]

/-- Past the end of a log, an appended addition is live unless some removal targets it. -/
theorem isLive_append_right {entries more : List AccountEntry} {offset : ℕ} :
    isLive (entries ++ more) (entries.length + offset) = true ↔
      (∃ context data, more[offset]? = some (.add context data)) ∧
        AccountEntry.remove (entries.length + offset) ∉ entries ∧
        AccountEntry.remove (entries.length + offset) ∉ more := by
  rw [isLive_iff, List.getElem?_append_right (Nat.le_add_right _ _), Nat.add_sub_cancel_left,
    List.mem_append, not_or]

/-- What is live in a log that extends another was live in it, if it was there. -/
theorem isLive_of_prefix {entries entries' : List AccountEntry} (h : entries <+: entries')
    {index : ℕ} (hlt : index < entries.length) (hlive : isLive entries' index = true) :
    isLive entries index = true := by
  obtain ⟨more, rfl⟩ := h
  exact ((isLive_append hlt).mp hlive).1

end AccountLogUi
