import AccountLogUi.Manager.Steps

/-!
# Several devices on one store

`Devices` is any number of apps that read and write one store, each with a directory and a clock of
its own.  Of a publish, the read and the write are two steps, and between them the other devices do
what they like, writes of their own included.  The device that publishes does nothing else in
between, since one call of the app runs to its end before the next begins.

`Devices.Run` is a run of them, with every write they performed.
-/

namespace AccountLogUi

/-- An update a device planned and has yet to write. -/
structure InFlight (Addr : Type) where
  addr : Addr
  update : Update
  /-- What the store held for the account when the device read it. -/
  read : List AccountEntry

/-- One device, without the store. -/
structure Device (Addr : Type) where
  core : AccountCore Addr
  disk : Disk
  now : ℤ
  asked : List (Request Addr)
  inFlight : Option (InFlight Addr)

structure Devices (ι Addr : Type) where
  store : Store Addr
  device : ι → Device Addr

variable {ι Addr : Type} [DecidableEq Addr] (C : Crates Addr)

/-- The entries of the log the store holds for an account. -/
def Store.entries (store : Store Addr) (addr : Addr) : List AccountEntry :=
  match store.held addr with
  | none => []
  | some signed =>
    match C.verify addr signed with
    | .ok log => log.entries
    | .error _ => []

/-- An operation, up to the write of a publish. -/
def CoreOp.upToWrite (op : CoreOp Addr) (w : World Addr) : Option (Addr × Update) × World Addr :=
  match op with
  | .publish addr =>
    match (Manager.planUpdate C addr).on w with
    | (.ok (.inr update), w') => (some (addr, update), w')
    | (_, w') => (none, w')
  | op => (none, (op.run C w).2)

namespace Devices

/-- What device `i` sees. -/
def worldOf (s : Devices ι Addr) (i : ι) : World Addr where
  core := (s.device i).core
  disk := (s.device i).disk
  store := s.store
  now := (s.device i).now
  asked := (s.device i).asked

variable [DecidableEq ι]

/-- Device `i` left its world as `w`. -/
def put (s : Devices ι Addr) (i : ι) (w : World Addr) (inFlight : Option (InFlight Addr)) :
    Devices ι Addr where
  store := w.store
  device := Function.update s.device i ⟨w.core, w.disk, w.now, w.asked, inFlight⟩

/-- Device `i` performs an operation, up to the write of a publish. -/
def act (s : Devices ι Addr) (i : ι) (op : CoreOp Addr) : Devices ι Addr :=
  s.put i (op.upToWrite C (s.worldOf i)).2
    ((op.upToWrite C (s.worldOf i)).1.map fun planned =>
      ⟨planned.1, planned.2, s.store.entries C planned.1⟩)

/-- A write one device performed. -/
structure Write (ι Addr : Type) where
  device : ι
  inFlight : InFlight Addr
  before : Devices ι Addr
  answer : Except (CoreError Addr) Published
  after : Devices ι Addr

/-- Device `i` writes what it planned. -/
def write (s : Devices ι Addr) (i : ι) (inFlight : InFlight Addr) : Write ι Addr :=
  let (answer, w) := (Manager.writeUpdate C inFlight.addr inFlight.update).on (s.worldOf i)
  { device := i
    inFlight := inFlight
    before := s
    answer := answer
    after := s.put i w none }

/-- A run of the devices, with the writes they performed, oldest first.  Whatever happens to a
device's directory or its clock happens between its operations. -/
inductive Run (start : Devices ι Addr) : List (Write ι Addr) → Devices ι Addr → Prop
  | nil : Run start [] start
  | act {ps : List (Write ι Addr)} {s : Devices ι Addr} (i : ι) (op : CoreOp Addr)
      (h : Run start ps s) (hidle : (s.device i).inFlight = none) : Run start ps (s.act C i op)
  | write {ps : List (Write ι Addr)} {s : Devices ι Addr} {i : ι} {inFlight : InFlight Addr}
      (h : Run start ps s) (hflight : (s.device i).inFlight = some inFlight) :
      Run start (ps ++ [s.write C i inFlight]) (s.write C i inFlight).after
  | elsewhere {ps : List (Write ι Addr)} {s : Devices ι Addr} (i : ι) (disk : Disk) (now : ℤ)
      (h : Run start ps s) :
      Run start ps (s.put i { s.worldOf i with disk := disk, now := now } (s.device i).inFlight)

/-- All devices just started, on a store in memory whose logs check. -/
structure Fresh (s : Devices ι Addr) : Prop where
  memory : ∃ store, s.store = .memory store
  checks : ∀ addr signed, s.store.held addr = some signed → ∃ log, C.verify addr signed = .ok log
  core : ∀ i, (s.device i).core = .new
  idle : ∀ i, (s.device i).inFlight = none

end Devices

end AccountLogUi
